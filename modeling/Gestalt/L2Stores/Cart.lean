import Gestalt.L1Shared.Http
import Mathlib.Data.List.AList

/-!
# cart-service: carts in Redis

A cart is one Redis hash: a field for each product, and the two metadata fields
`_updated_at` and `_abandonment_counted` (`META_FIELDS`). `Entry` is the hash with
its expiry; a hash without fields does not exist. Redis keeps strings; here a
value is the integer or the time whose text it is, so `int(...)` of a time is the
`ValueError` of the source.

The endpoints and the step of the abandonment scan are functions on the entry of
one key, as they are when nothing interrupts them; `CartServer` cuts them at their
Redis commands. Times are in microseconds, settings in seconds. The answer of
`get_price_and_stock` is an input: the stock, or the error it raises.
-/
namespace Gestalt.Cart

/-- mirrors services/cart-service/app/redis_client.py:12 -/
def updatedAtField : String := "_updated_at"

/-- mirrors services/cart-service/app/redis_client.py:13 -/
def abandonmentCountedField : String := "_abandonment_counted"

/-- mirrors services/cart-service/app/redis_client.py:14 -/
def metaFields : List String := [updatedAtField, abandonmentCountedField]

/-- mirrors services/cart-service/app/redis_client.py:17-18 -/
def cartKey (userId : String) : String := "cart:" ++ userId

theorem cartKey_inj {u v : String} (h : cartKey u = cartKey v) : u = v := by
  simpa [cartKey] using h

/-- mirrors services/cart-service/app/config.py:7 and :13-14 -/
structure Settings where
  cartTtlSeconds : Nat := 86400
  cartAbandonmentThresholdSeconds : Nat := 1800

def microseconds : Nat := 1000000

/-- The text of an integer, or `str(time.time())`. -/
inductive Value
  | int (n : Int)
  | time (t : Nat)
  deriving DecidableEq, Repr

/-- `int(value)`; none where it raises. -/
def Value.toInt? : Value → Option Int
  | .int n => some n
  | .time _ => none

/-- `float(value)` seconds. -/
def Value.toTime : Value → Int
  | .int n => n * microseconds
  | .time t => t

/-- A hash, and when it expires. -/
structure Entry where
  fields : AList fun _ : String => Value
  expireAt : Option Nat := none

namespace Entry

def empty : Entry := ⟨∅, none⟩

/-! ## Redis commands -/

/-- `HGET key field` -/
def hget (e : Entry) (field : String) : Option Value := e.fields.lookup field

/-- `HSET key field value` -/
def hset (e : Entry) (field : String) (v : Value) : Entry := { e with fields := e.fields.insert field v }

/-- `HDEL key field ...`; a hash whose last field goes is gone. -/
def hdel (e : Entry) (fields : List String) : Entry :=
  let left := fields.foldl (fun a f => a.erase f) e.fields
  if left.keys = [] then empty else { e with fields := left }

/-- `HKEYS key` -/
def hkeys (e : Entry) : List String := e.fields.keys

/-- `HGETALL key` -/
def hgetall (e : Entry) : List (String × Value) := e.fields.entries.map fun x => (x.1, x.2)

/-- `HMGET key field ...` -/
def hmget (e : Entry) (fields : List String) : List (Option Value) := fields.map e.hget

/-- `EXPIRE key seconds`, on a key that exists. -/
def expire (e : Entry) (deadline : Nat) : Entry :=
  if e.fields.keys = [] then e else { e with expireAt := some deadline }

/-- The key exists. -/
def live (e : Entry) : Bool := !e.fields.keys.isEmpty

theorem hget_hset (e : Entry) (f g : String) (v : Value) :
    (e.hset f v).hget g = if g = f then some v else e.hget g := by
  unfold hset hget
  split
  · rename_i h
    subst h
    exact AList.lookup_insert _
  · rename_i h
    exact AList.lookup_insert_ne h

theorem lookup_foldl_erase (a : AList fun _ : String => Value) (fs : List String) (g : String) :
    (fs.foldl (fun a f => a.erase f) a).lookup g = if g ∈ fs then none else a.lookup g := by
  induction fs generalizing a with
  | nil => simp
  | cons f fs ih =>
    rw [List.foldl_cons, ih]
    by_cases hg : g = f
    · subst hg
      simp
    · simp [hg, AList.lookup_erase_ne hg]

theorem lookup_of_keys_nil {a : AList fun _ : String => Value} (h : a.keys = []) (g : String) :
    a.lookup g = none := by
  rw [AList.lookup_eq_none, AList.mem_keys, h]
  exact List.not_mem_nil

theorem hget_hdel (e : Entry) (fs : List String) (g : String) :
    (e.hdel fs).hget g = if g ∈ fs then none else e.hget g := by
  have h := lookup_foldl_erase e.fields fs g
  unfold hdel hget
  simp only
  split
  · rename_i hnil
    rw [← h, lookup_of_keys_nil hnil]
    rfl
  · exact h

@[simp] theorem hget_expire (e : Entry) (t : Nat) (g : String) : (e.expire t).hget g = e.hget g := by
  unfold expire hget
  split <;> rfl

theorem mem_hkeys {e : Entry} {f : String} : f ∈ e.hkeys ↔ e.hget f ≠ none := by
  unfold hkeys hget
  rw [← AList.mem_keys, ← AList.lookup_isSome, Option.isSome_iff_ne_none]

/-- The quantity of a product in the cart. -/
def quantity (e : Entry) (productId : String) : Option Int := (e.hget productId).bind Value.toInt?

/-- Every product has an integer as its quantity. -/
def Typed (e : Entry) : Prop :=
  ∀ f v, e.hget f = some v → f ∉ metaFields → ∃ n, v = .int n

theorem quantity_hset (e : Entry) (f p : String) (v : Value) :
    (e.hset f v).quantity p = if p = f then v.toInt? else e.quantity p := by
  unfold quantity
  rw [hget_hset]
  split <;> rfl

theorem quantity_hdel (e : Entry) (fs : List String) (p : String) :
    (e.hdel fs).quantity p = if p ∈ fs then none else e.quantity p := by
  unfold quantity
  rw [hget_hdel]
  split <;> rfl

@[simp] theorem quantity_expire (e : Entry) (t : Nat) (p : String) :
    (e.expire t).quantity p = e.quantity p := by
  unfold quantity
  rw [hget_expire]

/-- Of a product that has a field, `quantity` is its value. -/
theorem Typed.quantity_none {e : Entry} (h : e.Typed) {p : String} (hp : p ∉ metaFields) :
    e.quantity p = none ↔ e.hget p = none := by
  unfold quantity
  cases hv : e.hget p with
  | none => simp
  | some v =>
    obtain ⟨n, rfl⟩ := h p v hv hp
    simp [Value.toInt?]

theorem Typed.hset {e : Entry} (h : e.Typed) {f : String} {v : Value}
    (hv : f ∉ metaFields → ∃ n, v = .int n) : (e.hset f v).Typed := by
  intro g w hw hg
  rw [hget_hset] at hw
  split at hw
  · rename_i hgf
    subst hgf
    obtain rfl := Option.some.inj hw
    exact hv hg
  · exact h g w hw hg

theorem Typed.hdel {e : Entry} (h : e.Typed) (fs : List String) : (e.hdel fs).Typed := by
  intro g w hw hg
  rw [hget_hdel] at hw
  split at hw
  · cases hw
  · exact h g w hw hg

theorem Typed.expire {e : Entry} (h : e.Typed) (t : Nat) : (e.expire t).Typed := by
  intro g w hw hg
  rw [hget_expire] at hw
  exact h g w hw hg

/-- `any(f not in META_FIELDS for f in ...)` -/
def hasItems (e : Entry) : Bool := e.hkeys.any fun f => decide (f ∉ metaFields)

end Entry
/-! ## The endpoints -/

/-- `quantity` is `Field(gt=0)`.
mirrors services/cart-service/app/schemas.py:13-15 -/
structure AddItemRequest where
  productId : String
  quantity : Int
  quantity_pos : 0 < quantity
  deriving Repr

instance : DecidableEq AddItemRequest := fun a b =>
  decidable_of_iff (a.productId = b.productId ∧ a.quantity = b.quantity) (by cases a; cases b; simp)

/-- mirrors services/cart-service/app/schemas.py:4-6 -/
structure CartItemOut where
  productId : String
  quantity : Int
  deriving DecidableEq, Repr

inductive Answer
  | cart (items : List CartItemOut)
  | noContent
  | removed (productIds : List String)
  | error (e : AppError)
  deriving DecidableEq, Repr

def Answer.ok : Answer → Bool
  | .error _ => false
  | _ => true

/-- mirrors services/cart-service/app/routers/cart.py:48 -/
def insufficientStock : AppError :=
  ⟨"INSUFFICIENT_STOCK", "Requested quantity exceeds available stock", 409⟩

/-- mirrors services/cart-service/app/redis_client.py:21-27 -/
def touchCart (cfg : Settings) (now : Nat) (e : Entry) : Entry :=
  ((e.hset updatedAtField (.time now)).hdel [abandonmentCountedField]).expire
    (now + cfg.cartTtlSeconds * microseconds)

theorem quantity_touchCart (cfg : Settings) (now : Nat) (e : Entry) {p : String} (hp : p ∉ metaFields) :
    (touchCart cfg now e).quantity p = e.quantity p := by
  simp only [metaFields, List.mem_cons, List.not_mem_nil, or_false, not_or] at hp
  simp [touchCart, Entry.quantity_hdel, Entry.quantity_hset, hp]

theorem typed_touchCart (cfg : Settings) (now : Nat) {e : Entry} (h : e.Typed) :
    (touchCart cfg now e).Typed :=
  ((h.hset fun hm => absurd (by simp [metaFields]) hm).hdel _).expire _

/-- `CartItemOut(productId=pid, quantity=int(qty))` -/
def cartItem (field : String × Value) : Option CartItemOut :=
  field.2.toInt?.map fun quantity => ⟨field.1, quantity⟩

/-- mirrors services/cart-service/app/routers/cart.py:23-30 -/
def readCart (e : Entry) : Answer :=
  match (e.hgetall.filter fun field => decide (field.1 ∉ metaFields)).mapM cartItem with
  | some items => .cart items
  | none => .error internalError

/-- `int(redis_client.hget(key, product_id) or 0)`; none where `int` raises. -/
def currentQty (e : Entry) (productId : String) : Option Int :=
  match e.hget productId with
  | none => some 0
  | some v => v.toInt?

theorem mapM_isSome {α β : Type} {f : α → Option β} {l : List α} (h : ∀ x ∈ l, (f x).isSome = true) :
    (l.mapM f).isSome = true := by
  induction l with
  | nil => rfl
  | cons x l ih =>
    obtain ⟨y, hy⟩ := Option.isSome_iff_exists.mp (h x (List.mem_cons_self ..))
    obtain ⟨ys, hys⟩ := Option.isSome_iff_exists.mp (ih fun z hz => h z (List.mem_cons_of_mem _ hz))
    simp [List.mapM_cons, hy, hys]

theorem Entry.mem_hgetall {e : Entry} {x : String × Value} (h : x ∈ e.hgetall) :
    e.hget x.1 = some x.2 := by
  obtain ⟨y, hy, rfl⟩ := List.mem_map.mp h
  exact AList.mem_lookup_iff.mpr hy

theorem readCart_ok {e : Entry} (h : e.Typed) : (readCart e).ok = true := by
  have hsome : ((e.hgetall.filter fun field => decide (field.1 ∉ metaFields)).mapM cartItem).isSome =
      true := by
    refine mapM_isSome fun x hx => ?_
    obtain ⟨hx, hmeta⟩ := List.mem_filter.mp hx
    obtain ⟨n, hn⟩ := h x.1 x.2 (Entry.mem_hgetall hx) (of_decide_eq_true hmeta)
    rw [cartItem, hn]
    rfl
  obtain ⟨items, hitems⟩ := Option.isSome_iff_exists.mp hsome
  rw [readCart, hitems]
  rfl

theorem currentQty_eq {e : Entry} (h : e.Typed) {p : String} (hp : p ∉ metaFields) :
    currentQty e p = some ((e.quantity p).getD 0) := by
  unfold currentQty Entry.quantity
  cases hv : e.hget p with
  | none => rfl
  | some v =>
    obtain ⟨n, rfl⟩ := h p v hv hp
    rfl

/-- `catalog` is what `get_price_and_stock` returns as stock, or raises.
mirrors services/cart-service/app/routers/cart.py:38-53 -/
def addItem (cfg : Settings) (catalog : Except AppError Int) (now : Nat) (e : Entry)
    (body : AddItemRequest) : Entry × Answer :=
  match catalog with
  | .error err => (e, .error err)
  | .ok stock =>
    match currentQty e body.productId with
    | none => (e, .error internalError)
    | some current =>
      let newQty := current + body.quantity
      if stock < newQty then (e, .error insufficientStock)
      else
        let e := touchCart cfg now (e.hset body.productId (.int newQty))
        (e, readCart e)

/-- mirrors services/cart-service/app/routers/cart.py:56-62 -/
def removeItem (cfg : Settings) (now : Nat) (e : Entry) (productId : String) : Entry × Answer :=
  let e := e.hdel [productId]
  (if e.hasItems then touchCart cfg now e else e, .noContent)

/-- `[pid for pid, val in zip(productIds, present_values) if val is not None]` -/
def presentIds (e : Entry) (productIds : List String) : List String :=
  ((productIds.zip (e.hmget productIds)).filter fun x => x.2.isSome).map Prod.fst

theorem presentIds_cons (e : Entry) (p : String) (ps : List String) :
    presentIds e (p :: ps) = if (e.hget p).isSome then p :: presentIds e ps else presentIds e ps := by
  simp only [presentIds, Entry.hmget, List.map_cons, List.zip_cons_cons, List.filter_cons]
  split <;> rfl

theorem mem_presentIds {e : Entry} {ps : List String} {p : String} :
    p ∈ presentIds e ps ↔ p ∈ ps ∧ e.hget p ≠ none := by
  induction ps with
  | nil => simp [presentIds]
  | cons q ps ih =>
    rw [presentIds_cons]
    split
    · rename_i hq
      rw [Option.isSome_iff_ne_none] at hq
      rw [List.mem_cons, List.mem_cons, ih]
      constructor
      · rintro (rfl | ⟨hp, hn⟩)
        · exact ⟨.inl rfl, hq⟩
        · exact ⟨.inr hp, hn⟩
      · rintro ⟨rfl | hp, hn⟩
        · exact .inl rfl
        · exact .inr ⟨hp, hn⟩
    · rename_i hq
      have hnone : e.hget q = none := by simpa using hq
      rw [ih, List.mem_cons]
      constructor
      · rintro ⟨hp, hn⟩
        exact ⟨.inr hp, hn⟩
      · rintro ⟨rfl | hp, hn⟩
        · exact absurd hnone hn
        · exact ⟨hp, hn⟩

/-- mirrors services/cart-service/app/routers/cart.py:84-101 -/
def batchRemoveItems (cfg : Settings) (now : Nat) (e : Entry) (productIds : List String) :
    Entry × Answer :=
  if productIds.isEmpty then (e, .removed [])
  else
    let present := presentIds e productIds
    (if present.isEmpty then e else touchCart cfg now (e.hdel present), .removed present)

/-- A cart the scan counts.
mirrors services/cart-service/app/abandonment.py:29-41 -/
def abandoned (cfg : Settings) (now : Nat) (e : Entry) : Bool :=
  e.live && (e.hget abandonmentCountedField).isNone && e.hasItems &&
    decide ((cfg.cartAbandonmentThresholdSeconds * microseconds : Int) ≤
      now - ((e.hget updatedAtField).map Value.toTime).getD 0)

/-- mirrors services/cart-service/app/abandonment.py:44 -/
def flag (e : Entry) : Entry := e.hset abandonmentCountedField (.int 1)

theorem Entry.hasItems_iff {e : Entry} : e.hasItems = true ↔ ∃ f, f ∉ metaFields ∧ e.hget f ≠ none := by
  simp only [hasItems, List.any_eq_true, decide_eq_true_eq, mem_hkeys]
  exact ⟨fun ⟨f, hf, hm⟩ => ⟨f, hm, hf⟩, fun ⟨f, hm, hf⟩ => ⟨f, hf, hm⟩⟩

theorem Entry.hasItems_of_hdel {e : Entry} {fs : List String} (h : (e.hdel fs).hasItems = true) :
    e.hasItems = true := by
  obtain ⟨f, hm, hf⟩ := hasItems_iff.mp h
  rw [hget_hdel] at hf
  split at hf
  · exact absurd rfl hf
  · exact hasItems_iff.mpr ⟨f, hm, hf⟩

theorem Entry.hasItems_of_expire {e : Entry} {d : Nat} (h : (e.expire d).hasItems = true) :
    e.hasItems = true := by
  obtain ⟨f, hm, hf⟩ := hasItems_iff.mp h
  exact hasItems_iff.mpr ⟨f, hm, by simpa using hf⟩

theorem Entry.hasItems_of_flag {e : Entry} (h : (flag e).hasItems = true) : e.hasItems = true := by
  obtain ⟨f, hm, hf⟩ := hasItems_iff.mp h
  have hne : f ≠ abandonmentCountedField := fun he => hm (by simp [he, metaFields])
  rw [flag, hget_hset, if_neg hne] at hf
  exact hasItems_iff.mpr ⟨f, hm, hf⟩

theorem Entry.updatedAt_flag (e : Entry) : (flag e).hget updatedAtField = e.hget updatedAtField := by
  rw [flag, hget_hset, if_neg (by decide)]

/-- A request; the user id is the token's, or the header's. -/
inductive Request
  | addItem (userId : String) (body : AddItemRequest)
  | removeItem (userId productId : String)
  | batchRemoveItems (userId : String) (productIds : List String)
  deriving DecidableEq, Repr

namespace Request

def userId : Request → String
  | .addItem u _ => u
  | .removeItem u _ => u
  | .batchRemoveItems u _ => u

/-- The products it names. -/
def products : Request → List String
  | .addItem _ body => [body.productId]
  | .removeItem _ p => [p]
  | .batchRemoveItems _ ps => ps

/-- The request, with nothing in between. -/
def serve (cfg : Settings) (catalog : Except AppError Int) (now : Nat) (e : Entry) :
    Request → Entry × Answer
  | .addItem _ body => Cart.addItem cfg catalog now e body
  | .removeItem _ p => Cart.removeItem cfg now e p
  | .batchRemoveItems _ ps => Cart.batchRemoveItems cfg now e ps

end Request
end Gestalt.Cart
