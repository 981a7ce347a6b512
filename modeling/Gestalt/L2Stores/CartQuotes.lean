import Gestalt.L2Stores.CartServer

/-!
# What a cart shows was added to it

The two reads of cart-service, and where a quantity in a cart comes from. A `Quote` is what
catalog-service has told an `add_item` of the stock of its product; `System.quoted` is the
ghost of what a step adds to these. Requests that overlap read and write a field as they
come, and an `add_item` may write a sum nobody has asked for; but what it writes is never
more than the stock it was quoted (`Backed`), and a read returns each product once, with a
quantity that an `add_item` of this user has written (`Backed.shows`).
-/
namespace Gestalt.Cart

/-! ## The two reads -/

/-- mirrors services/cart-service/app/routers/cart.py:33-35 -/
def getCart (s : System) (userId : String) : Answer := readCart (s.redis (cartKey userId))

/-- mirrors services/cart-service/app/routers/cart.py:75 -/
def emptyCart : AppError := ⟨"EMPTY_CART", "Cart is empty, nothing to check out", 400⟩

/-- mirrors services/cart-service/app/routers/cart.py:65-76 -/
def checkoutIntent (s : System) (userId : String) : Answer :=
  match getCart s userId with
  | .cart [] => .error emptyCart
  | answer => answer

/-- What `int(...)` makes of the fields that are not metadata. -/
theorem mapM_cartItem {l : List (String × Value)} {items : List CartItemOut} (h : l.mapM cartItem = some items) :
    items.map (fun x => (x.productId, Value.int x.quantity)) = l := by
  induction l generalizing items with
  | nil =>
    cases h
    rfl
  | cons x l ih =>
    rw [List.mapM_cons] at h
    obtain ⟨y, hy, hrest⟩ := Option.bind_eq_some_iff.mp h
    obtain ⟨ys, hys, hitems⟩ := Option.bind_eq_some_iff.mp hrest
    cases hitems
    obtain ⟨n, hn, rfl⟩ := Option.map_eq_some_iff.mp hy
    obtain ⟨f, v⟩ := x
    cases v with
    | time t => cases hn
    | int m =>
      cases hn
      rw [List.map_cons, ih hys]

/-- **What a read of a cart returns**: the quantities that are there, each product once. -/
theorem readCart_items {e : Entry} {items : List CartItemOut} (h : readCart e = .cart items) :
    (items.map CartItemOut.productId).Nodup ∧
      ∀ x ∈ items, x.productId ∉ metaFields ∧ e.quantity x.productId = some x.quantity := by
  unfold readCart at h
  split at h
  · rename_i items' hitems
    cases h
    have hmap := mapM_cartItem hitems
    constructor
    · have hkeys : (e.hgetall.map Prod.fst).Nodup := by
        have hfst : e.hgetall.map Prod.fst = e.fields.keys := by
          simp only [Entry.hgetall, List.map_map]
          rfl
        exact hfst ▸ e.fields.keys_nodup
      have hsub := (List.filter_sublist (p := fun field => decide (field.1 ∉ metaFields))
        (l := e.hgetall)).map Prod.fst
      rw [← hmap, List.map_map] at hsub
      exact hkeys.sublist hsub
    · intro x hx
      have hmem : (x.productId, Value.int x.quantity) ∈
          e.hgetall.filter fun field => decide (field.1 ∉ metaFields) := by
        rw [← hmap]
        exact List.mem_map_of_mem hx
      obtain ⟨hmem, hmeta⟩ := List.mem_filter.mp hmem
      exact ⟨of_decide_eq_true hmeta, by simp [Entry.quantity, Entry.mem_hgetall hmem, Value.toInt?]⟩
  · cases h

/-! ## Quotes -/

/-- The stock `get_price_and_stock` has returned to an `add_item`. -/
structure Quote where
  userId : String
  productId : String
  stock : Int
  deriving DecidableEq, Repr

/-- The quote that a step gets. -/
def System.quoted (s : System) : Lbl → List Quote
  | .next i (.ok stock) =>
    match s.procs[i]? with
    | some ⟨.addItem u body, .catalog, _⟩ => [⟨u, body.productId, stock⟩]
    | _ => []
  | _ => []

/-- The user was quoted a stock that the quantity is within. -/
def Covers (quotes : List Quote) (userId productId : String) (n : Int) : Prop :=
  0 < n ∧ ∃ stock, ⟨userId, productId, stock⟩ ∈ quotes ∧ n ≤ stock

/-- What a request holds that is to write a quantity. -/
def Pc.Backed (quotes : List Quote) (userId productId : String) : Pc → Prop
  | .hget stock => ⟨userId, productId, stock⟩ ∈ quotes
  | .hset newQty => productId ∉ metaFields → Covers quotes userId productId newQty
  | _ => True

def Request.Backed (quotes : List Quote) (pc : Pc) : Request → Prop
  | .addItem u body => pc.Backed quotes u body.productId
  | _ => True

/-- The cart of a user. -/
structure Entry.Backed (quotes : List Quote) (userId : String) (e : Entry) : Prop where
  typed : e.Typed
  covered : ∀ p n, p ∉ metaFields → e.quantity p = some n → Covers quotes userId p n

structure Backed (quotes : List Quote) (s : System) : Prop where
  cart : ∀ u, (s.redis (cartKey u)).Backed quotes u
  call : ∀ x ∈ s.procs, x.call.Backed quotes x.pc

variable {quotes quotes' : List Quote} {cfg : Settings} {s s' : System}

theorem Covers.mono {u p : String} {n : Int} (h : Covers quotes u p n) (hq : quotes ⊆ quotes') :
    Covers quotes' u p n := by
  obtain ⟨hpos, stock, hmem, hle⟩ := h
  exact ⟨hpos, stock, hq hmem, hle⟩

theorem Request.Backed.mono {r : Request} {pc : Pc} (h : r.Backed quotes pc) (hq : quotes ⊆ quotes') :
    r.Backed quotes' pc := by
  cases r with
  | addItem u body =>
    cases pc with
    | hget stock => exact hq h
    | hset newQty => exact fun hm => (h hm).mono hq
    | _ => trivial
  | _ => trivial

theorem Entry.Backed.mono {u : String} {e : Entry} (h : e.Backed quotes u) (hq : quotes ⊆ quotes') :
    e.Backed quotes' u := ⟨h.typed, fun p n hp hn => (h.covered p n hp hn).mono hq⟩

/-! ## What the commands do -/

theorem Entry.Backed.empty (quotes : List Quote) (u : String) : Entry.empty.Backed quotes u := by
  constructor
  · intro f v h
    cases h
  · intro p n _ h
    cases h

theorem Entry.Backed.hset {u p : String} {e : Entry} {n : Int} (h : e.Backed quotes u)
    (hn : p ∉ metaFields → Covers quotes u p n) : (e.hset p (.int n)).Backed quotes u := by
  refine ⟨h.typed.hset fun _ => ⟨n, rfl⟩, fun q m hq hm => ?_⟩
  rw [quantity_hset] at hm
  split at hm
  · rename_i hqp
    subst hqp
    cases hm
    exact hn hq
  · exact h.covered q m hq hm

/-- Metadata is no product. -/
theorem Entry.Backed.hset_meta {u f : String} {e : Entry} {v : Value} (h : e.Backed quotes u)
    (hf : f ∈ metaFields) : (e.hset f v).Backed quotes u := by
  refine ⟨h.typed.hset fun hn => absurd hf hn, fun q m hq hm => ?_⟩
  have hne : q ≠ f := by
    rintro rfl
    exact hq hf
  rw [quantity_hset, if_neg hne] at hm
  exact h.covered q m hq hm

theorem Entry.Backed.hdel {u : String} {e : Entry} (h : e.Backed quotes u) (fs : List String) :
    (e.hdel fs).Backed quotes u := by
  refine ⟨h.typed.hdel fs, fun q m hq hm => ?_⟩
  rw [quantity_hdel] at hm
  split at hm
  · cases hm
  · exact h.covered q m hq hm

theorem Entry.Backed.expire {u : String} {e : Entry} (h : e.Backed quotes u) (t : Nat) :
    (e.expire t).Backed quotes u :=
  ⟨h.typed.expire t, fun q m hq hm => h.covered q m hq (by rwa [quantity_expire] at hm)⟩

theorem Entry.Backed.touch {u : String} {e : Entry} (h : e.Backed quotes u) (now : Nat) (next : Option Answer)
    (pc : TouchPc) : (pc.step cfg now e next).1.Backed quotes u := by
  cases pc with
  | time => exact h
  | updatedAt t => exact h.hset_meta (by decide)
  | counted => exact h.hdel _
  | expire => exact h.expire _

/-- The cart has quantities that are positive. -/
theorem Entry.Backed.current {u p : String} {e : Entry} {n : Int} (h : e.Backed quotes u) (hp : p ∉ metaFields)
    (hn : currentQty e p = some n) : 0 ≤ n := by
  rw [currentQty_eq h.typed hp, Option.some.injEq] at hn
  cases hq : e.quantity p with
  | none =>
    rw [hq] at hn
    exact hn ▸ Int.le_refl 0
  | some m =>
    rw [hq] at hn
    obtain rfl : m = n := hn
    exact Int.le_of_lt (h.covered p m hp hq).1

/-! ## A step of a request -/

/-- The stock a request goes on with is the one it was told. -/
theorem told {catalog : Except AppError Int} {now : Nat} {e e' : Entry} {u : String} {body : AddItemRequest}
    {stock : Int} (h : (Request.addItem u body).step cfg catalog now e .catalog = some (e', .hget stock)) :
    catalog = .ok stock := by
  cases catalog with
  | error err => cases h
  | ok n =>
    cases h
    rfl

/-- **One request**: what it writes is covered, and so is what it goes on with. -/
theorem backed_moves {now : Nat} {e e' : Entry} {r : Request} {pc pc' : Pc} (hm : Moves cfg now e r pc e' pc')
    (he : e.Backed quotes r.userId) (hr : r.Backed quotes pc) (hsub : quotes ⊆ quotes')
    (hquote : ∀ u body stock, r = .addItem u body → pc = .catalog → pc' = .hget stock →
      ⟨u, body.productId, stock⟩ ∈ quotes') :
    e'.Backed quotes' r.userId ∧ r.Backed quotes' pc' := by
  cases hm with
  | refuse hpc err => exact ⟨he.mono hsub, trivial⟩
  | stock stock => exact ⟨he.mono hsub, hquote _ _ stock rfl rfl rfl⟩
  | @read u body stock current hq hs =>
    refine ⟨he.mono hsub, fun hp => ⟨?_, stock, hsub hr, hs⟩⟩
    have hpos := he.current hp hq
    have := body.quantity_pos
    omega
  | write => exact ⟨(he.mono hsub).hset fun hp => (hr hp).mono hsub, trivial⟩
  | @touch _ next tpc =>
    refine ⟨(he.mono hsub).touch now next tpc, ?_⟩
    cases r with
    | addItem u body => cases tpc <;> cases next <;> trivial
    | _ => trivial
  | cart => exact ⟨he.mono hsub, trivial⟩
  | hdel => exact ⟨(he.mono hsub).hdel _, trivial⟩
  | hkeys => exact ⟨he.mono hsub, trivial⟩
  | hmget => exact ⟨he.mono hsub, trivial⟩
  | hdelPresent => exact ⟨(he.mono hsub).hdel _, trivial⟩

/-! ## The system -/

/-- The carts after one of them has changed. -/
theorem backed_update {redis : String → Entry} {key : String} {e : Entry}
    (h : ∀ u, (redis (cartKey u)).Backed quotes u) (he : ∀ u, key = cartKey u → e.Backed quotes u) :
    ∀ u, (Function.update redis key e (cartKey u)).Backed quotes u := by
  intro u
  by_cases hk : cartKey u = key
  · subst hk
    rw [Function.update_self]
    exact he u rfl
  · rw [Function.update_of_ne hk]
    exact h u

/-- **Step lemma.** -/
theorem backed_step {l : Lbl} (I : Backed quotes s) (h : s.step cfg l = some s') :
    Backed (quotes ++ s.quoted l) s' := by
  have hsub : quotes ⊆ quotes ++ s.quoted l := List.subset_append_left _ _
  have hcart : ∀ u, (s.redis (cartKey u)).Backed (quotes ++ s.quoted l) u := fun u => (I.cart u).mono hsub
  have hcall : ∀ x ∈ s.procs, x.call.Backed (quotes ++ s.quoted l) x.pc := fun x hx => (I.call x hx).mono hsub
  -- one request at another place
  have hset : ∀ {i : Nat} {x x' : Proc}, s.procs[i]? = some x → x'.call.Backed (quotes ++ s.quoted l) x'.pc →
      ∀ y ∈ s.procs.set i x', y.call.Backed (quotes ++ s.quoted l) y.pc := by
    intro i x x' _ hx' y hy
    rcases List.mem_or_eq_of_mem_set hy with hy | rfl
    · exact hcall y hy
    · exact hx'
  cases l with
  | next i catalog =>
    simp only [System.step] at h
    split at h
    · rename_i x hx
      split at h
      · obtain ⟨⟨e', pc'⟩, hop, rfl⟩ := Option.map_eq_some_iff.mp h
        have hquote : ∀ u body stock, x.call = .addItem u body → x.pc = .catalog → pc' = .hget stock →
            ⟨u, body.productId, stock⟩ ∈ quotes ++ s.quoted (.next i catalog) := by
          rintro u body stock hc hpc rfl
          obtain ⟨c, pc, a⟩ := x
          simp only at hc hpc
          subst hc hpc
          obtain rfl := told hop
          simp [System.quoted, hx]
        obtain ⟨he, hr⟩ :=
          backed_moves (moves_of_step hop) (I.cart _) (I.call x (List.mem_of_getElem? hx)) hsub hquote
        refine ⟨backed_update hcart ?_, hset hx hr⟩
        intro u hu
        exact cartKey_inj hu ▸ he
      · cases h
    · cases h
  | call r =>
    cases h
    refine ⟨hcart, fun x hx => ?_⟩
    rcases List.mem_append.mp hx with hx | hx
    · exact hcall x hx
    · obtain rfl := List.mem_singleton.mp hx
      cases r <;> trivial
  | crash i =>
    cases System.steps_of_step h with
    | @crash _ x hx => exact ⟨hcart, hset hx (hcall x (List.mem_of_getElem? hx))⟩
  | nextKey j key =>
    cases System.steps_of_step h with
    | flag =>
      refine ⟨backed_update hcart fun u hu => ?_, hcall⟩
      exact hu ▸ (hcart u).hset_meta (by decide)
    | _ => exact ⟨hcart, hcall⟩
  | expire key =>
    cases System.steps_of_step h with
    | expire => exact ⟨backed_update hcart fun u _ => .empty _ u, hcall⟩
  | runPass | crashScan j | tick d =>
    cases System.steps_of_step h
    exact ⟨hcart, hcall⟩

theorem backed_noCarts : Backed [] System.noCarts :=
  ⟨fun u => .empty [] u, nofun⟩

/-- **What a read of a cart shows**: each product once, and no metadata; each quantity is within a stock
that this user was quoted. -/
theorem Backed.shows (I : Backed quotes s) (u : String) : ∃ items, getCart s u = .cart items ∧
    (items.map CartItemOut.productId).Nodup ∧
    ∀ x ∈ items, x.productId ∉ metaFields ∧ Covers quotes u x.productId x.quantity := by
  have hok := readCart_ok (I.cart u).typed
  cases hread : readCart (s.redis (cartKey u)) with
  | cart items =>
    obtain ⟨hnd, hall⟩ := readCart_items hread
    refine ⟨items, hread, hnd, fun x hx => ?_⟩
    obtain ⟨hmeta, hq⟩ := hall x hx
    exact ⟨hmeta, (I.cart u).covered _ _ hmeta hq⟩
  | error err =>
    rw [hread] at hok
    cases hok
  | noContent | removed ps =>
    unfold readCart at hread
    split at hread <;> cases hread

end Gestalt.Cart
