import Gestalt.Core.Resets
import Gestalt.Core.Tally
import Gestalt.L2Stores.CartServer

/-!
# Cart updates that get lost

Status: open.

Behaviour: `add_item` reads the quantity of the product with `HGET`, adds to it in
Python and writes the sum with `HSET` (services/cart-service/app/routers/cart.py:45-50).
What happens to the field in between is overwritten: another `add_item` of the
product counts for nothing, and a product that `remove_item` or the batch delete
after a checkout has taken out is back with its old quantity.

Documented: API_REFERENCE.md:187-188, "Repeated adds of the same product
**increment** the existing quantity"; routers/cart.py:88-91, the batch delete
"removes exactly the listed product ids". The reservation of stock in
catalog-service, the same read and write, takes a row lock for it
(catalog.py:93-119).

Counterexample: `doubleClick`. Two requests add 2 and 3 pieces of one product to
an empty cart; both succeed and the cart holds 3.

Fix: `HINCRBY` instead of `HGET` and `HSET`, or a transaction that watches the key.
-/
namespace Gestalt.Cart

open Resets (Op Explained)

/-! ## One request after another -/

/-- The requests, one after another, each answered without an error. -/
inductive Serves (cfg : Settings) : Entry → List Request → Entry → Prop
  | nil (e : Entry) : Serves cfg e [] e
  | cons {e e' e'' : Entry} {r : Request} {rs : List Request} {a : Answer}
      (catalog : Except AppError Int) (now : Nat) (h : r.serve cfg catalog now e = (e', a))
      (ha : a.ok = true) (hrs : Serves cfg e' rs e'') : Serves cfg e (r :: rs) e''

namespace System

/-- The requests of a user. -/
def requests (s : System) (u : String) : List Request :=
  (s.procs.map Proc.call).filter fun r => decide (r.userId = u)

/-- Every request is answered, and none with an error. -/
def Completed (s : System) : Prop := ∀ x ∈ s.procs, ∃ a, x.pc = .done a ∧ a.ok = true

/-- The quantities in every cart are those of the user's requests one after another. -/
def NothingLost (cfg : Settings) (s₀ s : System) : Prop :=
  ∀ u, ∃ order e, order.Perm (s.requests u) ∧ Serves cfg (s₀.redis (cartKey u)) order e ∧
    ∀ p ∉ metaFields, (s.redis (cartKey u)).quantity p = e.quantity p

/-- No product has the name of a metadata field, and no key expires. -/
def inScope (_ : System) : Lbl → Bool
  | .call r => r.products.all fun p => decide (p ∉ metaFields)
  | .expire _ => false
  | _ => true

def scopeLts (cfg : Settings) : LTS System Lbl := (lts cfg).restrict fun s l => inScope s l = true

/-! ## When nothing is lost -/

/-- An `HSET` of `add_item` finds the field as its `HGET` has read it. -/
def writesOnRead (s : System) : Lbl → Bool
  | .next i _ =>
    match s.procs[i]? with
    | some ⟨.addItem u body, .hset newQty, _⟩ =>
      ((s.redis (cartKey u)).quantity body.productId).getD 0 = newQty - body.quantity
    | _ => true
  | _ => true

def keptLts (cfg : Settings) : LTS System Lbl :=
  (lts cfg).restrict fun s l => inScope s l = true ∧ writesOnRead s l = true

end System

/-- What it does to the quantities. -/
def Request.op : Request → Op String Int
  | .addItem _ body => .add body.productId body.quantity
  | .removeItem _ p => .clear [p]
  | .batchRemoveItems _ ps => .clear ps

/-- The quantities of the products. -/
def Entry.items (e : Entry) (p : String) : Option Int := if p ∈ metaFields then none else e.quantity p

/-- It has had its effect on them. -/
def Pc.effected : Pc → Bool
  | .touch none _ => true
  | .touch (some a) _ => a.ok
  | .hgetall => true
  | .hkeys => true
  | .done a => a.ok
  | _ => false

def Proc.effect (u : String) (x : Proc) : Option Request :=
  if x.call.userId = u ∧ x.pc.effected = true then some x.call else none

namespace System

/-- A product that a batch delete covers and has found absent. -/
def Spared (s : System) (u p : String) : Prop :=
  ∃ x ∈ s.procs, ∃ ps present, x.call = .batchRemoveItems u ps ∧ x.pc = .hdelPresent present ∧ p ∈ ps ∧
    p ∉ present

/-- The requests of the user that have had their effect explain the cart. -/
structure Inv (u : String) (m₀ : String → Option Int) (s : System) : Prop where
  explained : Explained m₀ (s.redis (cartKey u)).items (s.Spared u)
    ((s.procs.filterMap (Proc.effect u)).map Request.op)
  typed : (s.redis (cartKey u)).Typed
  products : ∀ x ∈ s.procs, ∀ p ∈ x.call.products, p ∉ metaFields
  present : ∀ x ∈ s.procs, ∀ ps present, x.call = .batchRemoveItems u ps → x.pc = .hdelPresent present →
    ∀ p ∈ present, p ∈ ps

/-! ### Frames -/

end System

theorem Entry.items_congr {e e' : Entry} (h : ∀ p ∉ metaFields, e'.quantity p = e.quantity p) :
    e'.items = e.items := by
  funext p
  unfold items
  split
  · rfl
  · exact h p ‹_›

theorem Entry.items_hset_meta {e : Entry} {f : String} {v : Value} (hf : f ∈ metaFields) :
    (e.hset f v).items = e.items := by
  refine items_congr fun p hp => ?_
  have hne : p ≠ f := fun h => hp (h ▸ hf)
  rw [quantity_hset, if_neg hne]

theorem Entry.items_hdel (e : Entry) (fs : List String) (p : String) :
    (e.hdel fs).items p = if p ∈ fs then none else e.items p := by
  unfold items
  rw [quantity_hdel]
  split <;> split <;> rfl

/-- What `HMGET` finds absent has no quantity. -/
theorem items_of_absent {e : Entry} (h : e.Typed) {ps : List String} {p : String} (hp : p ∈ ps)
    (habsent : p ∉ presentIds e ps) : e.items p = none := by
  unfold Entry.items
  split
  · rfl
  · rename_i hmeta
    rw [h.quantity_none hmeta]
    by_contra hne
    exact habsent (mem_presentIds.mpr ⟨hp, hne⟩)

theorem touch_items {cfg : Settings} {now : Nat} {e : Entry} {next : Option Answer} {pc : TouchPc} :
    (pc.step cfg now e next).1.items = e.items := by
  cases pc with
  | time => rfl
  | updatedAt t => exact Entry.items_hset_meta (by simp [metaFields])
  | counted =>
    refine Entry.items_congr fun p hp => ?_
    have hne : p ∉ [abandonmentCountedField] := by
      simp only [metaFields, List.mem_cons, List.not_mem_nil, or_false, not_or] at hp
      simpa using hp.2
    rw [TouchPc.step, Entry.quantity_hdel, if_neg hne]
  | expire => exact Entry.items_congr fun p _ => Entry.quantity_expire ..

theorem touch_typed {cfg : Settings} {now : Nat} {e : Entry} {next : Option Answer} {pc : TouchPc}
    (h : e.Typed) : (pc.step cfg now e next).1.Typed := by
  cases pc with
  | time => exact h
  | updatedAt t => exact h.hset fun hm => absurd (by simp [metaFields]) hm
  | counted => exact h.hdel _
  | expire => exact h.expire _

theorem touch_effected {cfg : Settings} {now : Nat} {e : Entry} {next : Option Answer} {pc : TouchPc} :
    (pc.step cfg now e next).2.effected = (Pc.touch next pc).effected := by
  cases pc <;> cases next <;> rfl

theorem effect_none {u : String} {c : Request} {pc : Pc} {a : Bool} (h : pc.effected = false) :
    (⟨c, pc, a⟩ : Proc).effect u = none := by
  simp [Proc.effect, h]

/-- It has no effect on the cart of another user. -/
theorem effect_other {u : String} {x : Proc} (hu : x.call.userId ≠ u) : x.effect u = none :=
  if_neg fun h => hu h.1

namespace System

section
variable {cfg : Settings} {u : String} {m₀ : String → Option Int} {s s' : System} {i : Nat} {x x' : Proc}

/-- What is spared after a step of request `i`. -/
theorem spared_set {p : String} (hp : s'.procs = s.procs.set i x') (h : s'.Spared u p) :
    s.Spared u p ∨ ∃ ps present, x'.call = .batchRemoveItems u ps ∧ x'.pc = .hdelPresent present ∧
      p ∈ ps ∧ p ∉ present := by
  obtain ⟨y, hy, ps, present, hc, hpc, hps, hpresent⟩ := h
  rw [hp] at hy
  rcases List.mem_or_eq_of_mem_set hy with hy | rfl
  · exact .inl ⟨y, hy, ps, present, hc, hpc, hps, hpresent⟩
  · exact .inr ⟨ps, present, hc, hpc, hps, hpresent⟩

/-- Request `i` goes on. -/
theorem Inv.set (hI : s.Inv u m₀) (hx : s.procs[i]? = some x) (hp : s'.procs = s.procs.set i x')
    (hc : x'.call = x.call) (htyped : (s'.redis (cartKey u)).Typed)
    (hpresent : ∀ ps present, x'.call = .batchRemoveItems u ps → x'.pc = .hdelPresent present →
      ∀ p ∈ present, p ∈ ps)
    (hexp : Explained m₀ (s'.redis (cartKey u)).items (s'.Spared u)
      (((s.procs.set i x').filterMap (Proc.effect u)).map Request.op)) : s'.Inv u m₀ := by
  refine ⟨hp ▸ hexp, htyped, ?_, ?_⟩
  · intro y hy
    rw [hp] at hy
    rcases List.mem_or_eq_of_mem_set hy with hy | rfl
    · exact hI.products y hy
    · rw [hc]
      exact hI.products x (List.mem_of_getElem? hx)
  · intro y hy
    rw [hp] at hy
    rcases List.mem_or_eq_of_mem_set hy with hy | rfl
    · exact hI.present y hy
    · exact hpresent

/-- Request `i` goes on, with no effect on the quantities. -/
theorem Inv.quiet (hI : s.Inv u m₀) (hx : s.procs[i]? = some x) (hp : s'.procs = s.procs.set i x')
    (hc : x'.call = x.call) (heff : x'.effect u = x.effect u)
    (hitems : (s'.redis (cartKey u)).items = (s.redis (cartKey u)).items)
    (htyped : (s'.redis (cartKey u)).Typed) (hpc : ∀ present, x'.pc ≠ .hdelPresent present) :
    s'.Inv u m₀ := by
  refine hI.set hx hp hc htyped (fun ps present _ h => absurd h (hpc present)) ?_
  rw [Procs.filterMap_set_eq hx heff, hitems]
  refine hI.explained.mono fun p hs => ?_
  rcases spared_set hp hs with hs | ⟨ps, present, -, h, -⟩
  · exact .inl hs
  · exact absurd h (hpc present)

/-- Only the carts change, and not the quantities in this one. -/
theorem Inv.redis (hI : s.Inv u m₀) (hp : s'.procs = s.procs)
    (hitems : (s'.redis (cartKey u)).items = (s.redis (cartKey u)).items)
    (htyped : (s'.redis (cartKey u)).Typed) : s'.Inv u m₀ := by
  refine ⟨?_, htyped, hp ▸ hI.products, hp ▸ hI.present⟩
  rw [hp, hitems]
  refine hI.explained.mono fun p hs => .inl ?_
  unfold Spared at hs ⊢
  rw [← hp]
  exact hs

/-- Request `i` has its effect. -/
theorem Inv.effective (hI : s.Inv u m₀) (hx : s.procs[i]? = some x) (hp : s'.procs = s.procs.set i x')
    (hc : x'.call = x.call) (hu : x.call.userId = u) (hb : x.pc.effected = false)
    (ha : x'.pc.effected = true) (htyped : (s'.redis (cartKey u)).Typed)
    (hexp : Explained m₀ (s'.redis (cartKey u)).items (s.Spared u)
      (x.call.op :: (s.procs.filterMap (Proc.effect u)).map Request.op)) : s'.Inv u m₀ := by
  have hpc : ∀ present, x'.pc ≠ .hdelPresent present := by
    intro present h
    rw [h] at ha
    cases ha
  have heff : x.effect u = none := if_neg fun h => by simp [hb] at h
  have heff' : x'.effect u = some x.call := by
    rw [← hc]
    exact if_pos ⟨hc ▸ hu, ha⟩
  refine hI.set hx hp hc htyped (fun ps present _ h => absurd h (hpc present)) ?_
  have hperm := (Procs.filterMap_set_perm hx heff heff').map Request.op
  refine (hexp.perm hperm.symm).mono fun p hs => ?_
  rcases spared_set hp hs with hs | ⟨ps, present, -, h, -⟩
  · exact .inl hs
  · exact absurd h (hpc present)

/-- `HSET` of the quantity that was read and the one that is added. -/
theorem inv_hset {body : AddItemRequest} {newQty : Int} {a : Bool} (hI : s.Inv u m₀)
    (hx : s.procs[i]? = some ⟨.addItem u body, .hset newQty, a⟩)
    (hread : ((s.redis (cartKey u)).quantity body.productId).getD 0 = newQty - body.quantity) :
    ({ s with
      redis := Function.update s.redis (cartKey u)
        ((s.redis (cartKey u)).hset body.productId (.int newQty))
      procs := s.procs.set i ⟨.addItem u body, .touch none .time, a⟩ } : System).Inv u m₀ := by
  have hp : body.productId ∉ metaFields :=
    hI.products _ (List.mem_of_getElem? hx) _ (by simp [Request.products])
  refine hI.effective hx rfl rfl rfl rfl rfl ?_ ?_
  · simp only [Function.update_self]
    exact hI.typed.hset fun _ => ⟨_, rfl⟩
  · simp only [Function.update_self]
    refine hI.explained.add fun p => ?_
    simp only [Op.apply, Entry.items, Entry.quantity_hset]
    by_cases he : body.productId = p
    · subst he
      rw [if_neg hp, if_neg hp, if_pos rfl, if_pos rfl, hread, Int.sub_add_cancel]
      rfl
    · rw [if_neg he, if_neg (Ne.symm he)]

/-- `HMGET`: the products it finds absent are spared, and if it finds none that is
the whole effect. -/
theorem inv_hmget {ps : List String} {a : Bool} (hI : s.Inv u m₀)
    (hx : s.procs[i]? = some ⟨.batchRemoveItems u ps, .hmget, a⟩) :
    ({ s with
      redis := Function.update s.redis (cartKey u) (s.redis (cartKey u))
      procs := s.procs.set i ⟨.batchRemoveItems u ps,
        if (presentIds (s.redis (cartKey u)) ps).isEmpty then .done (.removed [])
        else .hdelPresent (presentIds (s.redis (cartKey u)) ps), a⟩ } : System).Inv u m₀ := by
  rw [Function.update_eq_self]
  split
  · -- there is nothing to delete
    rename_i hnil
    have hnil : presentIds (s.redis (cartKey u)) ps = [] := List.isEmpty_iff.mp hnil
    have hnone : ∀ p ∈ ps, (s.redis (cartKey u)).items p = none := by
      intro p hp
      refine items_of_absent hI.typed hp ?_
      rw [hnil]
      exact List.not_mem_nil
    refine hI.effective hx rfl rfl rfl rfl rfl hI.typed ?_
    exact hI.explained.clear (fun p (hp : p ∈ []) => absurd hp List.not_mem_nil) (fun _ => rfl)
      fun p hp _ => .inr (hnone p hp)
  · refine hI.set hx rfl rfl hI.typed ?_ ?_
    · rintro qs present hc hpc p hp
      obtain ⟨-, rfl⟩ := Request.batchRemoveItems.inj hc
      obtain rfl := Pc.hdelPresent.inj hpc
      exact (mem_presentIds.mp hp).1
    · rw [Procs.filterMap_set_eq hx (by rw [effect_none rfl, effect_none rfl])]
      refine hI.explained.mono fun p hs => ?_
      rcases spared_set rfl hs with hs | ⟨qs, present, hc, hpc, hps, hn⟩
      · exact .inl hs
      · obtain ⟨-, rfl⟩ := Request.batchRemoveItems.inj hc
        obtain rfl := Pc.hdelPresent.inj hpc
        exact .inr (items_of_absent hI.typed hps hn)

theorem inv_next {catalog : Except AppError Int} {e' : Entry} {pc' : Pc} (hI : s.Inv u m₀)
    (hx : s.procs[i]? = some x) (hu : x.call.userId = u)
    (hm : Moves cfg s.clock (s.redis (cartKey u)) x.call x.pc e' pc')
    (hG : writesOnRead s (.next i catalog) = true) :
    ({ s with
      redis := Function.update s.redis (cartKey u) e'
      procs := s.procs.set i { x with pc := pc' } } : System).Inv u m₀ := by
  obtain ⟨c, pc, a⟩ := x
  simp only at hu hm
  have hself (e' : Entry) : Function.update s.redis (cartKey u) e' (cartKey u) = e' :=
    Function.update_self ..
  -- a step that reads only, or touches the metadata
  have hquiet (heff : pc'.effected = pc.effected) (hitems : e'.items = (s.redis (cartKey u)).items)
      (htyped : e'.Typed) (hpc : ∀ present, pc' ≠ .hdelPresent present) :
      ({ s with
        redis := Function.update s.redis (cartKey u) e'
        procs := s.procs.set i ⟨c, pc', a⟩ } : System).Inv u m₀ := by
    refine hI.quiet hx rfl rfl ?_ ?_ ?_ hpc
    · simp [Proc.effect, heff]
    · simp only [hself, hitems]
    · simp only [hself]
      exact htyped
  cases hm with
  | refuse hpc err =>
    refine hquiet ?_ rfl hI.typed (by simp)
    rcases hpc with rfl | ⟨stock, rfl⟩ <;> rfl
  | stock stock => exact hquiet rfl rfl hI.typed (by simp)
  | read hq hs => exact hquiet rfl rfl hI.typed (by simp)
  | cart => exact hquiet (readCart_ok hI.typed) rfl hI.typed (by simp)
  | hkeys =>
    refine hquiet ?_ rfl hI.typed ?_
    · split <;> rfl
    · intro present
      split <;> simp
  | @touch _ next pc =>
    refine hquiet touch_effected touch_items (touch_typed hI.typed) ?_
    intro present
    cases pc <;> cases next <;> simp [TouchPc.step, Pc.after]
  | @write v body newQty =>
    obtain rfl : v = u := hu
    exact inv_hset hI hx (by simpa [writesOnRead, hx] using hG)
  | @hdel v p =>
    obtain rfl : v = u := hu
    refine hI.effective hx rfl rfl rfl rfl rfl ?_ ?_
    · simp only [hself]
      exact hI.typed.hdel _
    · simp only [hself]
      exact hI.explained.clear (fun _ h => h) (Entry.items_hdel _ _) fun k hk hn => absurd hk hn
  | @hmget v ps =>
    obtain rfl : v = u := hu
    exact inv_hmget hI hx
  | @hdelPresent v ps present =>
    obtain rfl : v = u := hu
    have hxm := List.mem_of_getElem? hx
    refine hI.effective hx rfl rfl rfl rfl rfl ?_ ?_
    · simp only [hself]
      exact hI.typed.hdel _
    · simp only [hself]
      refine hI.explained.clear (hI.present _ hxm _ _ rfl rfl) (Entry.items_hdel _ _) fun p hp hn => ?_
      exact .inl ⟨_, hxm, ps, present, rfl, rfl, hp, hn⟩

/-- A request of another user goes on. -/
theorem Inv.other (hI : s.Inv u m₀) (hx : s.procs[i]? = some x) (hu : x.call.userId ≠ u) (pc' : Pc)
    (e' : Entry) :
    ({ s with
      redis := Function.update s.redis (cartKey x.call.userId) e'
      procs := s.procs.set i { x with pc := pc' } } : System).Inv u m₀ := by
  have hne : cartKey u ≠ cartKey x.call.userId := fun h => hu (cartKey_inj h).symm
  have hsame : Function.update s.redis (cartKey x.call.userId) e' (cartKey u) = s.redis (cartKey u) :=
    Function.update_of_ne hne ..
  have hbatch (ps : List String) : x.call ≠ .batchRemoveItems u ps := by
    intro h
    rw [h] at hu
    exact hu rfl
  refine hI.set hx rfl rfl ?_ (fun ps _ h => absurd h (hbatch ps)) ?_
  · simp only [hsame]
    exact hI.typed
  · have hu' : ({ x with pc := pc' } : Proc).call.userId ≠ u := hu
    have heff : ({ x with pc := pc' } : Proc).effect u = x.effect u :=
      (effect_other hu').trans (effect_other hu).symm
    rw [Procs.filterMap_set_eq hx heff]
    simp only [hsame]
    refine hI.explained.mono fun p hs => ?_
    rcases spared_set rfl hs with hs | ⟨ps, present, h, -⟩
    · exact .inl hs
    · exact absurd h (hbatch ps)

/-- A new request has had no effect. -/
theorem Inv.call (hI : s.Inv u m₀) {r : Request} (hr : ∀ p ∈ r.products, p ∉ metaFields) :
    ({ s with procs := s.procs ++ [{ call := r, pc := r.entry }] } : System).Inv u m₀ := by
  have hpc : ∀ present, r.entry ≠ .hdelPresent present := by
    intro present
    cases r <;> simp [Request.entry]
  have heff : ({ call := r, pc := r.entry } : Proc).effect u = none :=
    effect_none (by cases r <;> rfl)
  refine ⟨?_, hI.typed, ?_, ?_⟩
  · simp only [List.filterMap_append, List.filterMap_cons, heff, List.filterMap_nil, List.append_nil]
    refine hI.explained.mono ?_
    rintro p ⟨y, hy, ps, present, hc, hy', hps, hn⟩
    rcases List.mem_append.mp hy with hy | hy
    · exact .inl ⟨y, hy, ps, present, hc, hy', hps, hn⟩
    · obtain rfl := List.mem_singleton.mp hy
      exact absurd hy' (hpc present)
  · intro y hy
    rcases List.mem_append.mp hy with hy | hy
    · exact hI.products y hy
    · obtain rfl := List.mem_singleton.mp hy
      exact hr
  · intro y hy ps present hc hy'
    rcases List.mem_append.mp hy with hy | hy
    · exact hI.present y hy ps present hc hy'
    · obtain rfl := List.mem_singleton.mp hy
      exact absurd hy' (hpc present)

/-- A request that dies stays where it is. -/
theorem Inv.crash (hI : s.Inv u m₀) (hx : s.procs[i]? = some x) :
    ({ s with procs := s.procs.set i { x with alive := false } } : System).Inv u m₀ := by
  have hxm := List.mem_of_getElem? hx
  refine hI.set hx rfl rfl hI.typed (fun ps present hc hpc => hI.present x hxm ps present hc hpc) ?_
  have heff : ({ x with alive := false } : Proc).effect u = x.effect u := rfl
  rw [Procs.filterMap_set_eq hx heff]
  refine hI.explained.mono fun p hs => ?_
  rcases spared_set rfl hs with hs | ⟨ps, present, hc, hpc, hps, hn⟩
  · exact .inl hs
  · exact .inl ⟨x, hxm, ps, present, hc, hpc, hps, hn⟩

/-- A scan flags a cart. -/
theorem Inv.flag (hI : s.Inv u m₀) (k : String) (scans : List Scan) :
    ({ s with redis := Function.update s.redis k (Cart.flag (s.redis k)), scans } : System).Inv u m₀ := by
  by_cases hk : cartKey u = k
  · subst hk
    refine hI.redis rfl ?_ ?_
    · simp only [Function.update_self]
      exact Entry.items_hset_meta (by simp [metaFields])
    · simp only [Function.update_self]
      exact hI.typed.hset fun _ => ⟨_, rfl⟩
  · have hsame : Function.update s.redis k (Cart.flag (s.redis k)) (cartKey u) = s.redis (cartKey u) :=
      Function.update_of_ne hk ..
    refine hI.redis rfl ?_ ?_
    · simp only [hsame]
    · simp only [hsame]
      exact hI.typed

theorem inv_step {l : Lbl} (hI : s.Inv u m₀) (h : System.Steps cfg s l s')
    (hG : inScope s l = true ∧ writesOnRead s l = true) : s'.Inv u m₀ := by
  cases h with
  | call r => exact hI.call (by simpa [inScope] using hG.1)
  | @next i catalog x e' pc' hx ha hm =>
    by_cases hu : x.call.userId = u
    · subst hu
      exact inv_next hI hx rfl hm hG.2
    · exact hI.other hx hu pc' e'
  | crash hx => exact hI.crash hx
  | runPass => exact hI.redis rfl rfl hI.typed
  | scan hx ha hpc => exact hI.redis rfl rfl hI.typed
  | pass hx ha hpc hab => exact hI.redis rfl rfl hI.typed
  | count hx ha hpc hab => exact hI.redis rfl rfl hI.typed
  | flag hx ha hpc => exact hI.flag _ _
  | crashScan hx => exact hI.redis rfl rfl hI.typed
  | expire ht hdue => exact absurd hG.1 (by simp [inScope])
  | tick d => exact hI.redis rfl rfl hI.typed

theorem inv_run {ls : List Lbl} (hr : (keptLts cfg).Run s ls s') (hI : s.Inv u m₀) : s'.Inv u m₀ := by
  induction hr with
  | nil => exact hI
  | cons hst _ ih => exact ih (inv_step hI (steps_of_step hst.1) hst.2)

end
end System

/-! ### The serial execution -/

section
variable {cfg : Settings} {e e' : Entry} {r : Request}

theorem items_touchCart (cfg : Settings) (now : Nat) (e : Entry) : (touchCart cfg now e).items = e.items :=
  Entry.items_congr fun _ hp => quantity_touchCart cfg now e hp

theorem items_hset {p : String} (hp : p ∉ metaFields) (n : Int) (q : String) :
    (e.hset p (.int n)).items q = if p = q then some n else e.items q := by
  unfold Entry.items
  rw [Entry.quantity_hset]
  by_cases he : p = q
  · subst he
    rw [if_neg hp, if_pos rfl, if_pos rfl]
    rfl
  · rw [if_neg he, if_neg (Ne.symm he)]

/-- A request that is answered without an error does `op` to the quantities. -/
theorem serve_items {catalog : Except AppError Int} {now : Nat} {a : Answer} (ht : e.Typed)
    (hr : ∀ p ∈ r.products, p ∉ metaFields) (h : r.serve cfg catalog now e = (e', a)) (ha : a.ok = true) :
    e'.Typed ∧ ∀ p, e'.items p = r.op.apply p (e.items p) := by
  cases r with
  | addItem u body =>
    have hp : body.productId ∉ metaFields := hr _ (by simp [Request.products])
    simp only [Request.serve, addItem, currentQty_eq ht hp] at h
    split at h
    · obtain ⟨rfl, rfl⟩ := Prod.mk.inj h
      cases ha
    · split at h
      · obtain ⟨rfl, rfl⟩ := Prod.mk.inj h
        cases ha
      · obtain ⟨rfl, rfl⟩ := Prod.mk.inj h
        refine ⟨typed_touchCart cfg now (ht.hset fun _ => ⟨_, rfl⟩), fun p => ?_⟩
        rw [items_touchCart, items_hset hp]
        simp only [Request.op, Op.apply]
        split
        · rename_i he
          subst he
          simp [Entry.items, hp]
        · rfl
  | removeItem u p =>
    obtain ⟨rfl, rfl⟩ := Prod.mk.inj h
    have hdel := Entry.items_hdel e [p]
    split
    · refine ⟨typed_touchCart cfg now (ht.hdel _), fun q => ?_⟩
      rw [items_touchCart]
      exact hdel q
    · exact ⟨ht.hdel _, hdel⟩
  | batchRemoveItems u ps =>
    have hdel (p : String) : (e.hdel (presentIds e ps)).items p =
        (Op.clear ps : Op String Int).apply p (e.items p) := by
      rw [Entry.items_hdel]
      simp only [Op.apply]
      by_cases hp : p ∈ ps
      · rw [if_pos hp]
        split
        · rfl
        · exact items_of_absent ht hp ‹_›
      · rw [if_neg hp, if_neg fun h => hp (mem_presentIds.mp h).1]
    -- nothing to delete leaves the entry as it is
    have hnone (hnil : presentIds e ps = []) (p : String) :
        e.items p = (Op.clear ps : Op String Int).apply p (e.items p) := by
      rw [← hdel, hnil, Entry.items_hdel, if_neg List.not_mem_nil]
    simp only [Request.serve, batchRemoveItems] at h
    split at h
    · rename_i hnil
      obtain rfl := List.isEmpty_iff.mp hnil
      obtain ⟨rfl, rfl⟩ := Prod.mk.inj h
      exact ⟨ht, hnone (presentIds_nil e)⟩
    · obtain ⟨rfl, rfl⟩ := Prod.mk.inj h
      split
      · rename_i hnil
        exact ⟨ht, hnone (List.isEmpty_iff.mp hnil)⟩
      · refine ⟨typed_touchCart cfg now (ht.hdel _), fun p => ?_⟩
        rw [items_touchCart]
        exact hdel p

variable (cfg e r) in
/-- With enough in stock every request is answered without an error. -/
theorem exists_serve (ht : e.Typed) (hr : ∀ p ∈ r.products, p ∉ metaFields) :
    ∃ catalog e' a, r.serve cfg catalog 0 e = (e', a) ∧ a.ok = true := by
  cases r with
  | addItem u body =>
    have hp : body.productId ∉ metaFields := hr _ (by simp [Request.products])
    let newQty := (e.quantity body.productId).getD 0 + body.quantity
    let e' := touchCart cfg 0 (e.hset body.productId (.int newQty))
    have hserve : (Request.addItem u body).serve cfg (.ok newQty) 0 e = (e', readCart e') := by
      simp [Request.serve, addItem, currentQty_eq ht hp, newQty, e']
    exact ⟨_, _, _, hserve, readCart_ok (typed_touchCart cfg 0 (ht.hset fun _ => ⟨_, rfl⟩))⟩
  | removeItem u p => exact ⟨.ok 0, _, _, rfl, rfl⟩
  | batchRemoveItems u ps =>
    have hremoved : ∃ e' ids, (Request.batchRemoveItems u ps).serve cfg (.ok 0) 0 e = (e', .removed ids) := by
      simp only [Request.serve, batchRemoveItems]
      split <;> exact ⟨_, _, rfl⟩
    obtain ⟨e', ids, hserve⟩ := hremoved
    exact ⟨_, _, _, hserve, rfl⟩

variable (cfg) in
theorem exists_serves {rs : List Request} (hr : ∀ r ∈ rs, ∀ p ∈ r.products, p ∉ metaFields) :
    ∀ {e : Entry}, e.Typed → ∃ e', Serves cfg e rs e' ∧
      ∀ p, e'.items p = Resets.run p (e.items p) (rs.map Request.op) := by
  induction rs with
  | nil => exact fun {e} _ => ⟨e, .nil e, fun _ => rfl⟩
  | cons r rs ih =>
    intro e ht
    have hr0 := hr r (List.mem_cons_self ..)
    obtain ⟨catalog, e₁, a, hserve, ha⟩ := exists_serve cfg e r ht hr0
    obtain ⟨ht₁, hitems₁⟩ := serve_items ht hr0 hserve ha
    obtain ⟨e', hserves, hitems⟩ := ih (fun r hr' => hr r (List.mem_cons_of_mem _ hr')) ht₁
    refine ⟨e', .cons catalog 0 hserve ha hserves, fun p => ?_⟩
    rw [hitems, hitems₁]
    rfl

/-- What is served has the effects of its operations. -/
theorem Serves.items {rs : List Request} (h : Serves cfg e rs e') (ht : e.Typed)
    (hr : ∀ r ∈ rs, ∀ p ∈ r.products, p ∉ metaFields) (p : String) :
    e'.items p = Resets.run p (e.items p) (rs.map Request.op) := by
  induction h with
  | nil => rfl
  | cons catalog now hserve ha _ ih =>
    obtain ⟨ht₁, hitems₁⟩ := serve_items ht (hr _ (List.mem_cons_self ..)) hserve ha
    rw [ih ht₁ fun r hr' => hr r (List.mem_cons_of_mem _ hr'), hitems₁]
    rfl

end

namespace System

/-! ## The run that goes wrong -/

/-- `n + 1` pieces. -/
def addPens (n : Nat) : Request := .addItem "ada" ⟨"P001", (n + 1 : Nat), by omega⟩

/-- Request `i` goes on `n` times; the product is in stock. -/
def goOn (i n : Nat) : List Lbl := List.replicate n (.next i (.ok 100))

/-- Both have read the field when the first one writes it. -/
def doubleClick : List Lbl :=
  [.call (addPens 1), .call (addPens 2)] ++ goOn 0 2 ++ goOn 1 2 ++ goOn 0 6 ++ goOn 1 6

theorem init_noCarts (cfg : Settings) : (lts cfg).init noCarts := ⟨rfl, rfl, noCarts_typed⟩

/-- **Counterexample.** 2 and 3 pieces make 3. -/
theorem cart_update_lost :
    ¬ ∀ (cfg : Settings) (s₀ s : System) (ls : List Lbl), (lts cfg).init s₀ →
        (scopeLts cfg).Run s₀ ls s → s.Completed → NothingLost cfg s₀ s := by
  obtain ⟨s, hr, hs⟩ : ∃ s, (scopeLts {}).Run noCarts doubleClick s ∧
      (decide (s.procs = [⟨addPens 1, .done (.cart [⟨"P001", 2⟩]), true⟩,
          ⟨addPens 2, .done (.cart [⟨"P001", 3⟩]), true⟩]) &&
        decide ((s.redis (cartKey "ada")).quantity "P001" = some 3)) = true :=
    LTS.exists_run_of_execG doubleClick (by decide +kernel)
  simp only [Bool.and_eq_true, decide_eq_true_eq] at hs
  obtain ⟨hprocs, hquantity⟩ := hs
  have hcompleted : s.Completed := by
    intro x hx
    rw [hprocs] at hx
    simp only [List.mem_cons, List.not_mem_nil, or_false] at hx
    rcases hx with rfl | rfl <;> exact ⟨_, rfl, rfl⟩
  have hrequests : s.requests "ada" = [addPens 1, addPens 2] := by
    rw [requests, hprocs]
    rfl
  intro h
  obtain ⟨order, e, hperm, hserves, hsame⟩ := h {} noCarts s doubleClick (init_noCarts {}) hr hcompleted "ada"
  rw [hrequests] at hperm
  have hproducts : ∀ r ∈ order, ∀ p ∈ r.products, p ∉ metaFields := by
    intro r hr'
    have hmem := hperm.subset hr'
    simp only [List.mem_cons, List.not_mem_nil, or_false] at hmem
    rcases hmem with rfl | rfl <;> simp [addPens, Request.products, metaFields, updatedAtField,
      abandonmentCountedField]
  have hvalue : e.items "P001" = some 5 := by
    rw [hserves.items (noCarts_typed _) hproducts]
    obtain ⟨x, y, rfl⟩ : ∃ x y, order = [x, y] := List.length_eq_two.mp hperm.length_eq
    have hx := hperm.subset (List.mem_cons_self ..)
    have hy := hperm.subset (List.mem_cons_of_mem x (List.mem_singleton_self y))
    simp only [List.mem_cons, List.not_mem_nil, or_false] at hx hy
    rcases hx with rfl | rfl <;> rcases hy with rfl | rfl
    · exact absurd hperm (by decide)
    · rfl
    · rfl
    · exact absurd hperm (by decide)
  have hmeta : "P001" ∉ metaFields := by decide
  have hthree := hsame "P001" hmeta
  rw [hquantity] at hthree
  simp only [Entry.items, if_neg hmeta, ← hthree] at hvalue
  cases hvalue

/-! ### The result -/

theorem requests_of_completed {s : System} (h : s.Completed) (u : String) :
    s.procs.filterMap (Proc.effect u) = s.requests u := by
  unfold requests
  rw [List.filter_map, ← List.filterMap_eq_map, List.filterMap_filter]
  refine List.filterMap_congr fun x hx => ?_
  obtain ⟨a, ha, hok⟩ := h x hx
  have heffected : x.pc.effected = true := by
    rw [ha]
    exact hok
  simp [Proc.effect, heffected]

/-- **No lost update.** In every run whose `add_item`s write on what they have read, the carts at the
end are those of the requests one after another. -/
theorem cart_updates_kept (cfg : Settings) {s₀ s : System} {ls : List Lbl} (h0 : (lts cfg).init s₀)
    (hr : (keptLts cfg).Run s₀ ls s) (hc : s.Completed) : NothingLost cfg s₀ s := by
  intro u
  obtain ⟨hprocs, -, htyped⟩ := h0
  have hI₀ : s₀.Inv u (s₀.redis (cartKey u)).items := by
    refine ⟨?_, htyped _, by simp [hprocs], by simp [hprocs]⟩
    rw [hprocs]
    exact .nil _ (by simp [Spared, hprocs])
  have hI := inv_run hr hI₀
  have hexp := hI.explained
  rw [requests_of_completed hc] at hexp
  obtain ⟨ops, hperm, hvalue⟩ := hexp.order
  obtain ⟨order, horder, rfl⟩ := Resets.exists_perm_map hperm
  have hproducts : ∀ r ∈ order, ∀ p ∈ r.products, p ∉ metaFields := by
    intro r hr'
    obtain ⟨hmem, -⟩ := List.mem_filter.mp (horder.subset hr')
    obtain ⟨x, hx, rfl⟩ := List.mem_map.mp hmem
    exact hI.products x hx
  obtain ⟨e, hserves, hitems⟩ := exists_serves cfg hproducts (htyped (cartKey u))
  refine ⟨order, e, horder, hserves, fun p hp => ?_⟩
  have h := (hvalue p).trans (hitems p).symm
  simpa [Entry.items, hp] using h

/-- The requests overlap, but for each reading and writing of the field. -/
def takeTurns : List Lbl :=
  [.call (addPens 1), .call (addPens 2)] ++ goOn 0 3 ++ goOn 1 3 ++ goOn 0 3 ++ goOn 1 5 ++ goOn 0 2

theorem cart_updates_kept_takeTurns :
    ∃ s, (keptLts {}).Run noCarts takeTurns s ∧ s.Completed ∧ NothingLost {} noCarts s := by
  obtain ⟨s, hr, hs⟩ : ∃ s, (keptLts {}).Run noCarts takeTurns s ∧
      decide (s.procs = [⟨addPens 1, .done (.cart [⟨"P001", 5⟩]), true⟩,
        ⟨addPens 2, .done (.cart [⟨"P001", 5⟩]), true⟩]) = true :=
    LTS.exists_run_of_execG takeTurns (by decide +kernel)
  have hcompleted : s.Completed := by
    intro x hx
    rw [of_decide_eq_true hs] at hx
    simp only [List.mem_cons, List.not_mem_nil, or_false] at hx
    rcases hx with rfl | rfl <;> exact ⟨_, rfl, rfl⟩
  exact ⟨s, hr, hcompleted, cart_updates_kept {} (init_noCarts {}) hr hcompleted⟩

end System
end Gestalt.Cart
