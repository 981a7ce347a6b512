import Gestalt.L2Stores.CatalogSerial

/-!
# A cache fill that lands after the delete

Status: open.

Behaviour: `get_product` reads the row and writes the cache in two steps
(services/catalog-service/app/routers/catalog.py:70-82); a stock write commits
and then deletes the key (:116, :135). A fill that read the row before the
commit and sets the key after the delete leaves the old row in Redis until its
time to live ends.

Documented: services/catalog-service/app/cache.py:3-5, "the cache key is deleted,
never updated in place -- that avoids the class of bugs where cache and DB drift
apart under concurrent writes"; IMPLEMENTATION_DECISIONS.md, 3.5.

Counterexample: `lateFill`. A read misses and loads the row, a reservation
commits and deletes the key, the read then sets it. No request is in flight, the
cache says one unit is left and the table says none.

Fix: set the key only if the row is still the one read (a version in the value,
or SET under the row's lock), or delete it a second time after a delay.
-/
namespace Gestalt.Catalog

/-- The product whose key the request deletes next. -/
def Proc.deletes : Proc → Option String
  | .reserve body (.invalidate _) => some body.productId
  | .release body (.invalidate _) => some body.productId
  | _ => none

namespace Server

/-- Redis has the current row of a product, or nothing. -/
def Coherent (s : Server) : Prop :=
  ∀ p, s.store.cache.product p = none ∨ s.store.cache.product p = (find s.store.db p).map toOut

/-! ## The run that goes wrong -/

def lateFill : List Lbl :=
  [.arrive (.get "P001"), .arrive (.reserve (oneUnit "A")), .next 0, .next 0, .next 1, .next 1,
    .next 1, .next 1, .next 0]

/-- No request is in flight, and the entry of `P001` is not the row. -/
def drifted (s : Server) : Bool :=
  s.procs.all (fun p => p.answer.isSome) &&
    !(s.store.cache.product "P001" = none ||
      s.store.cache.product "P001" = (find s.store.db "P001").map toOut)

/-- **Counterexample.** Redis and the table have drifted apart for good. -/
theorem cache_drifts : ¬ ∀ s, (lts byId lastUnit).Reachable s → s.Quiet → s.Coherent := by
  have hrun : ∃ s, (lts byId lastUnit).Reachable s ∧ drifted s = true :=
    LTS.reachable_of_exec lateFill ⟨by simp [Table.Unique, lastUnit], rfl⟩ (by decide +kernel)
  obtain ⟨s, hr, hs⟩ := hrun
  intro h
  obtain ⟨hq, hd⟩ := Bool.and_eq_true_iff.mp hs
  have hc := h s hr (fun p hp => List.all_eq_true.mp hq p hp) "P001"
  simp only [Bool.not_eq_true', Bool.or_eq_false_iff, decide_eq_false_iff_not] at hd
  exact hc.elim hd.1 hd.2

/-! ## When the cache does not drift -/

/-- A fill sets the key only while the row it has read is the committed one, or
a request that has committed on the product has its deletion to come. -/
def fillsInTime (s : Server) : Lbl → Bool
  | .next i =>
    match s.procs[i]? with
    | some (.get p (.set out)) =>
      (find s.store.db p).map toOut = some out || s.procs.any fun x => x.deletes = some p
    | _ => true
  | _ => true

def inTimeLts (le : String → String → Bool) (t : Products) : LTS Server Lbl :=
  (lts le t).restrict fun s l => fillsInTime s l = true

/-- A statement's effect on the table and the product keys. -/
inductive Touches (s s' : Store) (p p' : Proc) : Prop
  | quiet (hdb : s'.db = s.db) (hc : s'.cache.product = s.cache.product) (hp : p.deletes = none)
  | commit (x : String) (hdb : ∀ q, q ≠ x → find s'.db q = find s.db q)
      (hc : s'.cache.product = s.cache.product) (hp : p.deletes = none) (hp' : p'.deletes = some x)
  | delete (x : String) (hdb : s'.db = s.db)
      (hc : s'.cache.product = Function.update s.cache.product x none) (hp : p.deletes = some x)
  | fill (x : String) (out : ProductOut) (hdb : s'.db = s.db)
      (hc : s'.cache.product = Function.update s.cache.product x (some out))
      (hp : p = .get x (.set out))

theorem touches_reserve {i : Nat} {body : StockRequest} {s s' : Store} {k k' : Locks}
    {pc pc' : ReservePc} (hu : Table.Unique Product.id s.db)
    (hok : (Proc.reserve body pc).Ok s.db k i) (h : pc.step i body s k = some (s', k', pc')) :
    Touches s s' (.reserve body pc) (.reserve body pc') := by
  match pc, hok with
  | .select, _ =>
    simp only [ReservePc.step] at h
    split at h
    · simp only [Option.some.injEq, Prod.mk.injEq] at h
      obtain ⟨rfl, -, -⟩ := h
      exact .quiet rfl rfl rfl
    · split at h
      · simp only [Option.some.injEq, Prod.mk.injEq] at h
        obtain ⟨rfl, -, -⟩ := h
        exact .quiet rfl rfl rfl
      · cases h
  | .check none, _ =>
    simp only [ReservePc.step, Option.some.injEq, Prod.mk.injEq] at h
    obtain ⟨rfl, -, -⟩ := h
    exact .quiet rfl rfl rfl
  | .check (some row), _ =>
    simp only [ReservePc.step] at h
    split at h
    · simp only [Option.some.injEq, Prod.mk.injEq] at h
      obtain ⟨rfl, -, -⟩ := h
      exact .quiet rfl rfl rfl
    · simp only [Option.map_eq_some_iff, Prod.mk.injEq] at h
      obtain ⟨u, -, rfl, -, -⟩ := h
      exact .quiet rfl rfl rfl
  | .commit write remaining, ⟨_, row, hf, _, hw, _⟩ =>
    simp only [ReservePc.step, Option.some.injEq, Prod.mk.injEq] at h
    obtain ⟨rfl, -, rfl⟩ := h
    subst hw
    refine .commit body.productId ?_ rfl rfl rfl
    intro q hq
    rw [install_addStock hu hf, find_addStock, if_neg hq]
  | .invalidate remaining, _ =>
    simp only [ReservePc.step, Option.some.injEq, Prod.mk.injEq] at h
    obtain ⟨rfl, -, -⟩ := h
    exact .delete body.productId rfl rfl rfl
  | .done a, _ => cases h

theorem touches_release {i : Nat} {body : StockRequest} {s s' : Store} {k k' : Locks}
    {pc pc' : ReleasePc} (hu : Table.Unique Product.id s.db)
    (hok : (Proc.release body pc).Ok s.db k i) (h : pc.step i body s k = some (s', k', pc')) :
    Touches s s' (.release body pc) (.release body pc') := by
  match pc, hok with
  | .update, _ =>
    simp only [ReleasePc.step, Option.map_eq_some_iff, Prod.mk.injEq] at h
    obtain ⟨u, -, rfl, -, -⟩ := h
    exact .quiet rfl rfl rfl
  | .select none, _ =>
    simp only [ReleasePc.step, Option.some.injEq, Prod.mk.injEq] at h
    obtain ⟨rfl, -, -⟩ := h
    exact .quiet rfl rfl rfl
  | .select (some write), _ =>
    simp only [ReleasePc.step, Option.some.injEq, Prod.mk.injEq] at h
    obtain ⟨rfl, -, -⟩ := h
    exact .quiet rfl rfl rfl
  | .commit write row, ⟨_, _, row', hf, hw⟩ =>
    simp only [ReleasePc.step, Option.some.injEq, Prod.mk.injEq] at h
    obtain ⟨rfl, -, rfl⟩ := h
    subst hw
    refine .commit body.productId ?_ rfl rfl rfl
    intro q hq
    rw [install_addStock hu hf, find_addStock, if_neg hq]
  | .invalidate row, _ =>
    simp only [ReleasePc.step, Option.some.injEq, Prod.mk.injEq] at h
    obtain ⟨rfl, -, -⟩ := h
    exact .delete body.productId rfl rfl rfl
  | .done a, _ => cases h

theorem touches_get {x : String} {s s' : Store} {pc pc' : GetPc}
    (h : pc.step x s = some (s', pc')) : Touches s s' (.get x pc) (.get x pc') := by
  match pc, h with
  | .cache, h =>
    simp only [GetPc.step] at h
    split at h <;> simp only [Option.some.injEq, Prod.mk.injEq] at h <;> obtain ⟨rfl, -⟩ := h <;>
      exact .quiet rfl rfl rfl
  | .db, h =>
    simp only [GetPc.step] at h
    split at h <;> simp only [Option.some.injEq, Prod.mk.injEq] at h <;> obtain ⟨rfl, -⟩ := h <;>
      exact .quiet rfl rfl rfl
  | .set out, h =>
    simp only [GetPc.step, Option.some.injEq, Prod.mk.injEq] at h
    obtain ⟨rfl, -⟩ := h
    exact .fill x out rfl rfl rfl

theorem touches_list {le : String → String → Bool} {q : PageQuery} {s s' : Store}
    {pc pc' : ListPc} (h : pc.step le q s = some (s', pc')) :
    Touches s s' (.list q pc) (.list q pc') := by
  refine .quiet (Proc.list_db h) ?_ rfl
  match pc, h with
  | .cache, h =>
    simp only [ListPc.step] at h
    split at h <;> simp only [Option.some.injEq, Prod.mk.injEq] at h <;> rw [h.1]
  | .total, h =>
    simp only [ListPc.step, Option.some.injEq, Prod.mk.injEq] at h
    rw [h.1]
  | .page snapshot, h =>
    simp only [ListPc.step, Option.some.injEq, Prod.mk.injEq] at h
    rw [h.1]
  | .set result, h =>
    simp only [ListPc.step, Option.some.injEq, Prod.mk.injEq] at h
    rw [← h.1]; rfl

theorem touches_of_step {le : String → String → Bool} {i : Nat} {s s' : Store} {k k' : Locks}
    {p p' : Proc} (hu : Table.Unique Product.id s.db) (hok : p.Ok s.db k i)
    (h : p.step le i s k = some (s', k', p')) : Touches s s' p p' := by
  cases p with
  | reserve body pc =>
    simp only [Proc.step, Option.map_eq_some_iff, Prod.mk.injEq] at h
    obtain ⟨r, hr, rfl, rfl, rfl⟩ := h
    exact touches_reserve hu hok hr
  | release body pc =>
    simp only [Proc.step, Option.map_eq_some_iff, Prod.mk.injEq] at h
    obtain ⟨r, hr, rfl, rfl, rfl⟩ := h
    exact touches_release hu hok hr
  | get x pc =>
    simp only [Proc.step, Option.map_eq_some_iff, Prod.mk.injEq] at h
    obtain ⟨r, hr, rfl, rfl, rfl⟩ := h
    exact touches_get hr
  | list q pc =>
    simp only [Proc.step, Option.map_eq_some_iff, Prod.mk.injEq] at h
    obtain ⟨r, hr, rfl, rfl, rfl⟩ := h
    exact touches_list hr

/-- An entry is the current row, or its deletion is to come. -/
def Covered (s : Server) : Prop :=
  ∀ q v, s.store.cache.product q = some v → (find s.store.db q).map toOut = some v ∨
    ∃ (j : Nat) (x : Proc), s.procs[j]? = some x ∧ x.deletes = some q

/-- A deletion to come is still to come after another request's statement. -/
theorem deletes_kept {l : List Proc} {i : Nat} {p p' : Proc} {q : String} (hp : l[i]? = some p)
    (hne : p.deletes ≠ some q) (h : ∃ (j : Nat) (x : Proc), l[j]? = some x ∧ x.deletes = some q) :
    ∃ (j : Nat) (x : Proc), (l.set i p')[j]? = some x ∧ x.deletes = some q := by
  obtain ⟨j, x, hj, hx⟩ := h
  obtain ⟨y, hy, hyq⟩ := Procs.holder_kept (a := p') hp hne ⟨x, List.mem_of_getElem? hj, hx⟩
  obtain ⟨j', hj'⟩ := List.mem_iff_getElem?.mp hy
  exact ⟨j', y, hj', hyq⟩

theorem covered_step {le : String → String → Bool} {s s' : Server} {l : Lbl} (hI : Inv s)
    (hC : Covered s) (h : step le s l = some s') (hG : fillsInTime s l = true) : Covered s' := by
  cases l with
  | arrive r =>
    simp only [step, Option.some.injEq] at h
    subst h
    intro q v hv
    rcases hC q v hv with hf | ⟨j, x, hj, hx⟩
    · exact .inl hf
    · exact .inr ⟨j, x, Procs.spawn_old hj, hx⟩
  | expire key =>
    simp only [step, Option.some.injEq] at h
    subst h
    intro q v hv
    refine hC q v ?_
    cases key with
    | product p =>
      simp only [Cache.expire, Cache.invalidateProduct, Function.update_apply] at hv
      split at hv
      · cases hv
      · exact hv
    | page lim off => exact hv
  | next i =>
    obtain ⟨p, p', hp, hst, -, hprocs⟩ := next_cases hI h
    intro q v hv
    rw [hprocs]
    cases touches_of_step hI.unique (hI.ok i p hp) hst with
    | quiet hdb hc hnone =>
      rw [hc] at hv
      rw [hdb]
      exact (hC q v hv).imp id (deletes_kept hp (by simp [hnone]))
    | commit x hdb hc hnone hx =>
      by_cases hq : q = x
      · -- the row has changed, and the request is about to delete the key
        subst hq
        exact .inr ⟨i, p', Procs.set_self hp, hx⟩
      · rw [hc] at hv
        rw [hdb q hq]
        exact (hC q v hv).imp id (deletes_kept hp (by simp [hnone]))
    | delete x hdb hc hx =>
      rw [hc, Function.update_apply] at hv
      split at hv
      · cases hv
      · rename_i hq
        rw [hdb]
        exact (hC q v hv).imp id (deletes_kept hp (by simpa [hx] using Ne.symm hq))
    | fill x out hdb hc he =>
      subst he
      rw [hc, Function.update_apply] at hv
      rw [hdb]
      split at hv
      · rename_i hq
        subst hq
        simp only [Option.some.injEq] at hv
        subst hv
        simp only [fillsInTime, hp, Bool.or_eq_true, decide_eq_true_eq, List.any_eq_true] at hG
        refine hG.imp id ?_
        intro hd
        obtain ⟨y, hy, hyd⟩ := hd
        obtain ⟨j, hj⟩ := List.mem_iff_getElem?.mp hy
        exact deletes_kept hp (by simp [Proc.deletes]) ⟨j, y, hj, hyd⟩
      · exact (hC q v hv).imp id (deletes_kept hp (by simp [Proc.deletes]))

/-- **No drift** in every run whose fills are in time. -/
theorem cache_coherent (le : String → String → Bool) (t : Products) {s : Server}
    (h : (inTimeLts le t).Reachable s) (hq : s.Quiet) : s.Coherent := by
  have hC : Covered s := by
    refine LTS.reachable_induct ?_ ?_ h
    · intro s hs q v hv
      obtain ⟨-, rfl⟩ := hs
      cases hv
    · intro s l s' hr hC hs
      exact covered_step (inv_reachable hr.unrestrict) hC hs.1 hs.2
  intro q
  cases hv : s.store.cache.product q with
  | none => exact .inl rfl
  | some v =>
    rcases hC q v hv with hf | ⟨j, x, hj, hx⟩
    · exact .inr hf.symm
    · have ha := hq x (List.mem_of_getElem? hj)
      match x, hx, ha with
      | .reserve _ (.invalidate _), _, ha => cases ha
      | .release _ (.invalidate _), _, ha => cases ha

/-- The fill of `lateFill`, but before the deletion; then a second read. -/
def timelyFill : List Lbl :=
  lateFill.take 7 ++ [.next 0, .next 1, .arrive (.get "P001"), .next 2, .next 2, .next 2]

theorem cache_coherent_overlap : ∃ s, (inTimeLts byId lastUnit).Reachable s ∧
    s.store.cache.product "P001" ≠ none ∧ s.Coherent := by
  have hrun : ∃ s, (inTimeLts byId lastUnit).Reachable s ∧
      (s.procs.all (fun p => p.answer.isSome) && decide (s.store.cache.product "P001" ≠ none)) = true :=
    LTS.reachable_of_execG timelyFill ⟨by simp [Table.Unique, lastUnit], rfl⟩ (by decide +kernel)
  obtain ⟨s, hr, hs⟩ := hrun
  obtain ⟨hq, hc⟩ := Bool.and_eq_true_iff.mp hs
  exact ⟨s, hr, of_decide_eq_true hc,
    cache_coherent byId lastUnit hr fun p hp => List.all_eq_true.mp hq p hp⟩

end Server
end Gestalt.Catalog
