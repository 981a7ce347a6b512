import Gestalt.Core.Tally
import Gestalt.L2Stores.CatalogServer

/-!
# catalog-service: stock requests are serialisable

The server of `CatalogServer` implements the two atomic operations of `Catalog`
(`implements`): COMMIT and ROLLBACK are where a request takes effect.
-/
namespace Gestalt.Catalog

/-! ## Rows and locks -/

theorem unique_addStock {t : Products} (h : Table.Unique Product.id t) (p : String) (d : Int) :
    Table.Unique Product.id (addStock t p d) := by
  have he : (addStock t p d).map Product.id = t.map Product.id := Table.map_modify fun _ => rfl
  unfold Table.Unique
  rw [he]; exact h

/-- The new version of a row, committed, is the UPDATE. -/
theorem install_addStock {t : Products} (hu : Table.Unique Product.id t) {p : String} {row : Product}
    (h : find t p = some row) (d : Int) :
    install t (some { row with stock := row.stock + d }) = addStock t p d := by
  obtain ⟨hm, hid⟩ := Table.get_some h
  simp only [install, addStock, hid]
  apply Table.modify_congr
  intro r hr he
  rw [hu.eq hr hm (he.trans hid.symm), hid]

theorem Locks.drop_other {k : Locks} {i j : Nat} {q : String} (hj : j ≠ i) :
    k.drop i q = some j ↔ k q = some j := by
  unfold Locks.drop
  split
  · rename_i h
    rw [h, Option.some.injEq]
    exact ⟨fun e => (nomatch e), fun e => absurd e.symm hj⟩
  · rfl

theorem Locks.take_self (k : Locks) (p : String) (i : Nat) : k.take p i p = some i := by
  simp [Locks.take]

theorem Locks.take_other {k : Locks} {i j : Nat} {p q : String} (hf : k.free p i = true)
    (hj : j ≠ i) (h : k q = some j) : k.take p i q = some j := by
  unfold Locks.take
  by_cases hq : q = p
  · subst hq
    simp only [Locks.free, h, reduceCtorEq, Option.some.injEq, false_or, decide_eq_true_eq] at hf
    exact absurd hf hj
  · rw [Function.update_of_ne hq]; exact h

theorem updateRow_cases {t : Products} {k : Locks} {i : Nat} {p : String} {d : Int}
    {u : Locks × Option Product} (h : updateRow t k i p d = some u) :
    (find t p = none ∧ u = (k, none)) ∨
    ∃ row, find t p = some row ∧ k.free p i = true ∧
      u = (k.take p i, some { row with stock := row.stock + d }) := by
  unfold updateRow at h
  split at h
  · rename_i hf
    simp only [Option.some.injEq] at h
    exact .inl ⟨hf, h.symm⟩
  · rename_i row hf
    split at h
    · simp only [Option.some.injEq] at h
      exact .inr ⟨row, hf, ‹_›, h.symm⟩
    · cases h

/-! ## One request -/

/-- The atomic stock operations. -/
inductive StockOp
  | reserve (body : StockRequest)
  | release (body : StockRequest)
  deriving Repr

def StockOp.exec (t : Products) : StockOp → Except AppError ReserveResponse × Products
  | .reserve body => reserveStock t body
  | .release body => releaseStock t body

namespace Proc

/-- The stock operation of a request, once it has taken effect, and the answer
it gives or will give. -/
def outcome : Proc → Option (StockOp × Except AppError ReserveResponse)
  | .reserve body (.invalidate remaining) => some (.reserve body, .ok (reserved body remaining))
  | .reserve body (.done a) => some (.reserve body, a)
  | .release body (.invalidate row) => some (.release body, released body row)
  | .release body (.done a) => some (.release body, a)
  | _ => none

/-- What request `i` has read in its transaction is the committed row, whose
lock it holds. -/
def Ok (t : Products) (k : Locks) (i : Nat) : Proc → Prop
  | .reserve body (.check none) => find t body.productId = none
  | .reserve body (.check (some row)) =>
    k body.productId = some i ∧ find t body.productId = some row
  | .reserve body (.commit write remaining) =>
    k body.productId = some i ∧ ∃ row, find t body.productId = some row ∧
      ¬ row.stock < body.quantity ∧
      write = some { row with stock := row.stock + -body.quantity } ∧
      remaining = row.stock - body.quantity
  | .release body (.select none) => find t body.productId = none
  | .release body (.select (some write)) =>
    k body.productId = some i ∧ ∃ row, find t body.productId = some row ∧
      write = { row with stock := row.stock + body.quantity }
  | .release body (.commit write row) =>
    k body.productId = some i ∧ row = write ∧ ∃ row, find t body.productId = some row ∧
      write = some { row with stock := row.stock + body.quantity }
  | _ => True

/-- The rows `j` has locked, and its locks, are as they were. -/
structure Kept (t t' : Products) (k k' : Locks) (j : Nat) : Prop where
  lock : ∀ q, k q = some j → k' q = some j
  row : ∀ q, k q = some j → find t' q = find t q
  absent : ∀ q, find t q = none → find t' q = none

theorem Ok.keep {t t' : Products} {k k' : Locks} {j : Nat} {p : Proc} (h : p.Ok t k j)
    (hk : Kept t t' k k' j) : p.Ok t' k' j := by
  match p, h with
  | .reserve _ .select, _ => trivial
  | .reserve _ (.check none), h => exact hk.absent _ h
  | .reserve _ (.check (some _)), h => exact ⟨hk.lock _ h.1, (hk.row _ h.1).trans h.2⟩
  | .reserve _ (.commit _ _), ⟨hl, row, hf, h⟩ =>
    exact ⟨hk.lock _ hl, row, (hk.row _ hl).trans hf, h⟩
  | .reserve _ (.invalidate _), _ => trivial
  | .reserve _ (.done _), _ => trivial
  | .release _ .update, _ => trivial
  | .release _ (.select none), h => exact hk.absent _ h
  | .release _ (.select (some _)), ⟨hl, row, hf, h⟩ =>
    exact ⟨hk.lock _ hl, row, (hk.row _ hl).trans hf, h⟩
  | .release _ (.commit _ _), ⟨hl, hr, row, hf, h⟩ =>
    exact ⟨hk.lock _ hl, hr, row, (hk.row _ hl).trans hf, h⟩
  | .release _ (.invalidate _), _ => trivial
  | .release _ (.done _), _ => trivial
  | .get _ _, _ => trivial
  | .list _ _, _ => trivial

theorem Kept.refl (t : Products) (k : Locks) (j : Nat) : Kept t t k k j :=
  ⟨fun _ h => h, fun _ _ => rfl, fun _ h => h⟩

theorem Kept.drop (t : Products) (k : Locks) {i j : Nat} (hj : j ≠ i) : Kept t t k (k.drop i) j :=
  ⟨fun _ h => (Locks.drop_other hj).mpr h, fun _ _ => rfl, fun _ h => h⟩

theorem Kept.take (t : Products) {k : Locks} {p : String} {i j : Nat} (hf : k.free p i = true)
    (hj : j ≠ i) : Kept t t k (k.take p i) j :=
  ⟨fun _ h => Locks.take_other hf hj h, fun _ _ => rfl, fun _ h => h⟩

/-- A commit writes only a row that its transaction has locked. -/
theorem Kept.commit {t : Products} {k : Locks} {p : String} {i j : Nat} (hp : k p = some i)
    (hj : j ≠ i) (d : Int) : Kept t (addStock t p d) k (k.drop i) j where
  lock _ h := (Locks.drop_other hj).mpr h
  row q h := by
    have hq : q ≠ p := by
      intro e
      rw [e, hp, Option.some.injEq] at h
      exact hj h.symm
    rw [find_addStock, if_neg hq]
  absent q h := by rw [find_addStock, h]; split <;> rfl

/-- What one statement of request `i` does. -/
structure Moves (i : Nat) (s s' : Store) (k k' : Locks) (p p' : Proc) : Prop where
  ok : p'.Ok s'.db k' i
  kept : ∀ j, j ≠ i → Kept s.db s'.db k k' j
  unique : Table.Unique Product.id s'.db
  effect : (s'.db = s.db ∧ p'.outcome = p.outcome) ∨
    (p.outcome = none ∧ ∃ o a, p'.outcome = some (o, a) ∧ o.exec s.db = (a, s'.db))

theorem Moves.quiet {i : Nat} {s : Store} {k k' : Locks} {p p' : Proc}
    (hu : Table.Unique Product.id s.db) (hok : p'.Ok s.db k' i)
    (hk : ∀ j, j ≠ i → Kept s.db s.db k k' j) (ho : p'.outcome = p.outcome) :
    Moves i s s k k' p p' :=
  ⟨hok, hk, hu, .inl ⟨rfl, ho⟩⟩

/-- ROLLBACK, and the answer to a request that changed nothing. -/
theorem Moves.rollback {i : Nat} {s : Store} {k : Locks} {p p' : Proc} {o : StockOp} {e : AppError}
    (hu : Table.Unique Product.id s.db) (hok : p'.Ok s.db (k.drop i) i) (hp : p.outcome = none)
    (hp' : p'.outcome = some (o, .error e)) (ho : o.exec s.db = (.error e, s.db)) :
    Moves i s s k (k.drop i) p p' :=
  ⟨hok, fun _ hj => .drop _ _ hj, hu, .inr ⟨hp, o, _, hp', ho⟩⟩

theorem reserve_moves {i : Nat} {body : StockRequest} {s s' : Store} {k k' : Locks}
    {pc pc' : ReservePc} (hu : Table.Unique Product.id s.db) (hok : (reserve body pc).Ok s.db k i)
    (h : pc.step i body s k = some (s', k', pc')) :
    Moves i s s' k k' (.reserve body pc) (.reserve body pc') := by
  match pc, hok with
  | .select, _ =>
    simp only [ReservePc.step] at h
    split at h
    · rename_i hf
      simp only [Option.some.injEq, Prod.mk.injEq] at h
      obtain ⟨rfl, rfl, rfl⟩ := h
      exact .quiet hu hf (fun _ _ => .refl _ _ _) rfl
    · rename_i row hf
      split at h
      · rename_i hfree
        simp only [Option.some.injEq, Prod.mk.injEq] at h
        obtain ⟨rfl, rfl, rfl⟩ := h
        exact .quiet hu ⟨Locks.take_self _ _ _, hf⟩ (fun _ hj => .take _ hfree hj) rfl
      · cases h
  | .check none, hf =>
    simp only [ReservePc.step, Option.some.injEq, Prod.mk.injEq] at h
    obtain ⟨rfl, rfl, rfl⟩ := h
    refine .rollback hu trivial rfl rfl ?_
    simp only [Ok] at hf
    simp only [StockOp.exec, reserveStock, hf]
  | .check (some row), ⟨hl, hf⟩ =>
    simp only [ReservePc.step] at h
    split at h
    · rename_i hlt
      simp only [Option.some.injEq, Prod.mk.injEq] at h
      obtain ⟨rfl, rfl, rfl⟩ := h
      refine .rollback hu trivial rfl rfl ?_
      simp only [StockOp.exec, reserveStock, hf, if_pos hlt]
    · rename_i hge
      simp only [Option.map_eq_some_iff, Prod.mk.injEq] at h
      obtain ⟨u, hupd, rfl, rfl, rfl⟩ := h
      rcases updateRow_cases hupd with ⟨hn, -⟩ | ⟨row', hf', hfree, rfl⟩
      · rw [hf] at hn; cases hn
      · rw [hf, Option.some.injEq] at hf'
        subst hf'
        exact .quiet hu ⟨Locks.take_self _ _ _, row, hf, hge, rfl, rfl⟩
          (fun _ hj => .take _ hfree hj) rfl
  | .commit write remaining, ⟨hl, row, hf, hge, hw, hr⟩ =>
    simp only [ReservePc.step, Option.some.injEq, Prod.mk.injEq] at h
    obtain ⟨rfl, rfl, rfl⟩ := h
    subst hw hr
    have hinst := install_addStock hu hf (-body.quantity)
    refine ⟨trivial, ?_, ?_, .inr ⟨rfl, .reserve body, _, rfl, ?_⟩⟩
    · intro j hj
      rw [hinst]; exact .commit hl hj _
    · rw [hinst]; exact unique_addStock hu _ _
    · simp only [StockOp.exec, reserveStock, hf, if_neg hge, hinst, reserved]
  | .invalidate remaining, _ =>
    simp only [ReservePc.step, Option.some.injEq, Prod.mk.injEq] at h
    obtain ⟨rfl, rfl, rfl⟩ := h
    exact ⟨trivial, fun _ _ => .refl _ _ _, hu, .inl ⟨rfl, rfl⟩⟩
  | .done a, _ => cases h

theorem release_moves {i : Nat} {body : StockRequest} {s s' : Store} {k k' : Locks}
    {pc pc' : ReleasePc} (hu : Table.Unique Product.id s.db) (hok : (release body pc).Ok s.db k i)
    (h : pc.step i body s k = some (s', k', pc')) :
    Moves i s s' k k' (.release body pc) (.release body pc') := by
  match pc, hok with
  | .update, _ =>
    simp only [ReleasePc.step, Option.map_eq_some_iff, Prod.mk.injEq] at h
    obtain ⟨u, hupd, rfl, rfl, rfl⟩ := h
    rcases updateRow_cases hupd with ⟨hn, rfl⟩ | ⟨row, hf, hfree, rfl⟩
    · exact .quiet hu hn (fun _ _ => .refl _ _ _) rfl
    · exact .quiet hu ⟨Locks.take_self _ _ _, row, hf, rfl⟩ (fun _ hj => .take _ hfree hj) rfl
  | .select none, hf =>
    simp only [ReleasePc.step, Option.some.injEq, Prod.mk.injEq] at h
    obtain ⟨rfl, rfl, rfl⟩ := h
    refine .rollback hu trivial rfl rfl ?_
    simp only [Ok] at hf
    simp only [StockOp.exec, releaseStock, find_addStock, hf, if_pos, Option.map_none]
  | .select (some write), ⟨hl, row, hf, hw⟩ =>
    simp only [ReleasePc.step, Option.some.injEq, Prod.mk.injEq] at h
    obtain ⟨rfl, rfl, rfl⟩ := h
    exact .quiet hu ⟨hl, rfl, row, hf, congrArg some hw⟩ (fun _ _ => .refl _ _ _) rfl
  | .commit write row, ⟨hl, hr, row', hf, hw⟩ =>
    simp only [ReleasePc.step, Option.some.injEq, Prod.mk.injEq] at h
    obtain ⟨rfl, rfl, rfl⟩ := h
    subst hr hw
    have hinst := install_addStock hu hf body.quantity
    refine ⟨trivial, ?_, ?_, .inr ⟨rfl, .release body, _, rfl, ?_⟩⟩
    · intro j hj
      rw [hinst]; exact .commit hl hj _
    · rw [hinst]; exact unique_addStock hu _ _
    · simp only [StockOp.exec, releaseStock, find_addStock, if_pos, hf, Option.map_some, hinst,
        released]
  | .invalidate row, _ =>
    simp only [ReleasePc.step, Option.some.injEq, Prod.mk.injEq] at h
    obtain ⟨rfl, rfl, rfl⟩ := h
    exact ⟨trivial, fun _ _ => .refl _ _ _, hu, .inl ⟨rfl, rfl⟩⟩
  | .done a, _ => cases h

theorem get_db {p : String} {s s' : Store} {pc pc' : GetPc} (h : pc.step p s = some (s', pc')) :
    s'.db = s.db := by
  match pc, h with
  | .cache, h =>
    simp only [GetPc.step] at h
    split at h <;> simp only [Option.some.injEq, Prod.mk.injEq] at h <;> rw [h.1]
  | .db, h =>
    simp only [GetPc.step] at h
    split at h <;> simp only [Option.some.injEq, Prod.mk.injEq] at h <;> rw [h.1]
  | .set out, h =>
    simp only [GetPc.step, Option.some.injEq, Prod.mk.injEq] at h
    rw [← h.1]

theorem list_db {le : String → String → Bool} {q : PageQuery} {s s' : Store} {pc pc' : ListPc}
    (h : pc.step le q s = some (s', pc')) : s'.db = s.db := by
  match pc, h with
  | .cache, h =>
    simp only [ListPc.step] at h
    split at h <;> simp only [Option.some.injEq, Prod.mk.injEq] at h <;> rw [h.1]
  | .total, h =>
    simp only [ListPc.step, Option.some.injEq, Prod.mk.injEq] at h
    rw [h.1]
  | .page snapshot, h =>
    simp only [ListPc.step, Option.some.injEq, Prod.mk.injEq] at h
    rw [h.1]
  | .set result, h =>
    simp only [ListPc.step, Option.some.injEq, Prod.mk.injEq] at h
    rw [← h.1]

/-- Every statement of every request. -/
theorem moves_of_step {le : String → String → Bool} {i : Nat} {s s' : Store} {k k' : Locks}
    {p p' : Proc} (hu : Table.Unique Product.id s.db) (hok : p.Ok s.db k i)
    (h : p.step le i s k = some (s', k', p')) : Moves i s s' k k' p p' := by
  cases p with
  | reserve body pc =>
    simp only [step, Option.map_eq_some_iff, Prod.mk.injEq] at h
    obtain ⟨r, hr, rfl, rfl, rfl⟩ := h
    exact reserve_moves hu hok hr
  | release body pc =>
    simp only [step, Option.map_eq_some_iff, Prod.mk.injEq] at h
    obtain ⟨r, hr, rfl, rfl, rfl⟩ := h
    exact release_moves hu hok hr
  | get x pc =>
    simp only [step, Option.map_eq_some_iff, Prod.mk.injEq] at h
    obtain ⟨r, hr, rfl, rfl, rfl⟩ := h
    have hdb := get_db hr
    refine ⟨trivial, ?_, ?_, .inl ⟨hdb, rfl⟩⟩
    · intro j _
      rw [hdb]; exact .refl _ _ _
    · rw [hdb]; exact hu
  | list q pc =>
    simp only [step, Option.map_eq_some_iff, Prod.mk.injEq] at h
    obtain ⟨r, hr, rfl, rfl, rfl⟩ := h
    have hdb := list_db hr
    refine ⟨trivial, ?_, ?_, .inl ⟨hdb, rfl⟩⟩
    · intro j _
      rw [hdb]; exact .refl _ _ _
    · rw [hdb]; exact hu

theorem ok_start (r : Request) (t : Products) (k : Locks) (i : Nat) : (start r).Ok t k i := by
  cases r <;> trivial

@[simp] theorem outcome_start (r : Request) : (start r).outcome = none := by
  cases r <;> rfl

end Proc

/-! ## All requests -/

namespace Server

/-- What the stock requests have done so far. -/
def outcome (s : Server) (i : Nat) : Option (StockOp × Except AppError ReserveResponse) :=
  (s.procs[i]?).bind Proc.outcome

structure Inv (s : Server) : Prop where
  unique : Table.Unique Product.id s.store.db
  ok : ∀ (i : Nat) (p : Proc), s.procs[i]? = some p → p.Ok s.store.db s.locks i

theorem next_cases {le : String → String → Bool} {s s' : Server} {i : Nat} (hI : Inv s)
    (h : step le s (.next i) = some s') :
    ∃ p p', s.procs[i]? = some p ∧ p.step le i s.store s.locks = some (s'.store, s'.locks, p') ∧
      Proc.Moves i s.store s'.store s.locks s'.locks p p' ∧ s'.procs = s.procs.set i p' := by
  simp only [step] at h
  split at h
  · cases h
  · rename_i p hp
    simp only [Option.map_eq_some_iff] at h
    obtain ⟨r, hr, rfl⟩ := h
    exact ⟨p, r.2.2, hp, hr, Proc.moves_of_step hI.unique (hI.ok i p hp) hr, rfl⟩

theorem Inv.step {le : String → String → Bool} {s s' : Server} {l : Lbl} (hI : Inv s)
    (h : Server.step le s l = some s') : Inv s' := by
  cases l with
  | arrive r =>
    simp only [Server.step, Option.some.injEq] at h
    subst h
    refine ⟨hI.unique, ?_⟩
    intro j p hp
    rcases Procs.spawn_cases hp with hp | ⟨-, rfl⟩
    · exact hI.ok j p hp
    · exact Proc.ok_start _ _ _ _
  | next i =>
    obtain ⟨p, p', hp, -, hm, hprocs⟩ := next_cases hI h
    refine ⟨hm.unique, ?_⟩
    intro j q hq
    rw [hprocs] at hq
    rcases Procs.set_cases hp hq with ⟨rfl, rfl⟩ | ⟨hj, hq⟩
    · exact hm.ok
    · exact (hI.ok j q hq).keep (hm.kept j hj)
  | expire key =>
    simp only [Server.step, Option.some.injEq] at h
    subst h
    exact ⟨hI.unique, hI.ok⟩

theorem inv_reachable {le : String → String → Bool} {t : Products} {s : Server}
    (h : (lts le t).Reachable s) : Inv s := by
  refine LTS.reachable_induct ?_ (fun _ _ _ _ hI hs => hI.step hs) h
  intro s hs
  obtain ⟨hu, rfl⟩ := hs
  exact ⟨hu, fun i p hp => by simp [boot] at hp⟩

theorem outcome_arrive (s : Server) (r : Request) (j : Nat) :
    ((s.procs ++ [Proc.start r])[j]?).bind Proc.outcome = (s.procs[j]?).bind Proc.outcome := by
  by_cases hj : j < s.procs.length
  · rw [List.getElem?_append_left hj]
  · have hnone : s.procs[j]? = none := List.getElem?_eq_none (by omega)
    rw [List.getElem?_append_right (by omega), hnone]
    cases hk : [Proc.start r][j - s.procs.length]? with
    | none => rfl
    | some p =>
      obtain rfl := List.mem_singleton.mp (List.mem_of_getElem? hk)
      exact Proc.outcome_start r

/-- The server implements the atomic operations: COMMIT and ROLLBACK are where a
request takes effect. -/
theorem implements (le : String → String → Bool) (t : Products) :
    Serial.Implements (lts le t) StockOp.exec t (fun s => s.store.db) outcome where
  init s hs := by
    obtain ⟨-, rfl⟩ := hs
    exact ⟨rfl, fun i => rfl⟩
  step s l s' hr h := by
    have hI := inv_reachable hr
    change Server.step le s l = some s' at h
    cases l with
    | arrive r =>
      simp only [Server.step, Option.some.injEq] at h
      subst h
      refine .inl ⟨rfl, ?_⟩
      funext j
      exact outcome_arrive s r j
    | next i =>
      obtain ⟨p, p', hp, -, hm, hprocs⟩ := next_cases hI h
      have hself : s'.outcome i = p'.outcome := by
        simp only [outcome, hprocs, Procs.set_self hp, Option.bind_some]
      have hbefore : s.outcome i = p.outcome := by
        simp only [outcome, hp, Option.bind_some]
      have hother : ∀ j, j ≠ i → s'.outcome j = s.outcome j := by
        intro j hj
        simp only [outcome, hprocs, List.getElem?_set_ne (Ne.symm hj)]
      rcases hm.effect with ⟨hdb, ho⟩ | ⟨hnone, o, a, hsome, hexec⟩
      · refine .inl ⟨hdb, ?_⟩
        funext j
        by_cases hj : j = i
        · subst hj; rw [hself, hbefore, ho]
        · exact hother j hj
      · exact .inr ⟨⟨i, o, a⟩, hbefore.trans hnone, hexec, hself.trans hsome, hother⟩
    | expire key =>
      simp only [Server.step, Option.some.injEq] at h
      subst h
      exact .inl ⟨rfl, rfl⟩

end Server

/-! ## A request alone -/

def unlocked : Locks := fun _ => none

@[simp] theorem unlocked_free (p : String) (i : Nat) : unlocked.free p i = true := by
  simp [Locks.free, unlocked]

@[simp] theorem unlocked_drop (i : Nat) : unlocked.drop i = unlocked := by
  funext q
  simp [Locks.drop, unlocked]

@[simp] theorem unlocked_take_drop (p : String) (i : Nat) :
    (unlocked.take p i).drop i = unlocked := by
  funext q
  unfold Locks.drop Locks.take
  by_cases hq : q = p
  · subst hq; simp [unlocked]
  · rw [Function.update_of_ne hq]; simp [unlocked]

@[simp] theorem Locks.take_free (k : Locks) (p : String) (i : Nat) :
    (k.take p i).free p i = true := by
  simp [Locks.free, Locks.take]

@[simp] theorem Locks.take_take (k : Locks) (p : String) (i : Nat) :
    (k.take p i).take p i = k.take p i := by
  simp [Locks.take]

namespace Server

/-- The request that arrived last executes its next statement. -/
theorem next_last (le : String → String → Bool) (st : Store) (k : Locks) (ps : List Proc) (p : Proc) :
    step le ⟨st, k, ps ++ [p]⟩ (.next ps.length) =
      (p.step le ps.length st k).map fun r => ⟨r.1, r.2.1, ps ++ [r.2.2]⟩ := by
  simp [step]

theorem arrive_last (le : String → String → Bool) (st : Store) (k : Locks) (ps : List Proc)
    (r : Request) : step le ⟨st, k, ps⟩ (.arrive r) = some ⟨st, k, ps ++ [.start r]⟩ := rfl

/-- A request that nothing interrupts does what the handler does. -/
theorem alone (le : String → String → Bool) {st : Store} (hu : Table.Unique Product.id st.db)
    (ps : List Proc) (r : Request) : ∃ n p,
      LTS.exec (step le) ⟨st, unlocked, ps⟩ (.arrive r :: List.replicate n (.next ps.length)) =
        some ⟨(handle le st r).2, unlocked, ps ++ [p]⟩ ∧ p.answer = some (handle le st r).1 := by
  cases r with
  | reserve body =>
    simp only [handle, reserveStock]
    cases hf : find st.db body.productId with
    | none =>
      refine ⟨2, .reserve body (.done _), ?_, rfl⟩
      simp [LTS.exec, arrive_last, next_last, List.replicate, Proc.start, Proc.step, ReservePc.step,
        hf, stockWrite]
    | some row =>
      by_cases hlt : row.stock < body.quantity
      · refine ⟨2, .reserve body (.done _), ?_, rfl⟩
        simp [LTS.exec, arrive_last, next_last, List.replicate, Proc.start, Proc.step,
          ReservePc.step, hf, hlt, stockWrite]
      · have hinst := install_addStock hu hf (-body.quantity)
        refine ⟨4, .reserve body (.done _), ?_, rfl⟩
        simp [LTS.exec, arrive_last, next_last, List.replicate, Proc.start, Proc.step,
          ReservePc.step, updateRow, hf, hlt, hinst, stockWrite, reserved]
  | release body =>
    simp only [handle, releaseStock, find_addStock, if_pos]
    cases hf : find st.db body.productId with
    | none =>
      refine ⟨2, .release body (.done _), ?_, rfl⟩
      simp [LTS.exec, arrive_last, next_last, List.replicate, Proc.start, Proc.step, ReleasePc.step,
        updateRow, hf, stockWrite]
    | some row =>
      have hinst := install_addStock hu hf body.quantity
      refine ⟨4, .release body (.done _), ?_, rfl⟩
      simp [LTS.exec, arrive_last, next_last, List.replicate, Proc.start, Proc.step, ReleasePc.step,
        updateRow, hf, hinst, stockWrite, released]
  | get x =>
    simp only [handle, getProduct]
    cases hc : st.cache.product x with
    | some cached =>
      refine ⟨1, .get x (.done _), ?_, rfl⟩
      simp [LTS.exec, arrive_last, next_last, List.replicate, Proc.start, Proc.step, GetPc.step, hc]
    | none =>
      cases hr : readProduct st.db x with
      | error e =>
        refine ⟨2, .get x (.done _), ?_, rfl⟩
        simp [LTS.exec, arrive_last, next_last, List.replicate, Proc.start, Proc.step, GetPc.step,
          hc, hr]
      | ok out =>
        refine ⟨3, .get x (.done _), ?_, rfl⟩
        simp [LTS.exec, arrive_last, next_last, List.replicate, Proc.start, Proc.step, GetPc.step,
          hc, hr]
  | list q =>
    simp only [handle, listProducts]
    cases hc : st.cache.page (q.limit, q.offset) with
    | some cached =>
      refine ⟨1, .list q (.done _), ?_, rfl⟩
      simp [LTS.exec, arrive_last, next_last, List.replicate, Proc.start, Proc.step, ListPc.step, hc]
    | none =>
      refine ⟨4, .list q (.done _), ?_, rfl⟩
      simp [LTS.exec, arrive_last, next_last, List.replicate, Proc.start, Proc.step, ListPc.step, hc]

end Server

/-! ## No overselling -/

abbrev StockCall := Serial.Call Nat StockOp (Except AppError ReserveResponse)

def StockOp.body : StockOp → StockRequest
  | .reserve body => body
  | .release body => body

/-- The call succeeded and is a reservation (`reserves`), or a release, of the product. -/
def StockCall.counts (reserves : Bool) (p : String) (c : StockCall) : Bool :=
  (wire c.answer).ok && c.op.body.productId == p &&
    match c.op with
    | .reserve _ => reserves
    | .release _ => !reserves

def reservedOf (p : String) (calls : List StockCall) : Int :=
  tally (StockCall.counts true p) (fun c => c.op.body.quantity) calls

def releasedOf (p : String) (calls : List StockCall) : Int :=
  tally (StockCall.counts false p) (fun c => c.op.body.quantity) calls

theorem reserve_eq (t : Products) (body : StockRequest) :
    reserve t body.productId body.quantity body.orderId = reserveStock t body :=
  dif_pos body.quantity_pos

theorem release_eq (t : Products) (body : StockRequest) :
    release t body.productId body.quantity body.orderId = releaseStock t body :=
  dif_pos body.quantity_pos

/-- One call moves the stock by what it counts for. -/
theorem stockOf_exec {t : Products} {c : StockCall} (h : (c.op.exec t).1 = c.answer) (p : String) :
    stockOf (c.op.exec t).2 p =
      stockOf t p - (if c.counts true p then c.op.body.quantity else 0) +
        if c.counts false p then c.op.body.quantity else 0 := by
  obtain ⟨i, o, a⟩ := c
  simp only at h
  subst h
  cases o with
  | reserve body =>
    have h := stockOf_reserve t body.productId body.quantity body.orderId p
    rw [reserve_eq] at h
    simp only [StockOp.exec, h, succeeds, StockCall.counts, StockOp.body]
    by_cases hp : p = body.productId
    · subst hp; simp
    · simp [hp, Ne.symm hp]
  | release body =>
    have h := stockOf_release t body.productId body.quantity body.orderId p
    rw [release_eq] at h
    simp only [StockOp.exec, h, succeeds, StockCall.counts, StockOp.body]
    by_cases hp : p = body.productId
    · subst hp; simp
    · simp [hp, Ne.symm hp]

theorem stockOf_exec_nonneg {t : Products} {p : String} (h : 0 ≤ stockOf t p) (o : StockOp) :
    0 ≤ stockOf (o.exec t).2 p := by
  cases o with
  | reserve body =>
    have hs := stockOf_reserve t body.productId body.quantity body.orderId p
    have hok := reserve_ok (t := t) (p := body.productId) (q := body.quantity) (o := body.orderId)
    rw [reserve_eq] at hs hok
    simp only [StockOp.exec, hs]
    split
    · rename_i hc
      obtain ⟨hsucc, rfl⟩ := hc
      have := (hok hsucc).2.1
      omega
    · omega
  | release body =>
    have hs := stockOf_release t body.productId body.quantity body.orderId p
    rw [release_eq] at hs
    have hq := body.quantity_pos
    simp only [StockOp.exec, hs]
    split <;> omega

/-- In a serial execution the stock is what is left of the initial one. -/
theorem serial_stock {t t' : Products} {answered : Nat → Option (StockOp × Except AppError ReserveResponse)}
    {calls : List StockCall} (h : Serial.Explains StockOp.exec t t' answered calls) (p : String) :
    stockOf t' p = stockOf t p - reservedOf p calls + releasedOf p calls := by
  refine h.induct (P := fun u cs => stockOf u p = stockOf t p - reservedOf p cs + releasedOf p cs)
    (by simp [reservedOf, releasedOf]) ?_
  intro u cs c ih ha
  have hx := stockOf_exec ha p
  rw [hx, ih]
  simp only [reservedOf, releasedOf, tally_append, tally_singleton]
  omega

/-- In every reachable state of any number of concurrent requests, the table and
the answers of the stock requests are those of executing them one after another;
so stock does not go negative, and no more is reserved than there was. -/
theorem no_overselling (le : String → String → Bool) (t : Products) {s : Server}
    (h : (Server.lts le t).Reachable s) :
    ∃ calls : List StockCall, Serial.Explains StockOp.exec t s.store.db s.outcome calls ∧
      (∀ i body a, s.procs[i]? = some (.reserve body (.done a)) → ⟨i, .reserve body, a⟩ ∈ calls) ∧
      (∀ i body a, s.procs[i]? = some (.release body (.done a)) → ⟨i, .release body, a⟩ ∈ calls) ∧
      ∀ p, 0 ≤ stockOf t p → 0 ≤ stockOf s.store.db p ∧
        reservedOf p calls ≤ stockOf t p + releasedOf p calls := by
  obtain ⟨calls, hc⟩ := (Server.implements le t).explained h
  refine ⟨calls, hc, ?_, ?_, ?_⟩
  · intro i body a hp
    refine (hc.mem _).mpr ?_
    simp only [Server.outcome, hp, Option.bind_some, Proc.outcome]
  · intro i body a hp
    refine (hc.mem _).mpr ?_
    simp only [Server.outcome, hp, Option.bind_some, Proc.outcome]
  · intro p h0
    have hnn : 0 ≤ stockOf s.store.db p :=
      hc.induct (P := fun u _ => 0 ≤ stockOf u p) h0 fun u _ c hu _ => stockOf_exec_nonneg hu c.op
    have hsum := serial_stock hc p
    exact ⟨hnn, by omega⟩

/-- A product with one unit left. -/
def lastUnit : Products := [⟨"P001", "Pen", 250, 1⟩]

def oneUnit (orderId : String) : StockRequest := ⟨"P001", 1, orderId, Int.one_pos⟩

def byId (a b : String) : Bool := a ≤ b

/-- Two requests for the last unit: both arrive, the second selects after the
first has committed. -/
def lastUnitRace : List Lbl :=
  [.arrive (.reserve (oneUnit "A")), .arrive (.reserve (oneUnit "B")), .next 0, .next 0, .next 0,
    .next 1, .next 0, .next 1]

theorem no_overselling_race : ∃ s, (Server.lts byId lastUnit).Reachable s ∧ s.store.db ≠ lastUnit ∧
    ∃ calls, Serial.Explains StockOp.exec lastUnit s.store.db s.outcome calls ∧
      reservedOf "P001" calls ≤ 1 + releasedOf "P001" calls := by
  obtain ⟨s, hs, hdb⟩ : ∃ s, (Server.lts byId lastUnit).Reachable s ∧
      decide (s.store.db ≠ lastUnit) = true :=
    LTS.reachable_of_exec lastUnitRace ⟨by simp [Table.Unique, lastUnit], rfl⟩ (by decide +kernel)
  obtain ⟨calls, hc, -, -, htotal⟩ := no_overselling byId lastUnit hs
  exact ⟨s, hs, of_decide_eq_true hdb, calls, hc, (htotal "P001" (by decide)).2⟩

end Gestalt.Catalog
