import Mathlib.Data.List.Basic
import Mathlib.Data.List.Perm.Basic

/-!
# Registers that are added to and cleared

A family of registers, each empty or with a value. An operation adds to one
register, or clears those it covers. Operations on different registers commute,
and what is added to a register before it is cleared does not matter. So a state
is explained by some order of the operations executed so far (`Explained.order`)
as soon as it is explained by one of this form: first the additions that a later
clearing has undone, then the clearings, then the additions that count
(`Explained`).

`Explained.clear` lets a clearing have its effect on some of the registers it
covers only, if the others are empty or have been cleared before: it may have
looked at them earlier.
-/
namespace Gestalt.Resets

variable {κ M : Type} [Add M] [Zero M]

inductive Op (κ M : Type)
  | add (k : κ) (n : M)
  | clear (ks : List κ)

variable [DecidableEq κ]

/-- What the operation makes of register `k`. -/
def Op.apply (k : κ) (v : Option M) : Op κ M → Option M
  | .add k' n => if k' = k then some (v.getD 0 + n) else v
  | .clear ks => if k ∈ ks then none else v

/-- The operations, one after another, on register `k`. -/
def run (k : κ) (v : Option M) (ops : List (Op κ M)) : Option M := ops.foldl (fun v o => o.apply k v) v

omit [DecidableEq κ] in
def Op.IsAdd : Op κ M → Prop
  | .add _ _ => True
  | .clear _ => False

omit [DecidableEq κ] in
def Op.Touches (k : κ) : Op κ M → Prop
  | .add k' _ => k' = k
  | .clear ks => k ∈ ks

variable {k : κ} {v : Option M} {ops : List (Op κ M)}

theorem run_append (k : κ) (v : Option M) (ops ops' : List (Op κ M)) :
    run k v (ops ++ ops') = run k (run k v ops) ops' := List.foldl_append ..

theorem run_cons (k : κ) (v : Option M) (o : Op κ M) (ops : List (Op κ M)) :
    run k v (o :: ops) = run k (o.apply k v) ops := rfl

theorem apply_of_not_touches {o : Op κ M} (h : ¬ o.Touches k) : o.apply k v = v := by
  cases o with
  | add k' n => exact if_neg h
  | clear ks => exact if_neg h

/-- Operations on other registers. -/
theorem run_of_not_touches (h : ∀ o ∈ ops, ¬ o.Touches k) : run k v ops = v := by
  induction ops with
  | nil => rfl
  | cons o ops ih =>
    rw [run_cons, apply_of_not_touches (h o (List.mem_cons_self ..))]
    exact ih fun o ho => h o (List.mem_cons_of_mem _ ho)

/-- After clearings that cover it a register is empty. -/
theorem run_clears (hc : ∀ o ∈ ops, ¬ o.IsAdd) (h : ∃ o ∈ ops, o.Touches k) : run k v ops = none := by
  induction ops generalizing v with
  | nil =>
    obtain ⟨o, ho, -⟩ := h
    cases ho
  | cons o ops ih =>
    rw [run_cons]
    by_cases hlater : ∃ o ∈ ops, o.Touches k
    · exact ih (fun o ho => hc o (List.mem_cons_of_mem _ ho)) hlater
    · -- it is the first one that covers it
      have hnone : ∀ o ∈ ops, ¬ o.Touches k := fun o ho ht => hlater ⟨o, ho, ht⟩
      rw [run_of_not_touches hnone]
      obtain ⟨o', ho', ht⟩ := h
      rcases List.mem_cons.mp ho' with rfl | ho'
      · cases o' with
        | add k' n => exact absurd trivial (hc _ (List.mem_cons_self ..))
        | clear ks => exact if_pos ht
      · exact absurd ht (hnone o' ho')

/-- What is added to stays filled. -/
theorem run_adds (ha : ∀ o ∈ ops, o.IsAdd) (h : run k v ops = none) : v = none := by
  induction ops generalizing v with
  | nil => exact h
  | cons o ops ih =>
    have hv := ih (fun o ho => ha o (List.mem_cons_of_mem _ ho)) h
    cases o with
    | add k' n =>
      simp only [Op.apply] at hv
      split at hv
      · cases hv
      · exact hv
    | clear ks => exact (ha _ (List.mem_cons_self ..)).elim

/-- Operations on other registers may be left out. -/
theorem run_filter {p : Op κ M → Bool} (hp : ∀ o ∈ ops, p o = false → ¬ o.Touches k) :
    run k v (ops.filter p) = run k v ops := by
  induction ops generalizing v with
  | nil => rfl
  | cons o ops ih =>
    have hrest := fun {w} => ih (v := w) fun o ho => hp o (List.mem_cons_of_mem _ ho)
    rw [List.filter_cons, run_cons]
    split
    · rw [run_cons, hrest]
    · rename_i hpo
      rw [hrest, apply_of_not_touches (hp o (List.mem_cons_self ..) (by simpa using hpo))]

/-! ## Explanations -/

/-- `m₀` becomes `m` by additions `d` that are undone, clearings `c`, and additions
`l` that count. The registers of `gone` were empty before them, or are cleared. -/
structure Parts (m₀ m : κ → Option M) (gone : κ → Prop) (d c l : List (Op κ M)) : Prop where
  dead : ∀ o ∈ d, o.IsAdd ∧ ∀ k, o.Touches k → ∃ o' ∈ c, o'.Touches k
  clears : ∀ o ∈ c, ¬ o.IsAdd
  live : ∀ o ∈ l, o.IsAdd
  value : ∀ k, m k = run k (m₀ k) (c ++ l)
  emptied : ∀ k, gone k → run k (m₀ k) c = none

/-- The operations executed explain the registers. -/
def Explained (m₀ m : κ → Option M) (gone : κ → Prop) (ops : List (Op κ M)) : Prop :=
  ∃ d c l, (d ++ c ++ l).Perm ops ∧ Parts m₀ m gone d c l

variable {m₀ m m' : κ → Option M} {gone gone' : κ → Prop} {d c l : List (Op κ M)}

theorem Explained.nil (m₀ : κ → Option M) {gone : κ → Prop} (h : ∀ k, ¬ gone k) :
    Explained m₀ m₀ gone ([] : List (Op κ M)) :=
  ⟨[], [], [], .nil, by simp, by simp, by simp, fun _ => rfl, fun k hk => absurd hk (h k)⟩

theorem Explained.perm {ops' : List (Op κ M)} (h : Explained m₀ m gone ops) (hp : ops.Perm ops') :
    Explained m₀ m gone ops' := by
  obtain ⟨d, c, l, hperm, hparts⟩ := h
  exact ⟨d, c, l, hperm.trans hp, hparts⟩

/-- A register that is empty now was empty before the additions that count. -/
theorem Parts.empty (h : Parts m₀ m gone d c l) (hk : m k = none) : run k (m₀ k) c = none := by
  rw [h.value, run_append] at hk
  exact run_adds h.live hk

/-- Registers that are empty now may be counted as gone. -/
theorem Explained.mono (h : Explained m₀ m gone ops) (hg : ∀ k, gone' k → gone k ∨ m k = none) :
    Explained m₀ m gone' ops := by
  obtain ⟨d, c, l, hperm, hparts⟩ := h
  refine ⟨d, c, l, hperm, hparts.dead, hparts.clears, hparts.live, hparts.value, ?_⟩
  intro k hk
  exact (hg k hk).elim (hparts.emptied k) hparts.empty

/-- **One more addition.** -/
theorem Explained.add {n : M} (h : Explained m₀ m gone ops)
    (hm : ∀ k', m' k' = (Op.add k n).apply k' (m k')) :
    Explained m₀ m' gone (.add k n :: ops) := by
  obtain ⟨d, c, l, hperm, hparts⟩ := h
  refine ⟨d, c, l ++ [.add k n], ?_, hparts.dead, hparts.clears, ?_, ?_, hparts.emptied⟩
  · rw [← List.append_assoc]
    have hlast : (d ++ c ++ l ++ [Op.add k n]).Perm ([Op.add k n] ++ (d ++ c ++ l)) :=
      List.perm_append_comm
    exact hlast.trans (hperm.cons _)
  · intro o ho
    rcases List.mem_append.mp ho with ho | ho
    · exact hparts.live o ho
    · rw [List.mem_singleton.mp ho]
      trivial
  · intro k'
    rw [hm, hparts.value, ← List.append_assoc, run_append _ _ (c ++ l)]
    rfl

/-- The additions of a list to the registers of `ks`, and the others. -/
def hits (ks : List κ) : Op κ M → Bool
  | .add k _ => decide (k ∈ ks)
  | .clear _ => false

omit [Add M] [Zero M] in
theorem not_touches_of_hits {o : Op κ M} (ho : o.IsAdd) {ks : List κ} (h : hits ks o = true) (hk : k ∉ ks) :
    ¬ o.Touches k := by
  cases o with
  | add k' n =>
    rintro rfl
    exact hk (of_decide_eq_true h)
  | clear ks' => exact ho.elim

omit [Add M] [Zero M] in
theorem not_touches_of_not_hits {o : Op κ M} (ho : o.IsAdd) {ks : List κ} (h : hits ks o = false)
    (hk : k ∈ ks) : ¬ o.Touches k := by
  cases o with
  | add k' n =>
    rintro rfl
    exact of_decide_eq_false h hk
  | clear ks' => exact ho.elim

omit [Add M] [Zero M] in
theorem hits_perm (ds : List κ) (d c l : List (Op κ M)) (o : Op κ M) :
    ((d ++ l.filter (hits ds)) ++ (c ++ [o]) ++ l.filter fun o => !hits ds o).Perm
      (o :: (d ++ c ++ l)) := by
  have hl : (l.filter (hits ds) ++ l.filter fun o => !hits ds o).Perm l := List.filter_append_perm _ _
  have hmid : (l.filter (hits ds) ++ (c ++ l.filter fun o => !hits ds o)).Perm (c ++ l) := by
    rw [← List.append_assoc]
    refine (List.perm_append_comm.append_right _).trans ?_
    rw [List.append_assoc]
    exact hl.append_left c
  simp only [List.append_assoc, List.singleton_append]
  refine ((List.perm_middle.append_left _).append_left d).trans ?_
  refine (List.perm_middle.append_left d).trans ?_
  exact List.perm_middle.trans ((hmid.append_left d).cons o)

theorem apply_clear_none (k : κ) (ks : List κ) : (Op.clear ks : Op κ M).apply k none = none :=
  ite_self none

/-- **One more clearing**, of `ks`, which has its effect on `ds`; the others it covers
are empty, or gone. -/
theorem Explained.clear {ks ds : List κ} (h : Explained m₀ m gone ops) (hsub : ∀ k ∈ ds, k ∈ ks)
    (hm : ∀ k, m' k = if k ∈ ds then none else m k) (hgone : ∀ k ∈ ks, k ∉ ds → gone k ∨ m k = none) :
    Explained m₀ m' gone (.clear ks :: ops) := by
  obtain ⟨d, c, l, hperm, hparts⟩ := h
  -- what has been added to the registers it empties does not count any more
  refine ⟨d ++ l.filter (hits ds), c ++ [.clear ks], l.filter fun o => !hits ds o,
    (hits_perm ds d c l _).trans (hperm.cons _), ?_, ?_, ?_, ?_, ?_⟩
  · intro o ho
    rcases List.mem_append.mp ho with ho | ho
    · refine ⟨(hparts.dead o ho).1, fun k hk => ?_⟩
      obtain ⟨o', ho', ht⟩ := (hparts.dead o ho).2 k hk
      exact ⟨o', List.mem_append_left _ ho', ht⟩
    · obtain ⟨ho, hhit⟩ := List.mem_filter.mp ho
      have hadd := hparts.live o ho
      refine ⟨hadd, fun k hk => ⟨.clear ks, by simp, ?_⟩⟩
      by_contra hks
      exact not_touches_of_hits hadd hhit (fun hk => hks (hsub k hk)) hk
  · intro o ho
    rcases List.mem_append.mp ho with ho | ho
    · exact hparts.clears o ho
    · rw [List.mem_singleton.mp ho]
      exact id
  · exact fun o ho => hparts.live o (List.mem_filter.mp ho).1
  · intro k
    rw [hm, run_append, run_append]
    split
    · rename_i hk
      have hother : ∀ o ∈ l.filter (fun o => !hits ds o), ¬ o.Touches k := by
        intro o ho
        obtain ⟨ho, hhit⟩ := List.mem_filter.mp ho
        exact not_touches_of_not_hits (hparts.live o ho) (by simpa using hhit) hk
      rw [run_of_not_touches hother]
      exact (if_pos (hsub k hk)).symm
    · rename_i hk
      have hleft : ∀ o ∈ l, (!hits ds o) = false → ¬ o.Touches k := by
        intro o ho hhit
        exact not_touches_of_hits (hparts.live o ho) (by simpa using hhit) hk
      rw [run_filter hleft, hparts.value, run_append]
      congr 1
      by_cases hks : k ∈ ks
      · have hnone : run k (m₀ k) c = none := (hgone k hks hk).elim (hparts.emptied k) hparts.empty
        rw [hnone]
        exact (apply_clear_none k ks).symm
      · exact (if_neg hks).symm
  · intro k hk
    rw [run_append, hparts.emptied k hk]
    exact apply_clear_none k ks

/-- **An explanation is a serial execution.** -/
theorem Explained.order (h : Explained m₀ m gone ops) :
    ∃ ops', ops'.Perm ops ∧ ∀ k, m k = run k (m₀ k) ops' := by
  obtain ⟨d, c, l, hperm, hparts⟩ := h
  refine ⟨d ++ c ++ l, hperm, fun k => ?_⟩
  rw [hparts.value, run_append, run_append, run_append]
  congr 1
  by_cases hcov : ∃ o ∈ c, o.Touches k
  · rw [run_clears hparts.clears hcov, run_clears hparts.clears hcov]
  · have hdead : ∀ o ∈ d, ¬ o.Touches k := fun o ho ht => hcov ((hparts.dead o ho).2 k ht)
    rw [run_of_not_touches hdead]

/-- An order of the operations is one of what they belong to. -/
theorem exists_perm_map {α β : Type} {f : α → β} {ys : List β} : ∀ {xs : List α}, ys.Perm (xs.map f) →
    ∃ xs' : List α, xs'.Perm xs ∧ xs'.map f = ys := by
  induction ys with
  | nil =>
    intro xs h
    obtain rfl := List.map_eq_nil_iff.mp h.nil_eq.symm
    exact ⟨[], .nil, rfl⟩
  | cons y ys ih =>
    intro xs h
    obtain ⟨x, hx, rfl⟩ := List.mem_map.mp (h.subset (List.mem_cons_self ..))
    obtain ⟨l, r, rfl⟩ := List.append_of_mem hx
    have hmid : (l ++ x :: r).Perm (x :: (l ++ r)) := List.perm_middle
    have hrest : ys.Perm ((l ++ r).map f) := (List.perm_cons _).mp (h.trans (hmid.map f))
    obtain ⟨xs', hperm, rfl⟩ := ih hrest
    exact ⟨x :: xs', (hperm.cons x).trans List.perm_middle.symm, rfl⟩

end Gestalt.Resets
