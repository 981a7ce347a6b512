import Mathlib.Data.List.Basic

/-!
# Lists of processes

A process is known by its position in the list: `set` replaces one process,
appending spawns one. These lemmas say who is at a position afterwards.
-/
namespace Gestalt.Procs

variable {α : Type} {l : List α} {i j : Nat} {a b x : α}

theorem lt_of (h : l[i]? = some x) : i < l.length := (List.getElem?_eq_some_iff.mp h).1

theorem set_self (h : l[i]? = some x) : (l.set i a)[i]? = some a :=
  List.getElem?_set_self (lt_of h)

theorem set_cases (h : l[i]? = some x) (hj : (l.set i a)[j]? = some b) :
    (j = i ∧ b = a) ∨ (j ≠ i ∧ l[j]? = some b) := by
  by_cases he : j = i
  · subst he
    rw [set_self h, Option.some.injEq] at hj
    exact .inl ⟨rfl, hj.symm⟩
  · rw [List.getElem?_set_ne (Ne.symm he)] at hj
    exact .inr ⟨he, hj⟩

theorem spawn_old (h : l[j]? = some b) : (l ++ [a])[j]? = some b := by
  rw [List.getElem?_append_left (lt_of h)]; exact h

theorem spawn_new : (l ++ [a])[l.length]? = some a := by simp

theorem spawn_cases (h : (l ++ [a])[j]? = some b) :
    l[j]? = some b ∨ (j = l.length ∧ b = a) := by
  by_cases hj : j < l.length
  · rw [List.getElem?_append_left hj] at h; exact .inl h
  · have hlt := lt_of h
    simp only [List.length_append, List.length_singleton] at hlt
    have hj' : j = l.length := by omega
    subst hj'
    rw [spawn_new, Option.some.injEq] at h
    exact .inr ⟨rfl, h.symm⟩

/-! ## What the processes have done -/

theorem filterMap_set_eq {β : Type} {f : α → Option β} (h : l[i]? = some b) (hf : f a = f b) :
    (l.set i a).filterMap f = l.filterMap f := by
  induction l generalizing i with
  | nil => rfl
  | cons x l ih =>
    cases i with
    | zero =>
      obtain rfl : x = b := Option.some.inj h
      simp [List.filterMap_cons, hf]
    | succ i => simp [List.filterMap_cons, ih h]

/-- One more process has done something. -/
theorem filterMap_set_perm {β : Type} {f : α → Option β} {y : β} (h : l[i]? = some b) (hb : f b = none)
    (ha : f a = some y) : ((l.set i a).filterMap f).Perm (y :: l.filterMap f) := by
  induction l generalizing i with
  | nil => cases h
  | cons x l ih =>
    cases i with
    | zero =>
      obtain rfl : x = b := Option.some.inj h
      rw [List.set_cons_zero, List.filterMap_cons_some ha, List.filterMap_cons_none hb]
    | succ i =>
      have hl := ih h
      rw [List.set_cons_succ, List.filterMap_cons, List.filterMap_cons]
      cases f x with
      | none => exact hl
      | some z => exact (hl.cons z).trans (.swap ..)

/-! ## What the processes hold -/

variable {κ : Type} {f : α → Option κ}

/-- What another process holds, some process still holds. -/
theorem holder_kept (h : l[i]? = some b) {k : κ} (hf : f b ≠ some k)
    (hx : ∃ x ∈ l, f x = some k) : ∃ x ∈ l.set i a, f x = some k := by
  obtain ⟨x, hx, hfx⟩ := hx
  obtain ⟨j, hj⟩ := List.mem_iff_getElem?.mp hx
  have hij : i ≠ j := by
    intro e
    subst e
    rw [h, Option.some.injEq] at hj
    subst hj
    exact hf hfx
  refine ⟨x, List.mem_iff_getElem?.mpr ⟨j, ?_⟩, hfx⟩
  rw [List.getElem?_set_ne hij]
  exact hj

/-- A process that still holds what it has held. -/
theorem holder_set (h : l[i]? = some b) {k : κ} (hf : f b = some k → f a = some k)
    (hx : ∃ x ∈ l, f x = some k) : ∃ x ∈ l.set i a, f x = some k := by
  by_cases hb : f b = some k
  · exact ⟨a, List.mem_of_getElem? (set_self h), hf hb⟩
  · exact holder_kept h hb hx

/-- No two processes hold the same thing. -/
def Sole (f : α → Option κ) (l : List α) : Prop :=
  ∀ (i j : Nat) (a b : α) (k : κ), l[i]? = some a → l[j]? = some b →
    f a = some k → f b = some k → i = j

theorem Sole.nil : Sole f [] := by
  intro i j a b k ha
  cases ha

/-- A process may keep what it holds, let it go, or take what nobody holds. -/
theorem Sole.set (h : Sole f l) (hi : l[i]? = some b)
    (hf : ∀ k, f a = some k → f b = some k ∨ ∀ x ∈ l, f x ≠ some k) : Sole f (l.set i a) := by
  intro j j' x y k hx hy hfx hfy
  rcases set_cases hi hx with ⟨rfl, rfl⟩ | ⟨-, hx'⟩ <;>
    rcases set_cases hi hy with ⟨rfl, rfl⟩ | ⟨-, hy'⟩
  · rfl
  · rcases hf k hfx with hb | hnone
    · exact h _ _ _ _ k hi hy' hb hfy
    · exact absurd hfy (hnone y (List.mem_of_getElem? hy'))
  · rcases hf k hfy with hb | hnone
    · exact h _ _ _ _ k hx' hi hfx hb
    · exact absurd hfx (hnone x (List.mem_of_getElem? hx'))
  · exact h _ _ _ _ k hx' hy' hfx hfy

theorem Sole.spawn (h : Sole f l) (hf : f a = none) : Sole f (l ++ [a]) := by
  intro j j' x y k hx hy hfx hfy
  rcases spawn_cases hx with hx | ⟨-, rfl⟩
  · rcases spawn_cases hy with hy | ⟨-, rfl⟩
    · exact h _ _ _ _ k hx hy hfx hfy
    · rw [hf] at hfy
      cases hfy
  · rw [hf] at hfx
    cases hfx

variable [DecidableEq κ]

/-- How many of the processes hold `k`, if each holds at most one thing. -/
def holding (f : α → Option κ) (l : List α) (k : κ) : Nat := l.countP fun a => f a = some k

theorem holding_set (h : l[i]? = some b) (k : κ) :
    holding f (l.set i a) k + (if f b = some k then 1 else 0) =
      holding f l k + if f a = some k then 1 else 0 := by
  obtain ⟨hi, hb⟩ := List.getElem?_eq_some_iff.mp h
  have hpos : f b = some k → 0 < l.countP fun a => f a = some k := by
    intro hf
    exact List.countP_pos_iff.mpr ⟨b, List.mem_of_getElem? h, by simpa using hf⟩
  unfold holding
  rw [List.countP_set hi]
  simp only [hb, decide_eq_true_eq]
  by_cases hf : f b = some k
  · have := hpos hf
    simp only [if_pos hf]
    omega
  · simp only [if_neg hf]
    omega

/-- A new process that holds nothing. -/
theorem holding_spawn (h : f a = none) (k : κ) : holding f (l ++ [a]) k = holding f l k := by
  simp [holding, h]

omit [DecidableEq κ] in
theorem Sole.tail (h : Sole f (a :: l)) : Sole f l := by
  intro i j x y k hx hy hfx hfy
  exact Nat.succ.inj (h (i + 1) (j + 1) x y k hx hy hfx hfy)

theorem Sole.holding_le_one (h : Sole f l) (k : κ) : holding f l k ≤ 1 := by
  induction l with
  | nil => exact Nat.zero_le 1
  | cons x l ih =>
    have hl := ih h.tail
    by_cases hx : f x = some k
    · -- nobody in the tail holds it
      have hzero : holding f l k = 0 := by
        refine List.countP_eq_zero.mpr ?_
        intro y hy hfy
        obtain ⟨j, hj⟩ := List.mem_iff_getElem?.mp hy
        have := h 0 (j + 1) x y k rfl hj hx (of_decide_eq_true hfy)
        omega
      simp only [holding] at hzero ⊢
      simp [hx, hzero]
    · simp only [holding] at hl ⊢
      simpa [hx] using hl

/-- No process holds anything. -/
theorem holding_zero (h : ∀ a ∈ l, f a = none) (k : κ) : holding f l k = 0 :=
  List.countP_eq_zero.mpr fun a ha => by simp [h a ha]

end Gestalt.Procs
