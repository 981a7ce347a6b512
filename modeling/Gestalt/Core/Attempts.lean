import Mathlib.Data.ENat.Lattice
import Mathlib.Data.Nat.Find

/-!
# Bounded retries

Something is attempted again and again, `f n` saying whether the attempt after
`n` others succeeds. `firstSuccess f` counts the attempts up to the first that
does; with at most `N` of them, `attempts f N` are made.
-/
namespace Gestalt

open Classical in
/-- The index, from 1, of the first success; infinite if there is none. -/
noncomputable def firstSuccess (f : Nat → Bool) : ℕ∞ :=
  if h : ∃ n, f n = true then ((Nat.find h + 1 : Nat) : ℕ∞) else ⊤

noncomputable def attempts (f : Nat → Bool) (N : Nat) : ℕ∞ := min (firstSuccess f) N

/-- The first `n` attempts fail. -/
def Fails (f : Nat → Bool) (n : Nat) : Prop := ∀ j, j < n → f j = false

instance (f : Nat → Bool) (n : Nat) : Decidable (Fails f n) :=
  inferInstanceAs (Decidable (∀ j, j < n → f j = false))

variable {f : Nat → Bool} {n N : Nat}

theorem Fails.zero : Fails f 0 := by
  intro j hj
  exact absurd hj (Nat.not_lt_zero j)

theorem Fails.succ (h : Fails f n) (hn : f n = false) : Fails f (n + 1) := by
  intro j hj
  rcases Nat.lt_or_eq_of_le (Nat.le_of_lt_succ hj) with hlt | rfl
  · exact h j hlt
  · exact hn

theorem Fails.lt_firstSuccess (h : Fails f n) : (n : ℕ∞) < firstSuccess f := by
  unfold firstSuccess
  split
  · rename_i hex
    rw [Nat.cast_lt]
    refine Nat.lt_succ_of_le ((Nat.le_find_iff hex n).mpr ?_)
    intro j hj
    rw [h j hj]
    exact Bool.false_ne_true
  · exact ENat.natCast_lt_top n

theorem Fails.firstSuccess (h : Fails f n) (hn : f n = true) : firstSuccess f = (n + 1 : Nat) := by
  have hex : ∃ n, f n = true := ⟨n, hn⟩
  have hfind : Nat.find hex = n := by
    refine (Nat.find_eq_iff hex).mpr ⟨hn, ?_⟩
    intro j hj
    rw [h j hj]
    exact Bool.false_ne_true
  rw [Gestalt.firstSuccess, dif_pos hex]
  simp only [hfind]

/-- All the attempts that are allowed have failed. -/
theorem Fails.attempts_eq (h : Fails f N) : attempts f N = N := min_eq_right h.lt_firstSuccess.le

/-- The attempt after `n` failures succeeds, and was allowed. -/
theorem Fails.attempts_succ (h : Fails f n) (hn : f n = true) (hN : n < N) :
    attempts f N = (n + 1 : Nat) := by
  rw [attempts, h.firstSuccess hn]
  exact min_eq_left (Nat.cast_le.mpr hN)

/-- There is an attempt to come. -/
theorem Fails.lt_attempts (h : Fails f n) (hN : n < N) : (n : ℕ∞) < attempts f N :=
  lt_min h.lt_firstSuccess (Nat.cast_lt.mpr hN)

theorem not_fails (hn : f n = true) (hN : n < N) : ¬ Fails f N := by
  intro h
  rw [h n hN] at hn
  cases hn

end Gestalt
