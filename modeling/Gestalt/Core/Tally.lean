import Mathlib.Algebra.BigOperators.Group.List.Basic
import Mathlib.Algebra.Order.BigOperators.Group.List
import Mathlib.Algebra.Order.Ring.Int
import Mathlib.Data.List.Nodup

/-!
# Tallies: what a log adds up to

A log is a list of entries, `f` the signed amount an entry moves. `tally P f l`
is what the entries selected by `P` move in total. A balance that is changed
only by logged entries is its opening value plus the sum over the whole log;
`sum_by_key` splits that sum over the accounts the entries belong to.
-/
namespace Gestalt

variable {α κ : Type}

/-- What the entries selected by `P` add up to. -/
def tally (P : α → Bool) (f : α → Int) (l : List α) : Int := (l.map fun a => if P a then f a else 0).sum

@[simp] theorem tally_nil (P : α → Bool) (f : α → Int) : tally P f [] = 0 := rfl

theorem tally_cons (P : α → Bool) (f : α → Int) (a : α) (l : List α) :
    tally P f (a :: l) = (if P a then f a else 0) + tally P f l := by
  simp [tally]

@[simp] theorem tally_append (P : α → Bool) (f : α → Int) (l l' : List α) :
    tally P f (l ++ l') = tally P f l + tally P f l' := by
  simp [tally]

theorem tally_singleton (P : α → Bool) (f : α → Int) (a : α) :
    tally P f [a] = if P a then f a else 0 := by
  simp [tally]

/-- A log of entries counted under `P` is one counted under `Q` and one under
`R`, if each entry is. -/
theorem tally_add {P Q R : α → Bool} {f : α → Int} {l : List α}
    (h : ∀ a ∈ l, (if P a then f a else 0) = (if Q a then f a else 0) + if R a then f a else 0) :
    tally P f l = tally Q f l + tally R f l := by
  unfold tally
  rw [← List.sum_map_add]
  exact congrArg List.sum (List.map_congr_left h)

theorem tally_eq_zero {P : α → Bool} {f : α → Int} {l : List α}
    (h : ∀ a ∈ l, P a = true → f a = 0) : tally P f l = 0 := by
  apply List.sum_eq_zero
  intro x hx
  obtain ⟨a, ha, rfl⟩ := List.mem_map.mp hx
  split
  · exact h a ha ‹_›
  · rfl

theorem tally_nonpos {P : α → Bool} {f : α → Int} {l : List α}
    (h : ∀ a ∈ l, P a = true → f a ≤ 0) : tally P f l ≤ 0 := by
  have hle : ∀ x ∈ l.map fun a => if P a then f a else 0, x ≤ 0 := by
    intro x hx
    obtain ⟨a, ha, rfl⟩ := List.mem_map.mp hx
    split
    · exact h a ha ‹_›
    · exact Int.le_refl _
  simpa [tally] using List.sum_le_card_nsmul _ 0 hle

/-- One strictly negative entry makes a tally of non-positive ones negative. -/
theorem tally_neg {P : α → Bool} {f : α → Int} {l : List α} (h : ∀ a ∈ l, P a = true → f a ≤ 0)
    {a : α} (ha : a ∈ l) (hp : P a = true) (hn : f a < 0) : tally P f l < 0 := by
  obtain ⟨l₁, l₂, rfl⟩ := List.append_of_mem ha
  have h1 : tally P f l₁ ≤ 0 := tally_nonpos fun b hb => h b (by simp [hb])
  have h2 : tally P f l₂ ≤ 0 := tally_nonpos fun b hb => h b (by simp [hb])
  rw [tally_append, tally_cons, if_pos hp]
  omega

/-- The rows selected by `P`, summed, is a tally of all rows. -/
theorem sum_filter (P : α → Bool) (f : α → Int) (l : List α) :
    ((l.filter P).map f).sum = tally P f l := by
  have h := List.sum_map_ite (fun a => P a = true) f (fun _ => 0) l
  simpa [tally] using h.symm

/-- Among distinct keys, an entry is counted once. -/
theorem sum_map_single [DecidableEq κ] {ks : List κ} (hks : ks.Nodup) {k : κ} (hk : k ∈ ks) (x : Int) :
    (ks.map fun k' => if k = k' then x else 0).sum = x := by
  have h := List.sum_map_ite_eq ks (fun _ => x) (fun _ => 0) k
  simpa [List.count_eq_one_of_mem hks hk, eq_comm] using h

/-- **Double entry.** If every entry that moves anything belongs to one of the
accounts `ks`, the whole log adds up to the accounts' tallies. -/
theorem sum_by_key [DecidableEq κ] {ks : List κ} (hks : ks.Nodup) (key : α → κ) (f : α → Int)
    {l : List α} (h : ∀ a ∈ l, f a ≠ 0 → key a ∈ ks) :
    (l.map f).sum = (ks.map fun k => tally (fun a => key a = k) f l).sum := by
  induction l with
  | nil => simp
  | cons a l ih =>
    have ih := ih fun b hb => h b (List.mem_cons_of_mem _ hb)
    have hone : (ks.map fun k => if key a = k then f a else 0).sum = f a := by
      by_cases h0 : f a = 0
      · simp [h0]
      · exact sum_map_single hks (h a List.mem_cons_self h0) (f a)
    simp only [List.map_cons, List.sum_cons, tally_cons, List.sum_map_add, decide_eq_true_eq, hone, ih]

end Gestalt
