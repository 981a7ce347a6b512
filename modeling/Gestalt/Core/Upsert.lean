import Mathlib.Data.List.Basic
import Mathlib.Logic.Function.Basic

/-!
# Inserting what is not there

`touch` gives a key its default value unless it has one. Any two touches
commute and a second one does nothing, so what a list of them does depends only
on which keys are in it (`touchAll_congr`): not on their order, and not on how
often each is there. `AtLeastOnce` is how such lists arise under redelivery.
-/
namespace Gestalt.Upsert

variable {κ β : Type} [DecidableEq κ]

/-- Insert `d` at `k`, or leave what is there. -/
def touch (d : β) (m : κ → Option β) (k : κ) : κ → Option β :=
  Function.update m k (some ((m k).getD d))

def touchAll (d : β) (m : κ → Option β) (ks : List κ) : κ → Option β := ks.foldl (touch d) m

variable {d : β} {m : κ → Option β} {k : κ} {b : β} {ks ks' : List κ}

@[simp] theorem touchAll_nil : touchAll d m [] = m := rfl

theorem touchAll_append : touchAll d m (ks ++ ks') = touchAll d (touchAll d m ks) ks' :=
  List.foldl_append ..

theorem touchAll_apply : touchAll d m ks k = if k ∈ ks then some ((m k).getD d) else m k := by
  induction ks generalizing m with
  | nil => simp
  | cons a ks ih =>
    have ht : touchAll d m (a :: ks) k = touchAll d (touch d m a) ks k := rfl
    rw [ht, ih]
    by_cases hk : k = a
    · subst hk
      simp [touch]
    · simp [touch, hk]

/-- Only the set of keys counts. -/
theorem touchAll_congr (h : ∀ k, k ∈ ks ↔ k ∈ ks') : touchAll d m ks = touchAll d m ks' := by
  funext k
  rw [touchAll_apply, touchAll_apply]
  simp only [h k]

/-- A value that is there stays. -/
theorem touchAll_kept (h : m k = some b) : touchAll d m ks k = some b := by
  rw [touchAll_apply, h]
  simp

/-! ## Redelivery -/

variable {α : Type} {work : α → List κ} {es : List α} {runs : List (α × Nat)}

/-- Each run works off the first so many keys of an element of `es`, and each
element is worked off to its end at least once. -/
structure AtLeastOnce (work : α → List κ) (es : List α) (runs : List (α × Nat)) : Prop where
  only : ∀ r ∈ runs, r.1 ∈ es
  each : ∀ e ∈ es, ∃ r ∈ runs, r.1 = e ∧ (work e).length ≤ r.2

/-- The keys touched, in order. -/
def touched (work : α → List κ) (runs : List (α × Nat)) : List κ :=
  runs.flatMap fun r => (work r.1).take r.2

omit [DecidableEq κ] in
theorem AtLeastOnce.mem_touched (h : AtLeastOnce work es runs) :
    k ∈ touched work runs ↔ k ∈ es.flatMap work := by
  simp only [touched, List.mem_flatMap]
  constructor
  · rintro ⟨r, hr, hk⟩
    exact ⟨r.1, h.only r hr, List.mem_of_mem_take hk⟩
  · rintro ⟨e, he, hk⟩
    obtain ⟨r, hr, rfl, hn⟩ := h.each e he
    refine ⟨r, hr, ?_⟩
    rw [List.take_of_length_le hn]
    exact hk

/-- Runs in any order, repeated and cut short, do what one run each does. -/
theorem AtLeastOnce.touchAll (h : AtLeastOnce work es runs) :
    touchAll d m (touched work runs) = Upsert.touchAll d m (es.flatMap work) :=
  touchAll_congr fun _ => h.mem_touched

end Gestalt.Upsert
