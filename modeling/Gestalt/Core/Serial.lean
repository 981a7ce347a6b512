import Gestalt.Core.LTS
import Mathlib.Data.List.Basic
import Mathlib.Data.List.Induction
import Mathlib.Data.List.Nodup

/-!
# Serial executions

An object with atomic operations is a function `f : σ → ω → α × σ` to the
answer and the new state. `Serial.run` executes operations one after another.

A concurrent system implements the object if each of its steps either leaves
the object and the answers given so far alone, or is one operation of the
object on behalf of one caller who had no answer before (`Implements`). In every
reachable state the answered calls are then a serial execution, in the order of
those steps (`Implements.explained`).
-/
namespace Gestalt.Serial

variable {σ ω α ι : Type}

/-- Execute the operations one after another. -/
def run (f : σ → ω → α × σ) : σ → List ω → List α × σ
  | t, [] => ([], t)
  | t, o :: os => ((f t o).1 :: (run f (f t o).2 os).1, (run f (f t o).2 os).2)

theorem run_snoc (f : σ → ω → α × σ) (t : σ) (os : List ω) (o : ω) :
    run f t (os ++ [o]) =
      ((run f t os).1 ++ [(f (run f t os).2 o).1], (f (run f t os).2 o).2) := by
  induction os generalizing t with
  | nil => rfl
  | cons o' os ih => simp only [List.cons_append, run, ih]

/-- A call that has its answer. -/
structure Call (ι ω α : Type) where
  caller : ι
  op : ω
  answer : α

/-- The calls, executed one after another, lead from `t` to `t'` with the
answers they got, and they are exactly the calls answered. -/
structure Explains (f : σ → ω → α × σ) (t t' : σ) (answered : ι → Option (ω × α))
    (calls : List (Call ι ω α)) : Prop where
  nodup : (calls.map Call.caller).Nodup
  mem : ∀ c, c ∈ calls ↔ answered c.caller = some (c.op, c.answer)
  serial : run f t (calls.map Call.op) = (calls.map Call.answer, t')

variable {f : σ → ω → α × σ} {t t' t'' : σ} {answered answered' : ι → Option (ω × α)}
  {calls : List (Call ι ω α)}

theorem Explains.nil (h : ∀ i, answered i = none) : Explains f t t answered [] where
  nodup := List.nodup_nil
  mem c := by simp [h]
  serial := rfl

/-- One more operation, for a caller that had no answer. -/
theorem Explains.snoc (h : Explains f t t' answered calls) (c : Call ι ω α)
    (hnew : answered c.caller = none) (hf : f t' c.op = (c.answer, t''))
    (hself : answered' c.caller = some (c.op, c.answer))
    (hother : ∀ i, i ≠ c.caller → answered' i = answered i) :
    Explains f t t'' answered' (calls ++ [c]) := by
  have hfresh : ∀ d ∈ calls, d.caller ≠ c.caller := by
    intro d hd he
    have := (h.mem d).mp hd
    rw [he, hnew] at this
    cases this
  refine ⟨?_, ?_, ?_⟩
  · rw [List.map_append, List.nodup_append]
    refine ⟨h.nodup, by simp, ?_⟩
    intro a ha b hb
    obtain ⟨d, hd, rfl⟩ := List.mem_map.mp ha
    simp only [List.map_cons, List.map_nil, List.mem_singleton] at hb
    subst hb; exact hfresh d hd
  · intro d
    rw [List.mem_append, List.mem_singleton]
    by_cases hd : d.caller = c.caller
    · constructor
      · intro hm
        rcases hm with hm | rfl
        · exact absurd hd (hfresh d hm)
        · exact hself
      · intro ha
        rw [hd, hself, Option.some.injEq, Prod.mk.injEq] at ha
        cases c; cases d
        simp only at hd ha
        obtain ⟨rfl, rfl⟩ := ha
        subst hd; exact .inr rfl
    · rw [hother _ hd, ← h.mem d]
      exact ⟨fun hm => hm.resolve_right fun e => hd (congrArg Call.caller e), .inl⟩
  · rw [List.map_append, List.map_append, List.map_singleton, List.map_singleton, run_snoc, h.serial]
    simp only [hf]

/-- **Rule of serial executions.** What every operation keeps holds at the end. -/
theorem Explains.induct (h : Explains f t t' answered calls) {P : σ → List (Call ι ω α) → Prop}
    (h0 : P t [])
    (hstep : ∀ u cs c, P u cs → (f u c.op).1 = c.answer → P (f u c.op).2 (cs ++ [c])) :
    P t' calls := by
  have hrun : ∀ cs : List (Call ι ω α), (run f t (cs.map Call.op)).1 = cs.map Call.answer →
      P (run f t (cs.map Call.op)).2 cs := by
    intro cs
    induction cs using List.reverseRecOn with
    | nil => exact fun _ => h0
    | append_singleton cs c ih =>
      intro ha
      simp only [List.map_append, List.map_cons, List.map_nil, run_snoc] at ha ⊢
      obtain ⟨h1, h2⟩ := List.append_inj' ha rfl
      simp only [List.cons.injEq, and_true] at h2
      exact hstep _ _ _ (ih h1) h2
  have := hrun calls (by rw [h.serial])
  rwa [h.serial] at this

/-- Every step leaves the object and the answers alone, or is one operation of
the object, for a caller that had no answer. -/
structure Implements {S L : Type} (T : LTS S L) (f : σ → ω → α × σ) (t : σ) (obj : S → σ)
    (answered : S → ι → Option (ω × α)) : Prop where
  init : ∀ s, T.init s → obj s = t ∧ ∀ i, answered s i = none
  step : ∀ s l s', T.Reachable s → T.step s l s' →
    (obj s' = obj s ∧ answered s' = answered s) ∨
    ∃ c : Call ι ω α, answered s c.caller = none ∧ f (obj s) c.op = (c.answer, obj s') ∧
      answered s' c.caller = some (c.op, c.answer) ∧
      ∀ i, i ≠ c.caller → answered s' i = answered s i

/-- In every reachable state the answered calls are a serial execution from the
initial object to the current one. -/
theorem Implements.explained {S L : Type} {T : LTS S L} {obj : S → σ}
    {answered : S → ι → Option (ω × α)} (h : Implements T f t obj answered) {s : S}
    (hr : T.Reachable s) : ∃ calls, Explains f t (obj s) (answered s) calls := by
  refine LTS.reachable_induct (I := fun s => ∃ calls, Explains f t (obj s) (answered s) calls)
    ?_ ?_ hr
  · intro s hs
    obtain ⟨ho, ha⟩ := h.init s hs
    exact ⟨[], ho ▸ .nil ha⟩
  · intro s l s' hrs hI hs
    obtain ⟨calls, hc⟩ := hI
    rcases h.step s l s' hrs hs with ⟨ho, ha⟩ | ⟨c, hnew, hf, hself, hother⟩
    · exact ⟨calls, by rw [ho, ha]; exact hc⟩
    · exact ⟨calls ++ [c], hc.snoc c hnew hf hself hother⟩

end Gestalt.Serial
