/-!
# Labelled transition systems

States, labels and a step relation, with the three things every model of this
development needs from them:

* `Inductive`, and `reachable_induct`, the same argument with the facts already
  known of the reachable states at hand;
* `Takes`, the steps of a run, and `Run.first`, the step with which something
  begins to hold; `history`, a record that is kept along a run, and its induction;
* `restrict`: the runs whose every step meets a condition on the state before
  it, and `Simulation`: each step is a step of an abstract system or leaves the
  abstraction alone.

`exec` and `execG` run a step function on a list of labels, so that a concrete
run is found by evaluation.
-/
namespace Gestalt

/-- A labelled transition system. -/
structure LTS (S L : Type) where
  init : S → Prop
  step : S → L → S → Prop

namespace LTS

variable {S L : Type}

/-- Runs, with the labels taken. -/
inductive Run (T : LTS S L) : S → List L → S → Prop
  | nil (s : S) : Run T s [] s
  | cons {s s' s'' : S} {l : L} {ls : List L} :
      T.step s l s' → Run T s' ls s'' → Run T s (l :: ls) s''

/-- `s` is reached by some run from an initial state. -/
def Reachable (T : LTS S L) (s : S) : Prop := ∃ s₀ ls, T.init s₀ ∧ T.Run s₀ ls s

/-- `I` holds initially and every step keeps it. -/
structure Inductive (T : LTS S L) (I : S → Prop) : Prop where
  init : ∀ s, T.init s → I s
  step : ∀ s l s', I s → T.step s l s' → I s'

/-- The system of a partial step function. -/
def ofFn (init : S → Prop) (f : S → L → Option S) : LTS S L where
  init := init
  step s l s' := f s l = some s'

/-- The runs of `T` whose every step meets `G` on the state before it. -/
def restrict (T : LTS S L) (G : S → L → Prop) : LTS S L where
  init := T.init
  step s l s' := T.step s l s' ∧ G s l

variable {T : LTS S L}

theorem Run.append {s s' s'' : S} {ls ls' : List L} (h : T.Run s ls s') (h' : T.Run s' ls' s'') :
    T.Run s (ls ++ ls') s'' := by
  induction h with
  | nil => exact h'
  | cons hs _ ih => exact .cons hs (ih h')

theorem Run.of_append {s s' : S} {ls ls' : List L} (h : T.Run s (ls ++ ls') s') :
    ∃ m, T.Run s ls m ∧ T.Run m ls' s' := by
  induction ls generalizing s with
  | nil => exact ⟨s, .nil s, h⟩
  | cons l ls ih =>
    cases h with
    | cons hst hr =>
      obtain ⟨m, hm, hm'⟩ := ih hr
      exact ⟨m, .cons hst hm, hm'⟩

theorem Run.snoc {s s' s'' : S} {ls : List L} {l : L} (h : T.Run s ls s') (hs : T.step s' l s'') :
    T.Run s (ls ++ [l]) s'' :=
  h.append (.cons hs (.nil _))

theorem Reachable.of_init {s : S} (h : T.init s) : T.Reachable s := ⟨s, [], h, .nil _⟩

theorem Reachable.step {s s' : S} {l : L} (h : T.Reachable s) (hs : T.step s l s') :
    T.Reachable s' := by
  obtain ⟨s₀, ls, h0, hr⟩ := h
  exact ⟨s₀, ls ++ [l], h0, hr.snoc hs⟩

theorem Reachable.run {s s' : S} {ls : List L} (h : T.Reachable s) (hr : T.Run s ls s') :
    T.Reachable s' := by
  obtain ⟨s₀, ls₀, h0, hr₀⟩ := h
  exact ⟨s₀, ls₀ ++ ls, h0, hr₀.append hr⟩

/-- **Run rule.** What a step keeps on reachable states, a run keeps. -/
theorem run_preserves {P : S → Prop}
    (hstep : ∀ s l s', T.Reachable s → P s → T.step s l s' → P s') {s s' : S} {ls : List L}
    (hr : T.Run s ls s') (hs : T.Reachable s) (h : P s) : P s' := by
  induction hr with
  | nil => exact h
  | cons hst _ ih => exact ih (hs.step hst) (hstep _ _ _ hs h hst)

/-- **Invariant rule**, relative to the reachable states: the step case may use
every invariant already established. -/
theorem reachable_induct {I : S → Prop} (h0 : ∀ s, T.init s → I s)
    (hstep : ∀ s l s', T.Reachable s → I s → T.step s l s' → I s') {s : S}
    (h : T.Reachable s) : I s := by
  obtain ⟨s₀, ls, hi, hr⟩ := h
  exact run_preserves hstep hr (.of_init hi) (h0 _ hi)

theorem Inductive.reachable {I : S → Prop} (h : T.Inductive I) (s : S) (hr : T.Reachable s) : I s :=
  reachable_induct h.init (fun s l s' _ hI hs => h.step s l s' hI hs) hr

/-! ## The steps of a run -/

/-- The run takes the step `l` from `t` to `t'`. -/
def Takes (T : LTS S L) (s : S) (ls : List L) (s' : S) (l : L) (t t' : S) : Prop :=
  ∃ ls₁ ls₂, ls = ls₁ ++ l :: ls₂ ∧ T.Run s ls₁ t ∧ T.step t l t' ∧ T.Run t' ls₂ s'

/-- **First passage.** A run from a state without `P` to one with `P` has a step
in which `P` begins to hold. -/
theorem Run.first {P : S → Prop} {s s' : S} {ls : List L} (h : T.Run s ls s') (h0 : ¬ P s)
    (h1 : P s') : ∃ l t t', T.Takes s ls s' l t t' ∧ ¬ P t ∧ P t' := by
  induction h with
  | nil s => exact absurd h1 h0
  | @cons s m s' l ls hst hr ih =>
    by_cases hm : P m
    · exact ⟨l, s, m, ⟨[], ls, rfl, .nil s, hst, hr⟩, h0, hm⟩
    · obtain ⟨l', t, t', ⟨ls₁, ls₂, rfl, hr₁, ht, hr₂⟩, hP⟩ := ih hm h1
      exact ⟨l', t, t', ⟨l :: ls₁, ls₂, rfl, .cons hst hr₁, ht, hr₂⟩, hP⟩

/-- What every step keeps, a run keeps. -/
theorem Run.keeps {P : S → Prop} (hstep : ∀ s l s', T.step s l s' → P s → P s') {s s' : S} {ls : List L}
    (h : T.Run s ls s') (h0 : P s) : P s' := by
  induction h with
  | nil => exact h0
  | cons hst _ ih => exact ih (hstep _ _ _ hst h0)

/-! ## What a run leaves on record -/

/-- A record of a run: `note` says what a step from `s` adds to it. -/
def history {H : Type} (f : S → L → Option S) (note : S → L → H → H) : S → H → List L → H
  | _, h, [] => h
  | s, h, l :: ls =>
    match f s l with
    | some s' => history f note s' (note s l h) ls
    | none => h

/-- What holds of the state and the record at first, and is kept by every step that is noted, holds
after the run. -/
theorem Run.history_induct {H : Type} {f : S → L → Option S} {note : S → L → H → H} {I : S → H → Prop}
    (hT : ∀ s l s', T.step s l s' → f s l = some s')
    (hstep : ∀ s l s' h, T.step s l s' → I s h → I s' (note s l h)) {s s' : S} {ls : List L}
    (hr : T.Run s ls s') : ∀ {h : H}, I s h → I s' (history f note s h ls) := by
  induction hr with
  | nil => exact fun h => h
  | @cons s m s' l ls hst _ ih =>
    intro h hI
    have hm := ih (hstep s l m h hst hI)
    simpa only [history, hT s l m hst] using hm

theorem Run.history_snoc {H : Type} {f : S → L → Option S} {note : S → L → H → H}
    (hT : ∀ s l s', T.step s l s' → f s l = some s') {s s' s'' : S} {ls : List L} {l : L}
    (hr : T.Run s ls s') (hl : f s' l = some s'') {h : H} :
    history f note s h (ls ++ [l]) = note s' l (history f note s h ls) := by
  induction hr generalizing h with
  | nil s => simp only [List.nil_append, history, hl]
  | @cons s m s' l' ls hst _ ih =>
    simp only [List.cons_append, history, hT s l' m hst]
    exact ih hl

/-! ## Restricted systems -/

/-- A weaker condition allows every run a stronger one allows. -/
theorem Run.mono {G H : S → L → Prop} (hGH : ∀ s l, G s l → H s l) {s s' : S} {ls : List L}
    (h : (T.restrict G).Run s ls s') : (T.restrict H).Run s ls s' := by
  induction h with
  | nil => exact .nil _
  | cons hs _ ih => exact .cons ⟨hs.1, hGH _ _ hs.2⟩ ih

theorem Reachable.mono {G H : S → L → Prop} (hGH : ∀ s l, G s l → H s l) {s : S}
    (h : (T.restrict G).Reachable s) : (T.restrict H).Reachable s := by
  obtain ⟨s₀, ls, h0, hr⟩ := h
  exact ⟨s₀, ls, h0, hr.mono hGH⟩

/-- A run meets the condition at every step, or takes a step that does not. -/
theorem Run.restrict_or (G : S → L → Prop) {s s' : S} {ls : List L} (h : T.Run s ls s') :
    (T.restrict G).Run s ls s' ∨ ∃ l t t', T.Takes s ls s' l t t' ∧ ¬ G t l := by
  induction h with
  | nil s => exact .inl (.nil s)
  | @cons s m s' l ls hst hr ih =>
    by_cases hG : G s l
    · rcases ih with hr' | ⟨l', t, t', ⟨ls₁, ls₂, rfl, hr₁, ht, hr₂⟩, hn⟩
      · exact .inl (.cons ⟨hst, hG⟩ hr')
      · exact .inr ⟨l', t, t', ⟨l :: ls₁, ls₂, rfl, .cons hst hr₁, ht, hr₂⟩, hn⟩
    · exact .inr ⟨l, s, m, ⟨[], ls, rfl, .nil s, hst, hr⟩, hG⟩

theorem Run.unrestrict {G : S → L → Prop} {s s' : S} {ls : List L}
    (h : (T.restrict G).Run s ls s') : T.Run s ls s' := by
  induction h with
  | nil => exact .nil _
  | cons hs _ ih => exact .cons hs.1 ih

theorem Reachable.unrestrict {G : S → L → Prop} {s : S} (h : (T.restrict G).Reachable s) :
    T.Reachable s := by
  obtain ⟨s₀, ls, h0, hr⟩ := h
  exact ⟨s₀, ls, h0, hr.unrestrict⟩

/-! ## Simulation -/

/-- `abs` maps every step of `T` from a reachable state to a step of `U`, or
leaves the abstract state as it was. -/
structure Simulation {A M : Type} (T : LTS S L) (U : LTS A M) (abs : S → A) : Prop where
  init : ∀ s, T.init s → U.init (abs s)
  step : ∀ s l s', T.Reachable s → T.step s l s' → abs s' = abs s ∨ ∃ m, U.step (abs s) m (abs s')

theorem Simulation.run {A M : Type} {U : LTS A M} {abs : S → A} (h : Simulation T U abs)
    {s s' : S} {ls : List L} (hr : T.Run s ls s') (hs : T.Reachable s) :
    ∃ ms, U.Run (abs s) ms (abs s') := by
  induction hr with
  | nil => exact ⟨[], .nil _⟩
  | cons hst _ ih =>
    obtain ⟨ms, hms⟩ := ih (hs.step hst)
    rcases h.step _ _ _ hs hst with he | ⟨m, hm⟩
    · exact ⟨ms, he ▸ hms⟩
    · exact ⟨m :: ms, .cons hm hms⟩

theorem Simulation.reachable {A M : Type} {U : LTS A M} {abs : S → A} (h : Simulation T U abs)
    {s : S} (hr : T.Reachable s) : U.Reachable (abs s) := by
  obtain ⟨s₀, ls, h0, hrun⟩ := hr
  obtain ⟨ms, hms⟩ := h.run hrun (.of_init h0)
  exact ⟨abs s₀, ms, h.init _ h0, hms⟩

/-! ## Evaluation -/

/-- Run a step function on a list of labels. -/
def exec (f : S → L → Option S) : S → List L → Option S
  | s, [] => some s
  | s, l :: ls => (f s l).bind fun s' => exec f s' ls

/-- `exec`, checking a condition on every state before a step. -/
def execG (G : S → L → Prop) [∀ s l, Decidable (G s l)] (f : S → L → Option S) :
    S → List L → Option S :=
  exec fun s l => if G s l then f s l else none

theorem run_of_exec {init : S → Prop} {f : S → L → Option S} :
    ∀ {s : S} {ls : List L} {s' : S}, exec f s ls = some s' → (ofFn init f).Run s ls s'
  | s, [], s', h => by
    simp only [exec, Option.some.injEq] at h; subst h; exact .nil _
  | s, l :: ls, s', h => by
    simp only [exec, Option.bind_eq_some_iff] at h
    obtain ⟨s₁, h1, h2⟩ := h
    exact .cons h1 (run_of_exec h2)

theorem run_of_execG {init : S → Prop} {f : S → L → Option S} {G : S → L → Prop}
    [∀ s l, Decidable (G s l)] : ∀ {s : S} {ls : List L} {s' : S},
      execG G f s ls = some s' → ((ofFn init f).restrict G).Run s ls s'
  | s, [], s', h => by
    simp only [execG, exec, Option.some.injEq] at h; subst h; exact .nil _
  | s, l :: ls, s', h => by
    simp only [execG, exec, Option.bind_eq_some_iff] at h
    obtain ⟨s₁, h1, h2⟩ := h
    split at h1
    · rename_i hg
      exact .cons ⟨h1, hg⟩ (run_of_execG h2)
    · cases h1

/-- A run found by evaluation. -/
theorem exists_run_of_exec {init : S → Prop} {f : S → L → Option S} {p : S → Bool} {s : S}
    (ls : List L) (h : (exec f s ls).any p = true) :
    ∃ s', (ofFn init f).Run s ls s' ∧ p s' = true := by
  obtain ⟨s', hs, hp⟩ := (Option.any_eq_true p _).mp h
  exact ⟨s', run_of_exec hs, hp⟩

theorem exists_run_of_execG {init : S → Prop} {f : S → L → Option S} {G : S → L → Prop}
    [∀ s l, Decidable (G s l)] {p : S → Bool} {s : S} (ls : List L)
    (h : (execG G f s ls).any p = true) :
    ∃ s', ((ofFn init f).restrict G).Run s ls s' ∧ p s' = true := by
  obtain ⟨s', hs, hp⟩ := (Option.any_eq_true p _).mp h
  exact ⟨s', run_of_execG hs, hp⟩

theorem reachable_of_exec {init : S → Prop} {f : S → L → Option S} {p : S → Bool} {s : S}
    (ls : List L) (h0 : init s) (h : (exec f s ls).any p = true) :
    ∃ s', (ofFn init f).Reachable s' ∧ p s' = true := by
  obtain ⟨s', hr, hp⟩ := exists_run_of_exec ls h
  exact ⟨s', ⟨s, ls, h0, hr⟩, hp⟩

theorem reachable_of_execG {init : S → Prop} {f : S → L → Option S} {G : S → L → Prop}
    [∀ s l, Decidable (G s l)] {p : S → Bool} {s : S} (ls : List L) (h0 : init s)
    (h : (execG G f s ls).any p = true) :
    ∃ s', ((ofFn init f).restrict G).Reachable s' ∧ p s' = true := by
  obtain ⟨s', hr, hp⟩ := exists_run_of_execG ls h
  exact ⟨s', ⟨s, ls, h0, hr⟩, hp⟩

end LTS
end Gestalt
