/-!
# What comes to hold whatever happens

`Inevitable R P s`: along every sequence of `R`-steps from `s` a state with `P` is reached, and no
sequence stops before one. It is what a termination order and progress give together (`of_wf`).
-/
namespace Gestalt

variable {S : Type} {R : S → S → Prop} {P Q : S → Prop} {s : S}

inductive Inevitable (R : S → S → Prop) (P : S → Prop) : S → Prop
  | now {s : S} : P s → Inevitable R P s
  | later {s : S} : (∃ s', R s s') → (∀ s', R s s' → Inevitable R P s') → Inevitable R P s

/-- **Termination and progress.** -/
theorem Inevitable.of_wf (hwf : WellFounded fun s' s => R s s') {I : S → Prop}
    (hstep : ∀ s s', I s → R s s' → I s') (hgo : ∀ s, I s → P s ∨ ∃ s', R s s') (h : I s) :
    Inevitable R P s := by
  induction s using hwf.induction with
  | _ s ih =>
    rcases hgo s h with hp | hnext
    · exact .now hp
    · exact .later hnext fun s' hs => ih s' hs (hstep s s' h hs)

theorem Inevitable.mono (hPQ : ∀ s, P s → Q s) (h : Inevitable R P s) : Inevitable R Q s := by
  induction h with
  | now hp => exact .now (hPQ _ hp)
  | later hnext _ ih => exact .later hnext ih

end Gestalt
