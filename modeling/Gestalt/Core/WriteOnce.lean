import Gestalt.Core.LTS

/-!
# Write-once registers

A register is absent, then claimed by one party, then written, once. Whoever
reads a written value therefore reads the only one there will ever be. A system
that simulates a register (`LTS.Simulation` into `WriteOnce.lts`) inherits that
(`written_stable`).
-/
namespace Gestalt.WriteOnce

inductive Cell (V : Type)
  | absent
  | claimed
  | written (v : V)
  deriving DecidableEq, Repr

inductive Op (V : Type)
  | claim
  | write (v : V)

/-- `claim` takes an absent cell, `write` fills a claimed one. -/
def step {V : Type} : Cell V → Op V → Option (Cell V)
  | .absent, .claim => some .claimed
  | .claimed, .write v => some (.written v)
  | _, _ => none

def lts (V : Type) : LTS (Cell V) (Op V) := LTS.ofFn (fun c => c = .absent) step

variable {V : Type}

theorem step_written (v : V) (o : Op V) : step (.written v) o = none := by cases o <;> rfl

theorem run_written {v : V} {c : Cell V} {os : List (Op V)} (h : (lts V).Run (.written v) os c) :
    c = .written v := by
  cases h with
  | nil => rfl
  | cons hs _ => simp [lts, LTS.ofFn, step_written] at hs

section Simulated
variable {S L : Type} {T : LTS S L} {abs : S → Cell V}

/-- What has been written stays. -/
theorem written_stable (hsim : LTS.Simulation T (lts V) abs) {s s' : S} {ls : List L} {v : V}
    (hr : T.Reachable s) (hrun : T.Run s ls s') (hw : abs s = .written v) : abs s' = .written v := by
  obtain ⟨os, h⟩ := hsim.run hrun hr
  rw [hw] at h
  exact run_written h

end Simulated
end Gestalt.WriteOnce
