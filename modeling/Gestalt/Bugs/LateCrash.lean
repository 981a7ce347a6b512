import Gestalt.Bugs.LateWrites
import Gestalt.L4Checkout.EventLog

/-!
# An order that is announced PAID and FAILED

Status: open.

Behaviour: a reconciliation pass selects its PENDING orders once and takes them
up one after the other
(services/order-service/app/reconciliation.py:34-60). A run that is alive at the
SELECT may commit PAID, publish order.paid and crash before the pass comes to its
order. The pass then releases the stock, commits FAILED and publishes
order.failed: that it has not touched the order while its run was alive does not
help, as it decides from what it selected.

Documented: reconciliation.py:1-7, the pass is for "sagas that crashed mid-flight";
order-service.md:33-53, PAID and FAILED are the two ends of the saga, order.paid is
for one that "completes successfully", order.failed for one that "fails at either
step".

Counterexample: `lateCrash`.

Fix: as for the late writes (`Bugs.LateWrites`), the UPDATE of the pass `WHERE
status = 'PENDING'`, before its releases, and no event if it changes no row.
-/
namespace Gestalt.Checkout

variable {cfg : Config} {cat : Catalog.Products} {s s' : Sys}

/-! ## The run that goes wrong -/

/-- One reconciliation loop, which takes up only orders whose run has crashed by
then, and one delivery loop. -/
def takesCrashed (s : Sys) : Lbl → Bool
  | .recon => s.passes.all Pass.over
  | .pass j .next => (s.passes[j]?).all fun p => p.todo.head?.all s.crashed
  | .deliver => s.deliveries.all DeliveryPass.over
  | _ => true

def takingLts (cfg : Config) (cat : Catalog.Products) : LTS Sys Lbl :=
  (lts cfg cat).restrict fun s l => takesCrashed s l = true

/-- The run pays after the SELECT of the pass, publishes order.paid and crashes;
then the pass takes its order up. -/
def lateCrash : List Lbl :=
  slowRun ++ runPays ++ [.saga 0 .load, .saga 0 (.publish true), .crash 0] ++ passFails ++
    [.pass 0 .load, .pass 0 (.publish true)]

def paidThenFailed (s : Sys) : Bool :=
  s.topic.map Event.fact = [("o1", .created), ("o1", .paid), ("o1", .failed)]

/-- **Counterexample.** -/
theorem paid_and_failed_published : ¬ ∀ s, (takingLts {} depot).Reachable s →
    ∀ oid, ¬ (0 < published s (oid, .paid) ∧ 0 < published s (oid, .failed)) := by
  have hrun : ∃ s, (takingLts {} depot).Reachable s ∧ paidThenFailed s = true :=
    LTS.reachable_of_execG lateCrash rfl (by decide +kernel)
  obtain ⟨s, hr, hs⟩ := hrun
  have htopic : s.topic.map Event.fact = [("o1", .created), ("o1", .paid), ("o1", .failed)] :=
    of_decide_eq_true hs
  have hpub : ∀ f ∈ s.topic.map Event.fact, 0 < published s f := by
    intro f hf
    obtain ⟨e, he, hfact⟩ := List.mem_map.mp hf
    exact List.countP_pos_iff.mpr ⟨e, he, by simpa using hfact⟩
  intro h
  exact h s hr "o1" ⟨hpub _ (by rw [htopic]; simp), hpub _ (by rw [htopic]; simp)⟩

/-! ## When it does not -/

/-- A pass that has selected only orders whose run had crashed takes up no others:
`event_log_safe` is about runs of this setting. -/
theorem takes_selected {l : Lbl} (h : (loopsLts cfg cat).Reachable s) (hst : (loopsLts cfg cat).step s l s') :
    takesCrashed s l = true := by
  obtain ⟨hst, hl⟩ := hst
  cases l with
  | recon => exact (Bool.and_eq_true_iff.mp hl).1
  | deliver => exact hl
  | pass j a =>
    cases a with
    | next =>
      obtain ⟨p, p', e, hj, hal, -, -⟩ := step_pass hst
      simp only [takesCrashed, hj, Option.all_some]
      cases ht : p.todo with
      | nil => rfl
      | cons oid rest =>
        have hover : p.over = false := by simp [Pass.over, hal, ht]
        have hmem : oid ∈ p.todo := ht ▸ List.mem_cons_self
        exact (((events_reachable h).loops.scope j p hj hover).todo oid hmem).crashed
    | _ => rfl
  | _ => rfl

end Gestalt.Checkout
