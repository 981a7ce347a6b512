import Gestalt.L4Checkout.Announce
import Gestalt.L4Checkout.Charges

/-!
# A status that nobody is told of

Status: open.

Behaviour: each of the five writers commits a status and publishes the event in
a second step (services/order-service/app/routers/orders.py:131-143, 163-206,
reconciliation.py:48-56, delivery_simulator.py:40-51). Nothing records that the
event is still to be published: after a crash in between, or a `flush` that
returns with the message undelivered (kafka_producer.py:27-35 ignores its
result), the filters of the background passes (`PENDING`; `PAID` and not
delivered) do not select the order for it again.

Documented: docs/01-architecture-overview.md:94-105, order-service to Kafka is
at-least-once.

Counterexample: `silentPaid`. The run crashes between the commit of PAID and its
publish. The delivery pass marks and announces the order. No process is left,
no pass has anything to do, and there is no order.paid event.

Fix: a transactional outbox: insert the event in the transaction that commits
the status, and publish from the table until it is acknowledged.
-/
namespace Gestalt.Checkout

open Gestalt.Orders (Order OrderItem)

variable {cfg : Config} {cat : Catalog.Products} {s s' : Sys}

/-- Each status and each delivery has its event on the topic. -/
def AllAnnounced (s : Sys) : Prop := ∀ o ∈ s.db.orders,
  (o.status = .paid → ∃ e ∈ s.topic, e.fact = (o.id, .paid)) ∧
  (o.status = .failed → ∃ e ∈ s.topic, e.fact = (o.id, .failed)) ∧
  (o.delivered = true → ∃ e ∈ s.topic, e.fact = (o.id, .delivered))

/-! ## The run that goes wrong -/

/-- The run crashes between the commit of PAID and its publish, and later the
order is delivered. -/
def silentPaid : List Lbl :=
  pens ++ upToCharge 0 "o1" ++ serveCharge 0 (some 1) ++
    [.saga 0 .settle, .saga 0 .commit, .crash 0] ++ List.replicate 31 .tick ++
    [.deliver, .delivery 0 .next, .delivery 0 .commit, .delivery 0 .load, .delivery 0 (.publish true)]

/-- Everything is over, and `o1` is PAID without an order.paid event. -/
def toldNobody (cfg : Config) (s : Sys) : Bool :=
  s.idle && stuck cfg.order s = [] && due cfg.order s = [] &&
    s.db.orders.any fun o => o.status = .paid && s.topic.all fun e => e.fact ≠ (o.id, .paid)

/-- **Counterexample.** -/
theorem paid_event_lost : ¬ ∀ s, (lts {} shop).Reachable s → s.idle = true →
    stuck ({} : Config).order s = [] → due ({} : Config).order s = [] → AllAnnounced s := by
  have hrun : ∃ s, (lts {} shop).Reachable s ∧ toldNobody {} s = true :=
    LTS.reachable_of_exec silentPaid rfl (by decide +kernel)
  obtain ⟨s, hr, hs⟩ := hrun
  simp only [toldNobody, Bool.and_eq_true, decide_eq_true_eq, List.any_eq_true, List.all_eq_true] at hs
  obtain ⟨⟨⟨hi, hstuck⟩, hdue⟩, o, ho, hpaid, hnone⟩ := hs
  intro h
  obtain ⟨e, he, hfact⟩ := (h s hr hi hstuck hdue o ho).1 hpaid
  exact hnone e he hfact

/-! ## When every event is published -/

/-- If a process does not publish what it has committed, the row shows it no
more, or the topic has the event, or another process is to publish it. -/
def keepsEvents (s : Sys) (l : Lbl) : Bool :=
  match s.loses l with
  | none => true
  | some f => f.2 = .created || committed s f < published s f + announcing s f

def keptLts (cfg : Config) (cat : Catalog.Products) : LTS Sys Lbl :=
  (lts cfg cat).restrict fun s l => keepsEvents s l = true

/-- What is committed is published or to be published. -/
def Told (s : Sys) : Prop := ∀ f : Fact, f.2 ≠ .created → committed s f ≤ published s f + announcing s f

theorem told_step {l : Lbl} (hr : (lts cfg cat).Reachable s) (I : Told s) (h : step cfg s l = some s')
    (hl : keepsEvents s l = true) : Told s' := by
  intro f' hk
  have hI := I f' hk
  have hu : Table.Unique Order.id s'.db.orders :=
    Orders.unique_ids (keys_reachable (hr.step h)).ids
  cases books_step h with
  | still ht hc ha =>
    simp only [published, ht, hc, ha]
    exact hI
  | commit e f hcom hdb ht ha =>
    have ha' := ha f'
    simp only [published, ht] at hI ⊢
    by_cases hf : f.2 = .created
    · cases hcom with
      | created i g order hg hal hp =>
        rw [committed_insert hr hg hal hp hdb, ha', if_neg (fun e => hk (congrArg Prod.snd e)),
          if_neg (fun e => hk (congrArg Prod.snd e.symm))]
        exact hI
      | _ => cases hf
    · by_cases hff : f = f'
      · -- the process that has just committed is to publish it
        have := committed_le_one hu f'
        rw [ha', if_pos hff]
        omega
      · have := hcom.others hf hff hdb
        rw [ha', if_neg hff]
        omega
  | publish f ev hev hdb ht ha =>
    have ha' := ha f'
    simp only [committed, published, hdb, ht, List.countP_append, List.countP_singleton,
      decide_eq_true_eq] at hI ⊢
    rw [hev]
    omega
  | lose f hlose hdb ht ha =>
    have ha' := ha f'
    simp only [committed, published, hdb, ht] at hI ⊢
    simp only [keepsEvents, hlose, Bool.or_eq_true, decide_eq_true_eq] at hl
    split at ha'
    · rename_i hff
      subst hff
      rcases hl with hl | hl
      · exact absurd hl hk
      · simp only [committed, published] at hl
        omega
    · omega

/-- **No lost event** in every run that loses none that is still needed. -/
theorem events_not_lost (cfg : Config) (cat : Catalog.Products) {s : Sys}
    (h : (keptLts cfg cat).Reachable s) (hi : s.idle = true) : AllAnnounced s := by
  have hT : Told s := by
    refine LTS.reachable_induct ?_ ?_ h
    · intro s hs f _; subst hs; exact Nat.zero_le _
    · intro s l s' hr I hst; exact told_step hr.unrestrict I hst.1 hst.2
  have hfact : ∀ o ∈ s.db.orders, ∀ k : EventType, k ≠ .created → k.shownBy o = true →
      ∃ e ∈ s.topic, e.fact = (o.id, k) := by
    intro o ho k hk hshow
    have h1 : 0 < committed s (o.id, k) := committed_pos.mpr ⟨o, ho, rfl, hshow⟩
    have h2 := hT (o.id, k) hk
    rw [announcing_idle hi] at h2
    obtain ⟨e, he, hef⟩ := List.countP_pos_iff.mp (show 0 < published s (o.id, k) by omega)
    exact ⟨e, he, of_decide_eq_true hef⟩
  intro o ho
  refine ⟨fun hst => hfact o ho .paid (by simp) (by simp [EventType.shownBy, hst]),
    fun hst => hfact o ho .failed (by simp) (by simp [EventType.shownBy, hst]),
    fun hd => hfact o ho .delivered (by simp) hd⟩

/-- As `silentPaid`, but the run crashes after its publish. -/
def toldInTime : List Lbl :=
  pens ++ upToCharge 0 "o1" ++ serveCharge 0 (some 1) ++
    [.saga 0 .settle, .saga 0 .commit, .saga 0 .load, .saga 0 (.publish true), .crash 0]

theorem events_not_lost_crash : ∃ s : Sys, (keptLts {} shop).Reachable s ∧
    (∃ o ∈ s.db.orders, o.status = .paid) ∧ AllAnnounced s := by
  have hrun : ∃ s, (keptLts {} shop).Reachable s ∧
      (s.idle && s.db.orders.any fun o => o.status = .paid) = true :=
    LTS.reachable_of_execG toldInTime rfl (by decide +kernel)
  obtain ⟨s, hr, hs⟩ := hrun
  obtain ⟨hi, hp⟩ := Bool.and_eq_true_iff.mp hs
  obtain ⟨o, ho, hst⟩ := List.any_eq_true.mp hp
  exact ⟨s, hr, ⟨o, ho, of_decide_eq_true hst⟩, events_not_lost {} shop hr hi⟩

end Gestalt.Checkout
