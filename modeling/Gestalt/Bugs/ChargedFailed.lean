import Gestalt.L4Checkout.Charges
import Gestalt.L4Checkout.Passes

/-!
# FAILED orders are charged

Status: open.

Behaviour: `clients.charge` folds a transport error and every status other than
200 into `{"charged": False}` (services/order-service/app/clients.py:95-115), and
`create_order` takes that for a decline: it releases the stock and commits FAILED
(services/order-service/app/routers/orders.py:158-168). A charge whose answer was
lost may have succeeded, or may succeed later. The reconciliation pass fails the
order of a crashed run without asking payment-service
(services/order-service/app/reconciliation.py:38-48).

Documented: 01-architecture-overview.md:90 and 102, the charge call is retried
after a timeout and then answered with the cached result; 02-api-contracts.md:71,
`GET /payments/{idempotencyKey}` is there for order-service to look a result up.
Neither is done.

Counterexample: `lostCharge`, where the charge succeeds and its answer times
out; and `crashCharged`, where the run crashes after a charge that succeeds.

Fix: on anything but 200 and 402, and in the pass, look the key up with
`GET /payments/{key}` (or charge again under it) until the outcome is known.
-/
namespace Gestalt.Checkout

open Gestalt.Orders (Db Order OrderItem Core cores linesOf)
open Gestalt.Payment (Charged Quiet)

variable {cfg : Config} {cat : Catalog.Products} {s s' : Sys}

/-! ## The runs that go wrong -/

/-- One order of two lines, charged. -/
def chargedRun : List Lbl := pens ++ upToCharge 0 "o1" ++ serveCharge 0 (some 7)

/-- The answer times out. -/
def lostCharge : List Lbl :=
  chargedRun ++ [.saga 0 (.giveUp (.httpError "ReadTimeout")), .saga 0 (.release .answered),
    .saga 0 (.release .answered), .saga 0 .commit]

/-- The run crashes, and a pass fails its order. -/
def crashCharged : List Lbl :=
  chargedRun ++ [.crash 0] ++ List.replicate 61 .tick ++ [.recon, .pass 0 .next, .pass 0 (.release .answered),
    .pass 0 (.release .answered), .pass 0 .commit]

/-- The run ends with an order that is FAILED and charged. -/
def FailedCharged (ls : List Lbl) : Prop :=
  ∃ s, (lts {} shop).Run (start shop) ls s ∧
    ∃ o ∈ s.db.orders, o.status = .failed ∧ Charged s.pay o.idempotencyKey

theorem failedCharged_of {ls : List Lbl} (h : ((LTS.exec (step {}) (start shop) ls).any fun s =>
    s.db.orders.any fun o => o.status = .failed && Charged s.pay o.idempotencyKey) = true) :
    FailedCharged ls := by
  have hrun : ∃ s, (lts {} shop).Run (start shop) ls s ∧
      (s.db.orders.any fun o => o.status = .failed && Charged s.pay o.idempotencyKey) = true :=
    LTS.exists_run_of_exec ls h
  obtain ⟨s, hr, hs⟩ := hrun
  obtain ⟨o, ho, hb⟩ := List.any_eq_true.mp hs
  obtain ⟨h1, h2⟩ := Bool.and_eq_true_iff.mp hb
  exact ⟨s, hr, o, ho, of_decide_eq_true h1, of_decide_eq_true h2⟩

/-- **Counterexample.** After a lost answer, and after a crash. -/
theorem failed_order_charged : FailedCharged lostCharge ∧ FailedCharged crashCharged :=
  ⟨failedCharged_of (by decide +kernel), failedCharged_of (by decide +kernel)⟩

/-! ## When they are not -/

/-- A live run of the order may still send its charge. -/
def Sys.mayCharge (s : Sys) (oid : String) : Bool :=
  s.sagas.any fun g => g.alive && match g.phase with
    | .saga oid' pc => oid' = oid && pc.uncharged
    | _ => false

/-- A run gives up on its charge only if the charge has not succeeded and will
not; a pass commits FAILED only if that is so and no live run may still charge. -/
def knownOutcome (s : Sys) : Lbl → Bool
  | .saga i (.giveUp _) => (s.sagas[i]?).all fun g => Quiet s.pay g.key
  | .pass j .commit =>
    match s.passes[j]? with
    | some ⟨_, _, .release order _ [], _⟩ => !s.mayCharge order.id && Quiet s.pay order.idempotencyKey
    | _ => true
  | _ => true

def knownLts (cfg : Config) (cat : Catalog.Products) : LTS Sys Lbl :=
  (lts cfg cat).restrict fun s l => knownOutcome s l = true

/-- The run takes its charge for failed. -/
def Pc.gaveBack : Pc → Bool
  | .release _ _ _ => true
  | .ended false _ => true
  | _ => false

structure Unpaid (s : Sys) : Prop where
  run : ∀ (i : Nat) (g : Saga) (oid : String) (pc : Pc), s.sagas[i]? = some g → g.phase = .saga oid pc →
    pc.gaveBack = true → Quiet s.pay g.key
  row : ∀ (i : Nat) (g : Saga) (oid : String) (pc : Pc), s.sagas[i]? = some g → g.phase = .saga oid pc →
    ∀ o ∈ s.db.orders, o.id = oid → o.status = .failed →
    Quiet s.pay g.key ∧ (g.alive = true → pc.uncharged = false)

/-- A key stays quiet unless a live run sends its charge under it. -/
theorem quiet_step {l : Lbl} {k : String} (K : Keys s.db s.sagas) (h : step cfg s l = some s')
    (hq : Quiet s.pay k) : Quiet s'.pay k ∨ ∃ (i : Nat) (g : Saga) (oid : String), s.sagas[i]? = some g ∧
      g.alive = true ∧ g.phase = .saga oid .charge ∧ g.key = k := by
  cases step_shape h with
  | run i a s' hrun =>
    cases hrun with
    | prelude g g' e hg hal hne hm =>
      left
      simp only [apply_pay]
      cases hm <;> exact hq
    | saga g oid pc pc' e hg hal hp hm =>
      simp only [apply_pay]
      rcases hm.onPay with ⟨he, -⟩ | ⟨order, hpos, hfind, rfl, -, he⟩
      · rw [he]; exact .inl hq
      · obtain ⟨hom, hoid⟩ := Orders.core_mem hfind
        have hkey : order.idempotencyKey = g.key := K.key hg hp hom hoid
        by_cases hk : g.key = k
        · exact .inr ⟨i, g, oid, hg, hal, hp, hk⟩
        · left
          have harrive : ∀ r, Payment.step cfg.payment s.pay (.arrive r) = some (s.pay.arrive r) := fun _ => rfl
          rw [he]
          refine hq.step (harrive _) fun r hr _ => ?_
          cases hr
          simpa [Payment.Req.key, hkey] using hk
  | pay l p hl hp =>
    refine .inl (hq.step hp fun r hr hc => ?_)
    subst hr
    cases r with
    | charge body => cases hl
    | getResult k' => cases hc
  | other l c e s' hb _ => rw [hb.pay]; exact .inl hq
  | _ => exact .inl hq

/-- The key of a run that is not about to charge stays quiet. -/
theorem quiet_kept {l : Lbl} (K : Keys s.db s.sagas) (h : step cfg s l = some s') {i : Nat} {g : Saga}
    {oid : String} {pc : Pc} (hg : s.sagas[i]? = some g) (hp : g.phase = .saga oid pc)
    (hn : g.alive = true → pc.uncharged = false) (hq : Quiet s.pay g.key) : Quiet s'.pay g.key := by
  rcases quiet_step K h hq with hq' | ⟨j, d, oid', hj, hal, hp', hk⟩
  · exact hq'
  · obtain ⟨-, rfl, rfl⟩ := K.run_eq_of_key hj hg hp' hp hk
    cases hn hal

/-- Where a run comes to take its charge for failed, its key is quiet. -/
theorem SagaMoves.quiet {i : Nat} {g : Saga} {oid : String} {pc pc' : Pc} {a : Act} {e : Eff}
    (hm : SagaMoves s g oid pc a pc' e) (K : Keys s.db s.sagas) (J : Payment.Inv cfg.payment s.pay)
    (C : Charges s) (hg : s.sagas[i]? = some g) (hp : g.phase = .saga oid pc)
    (hl : knownOutcome s (.saga i a) = true) (hpc' : pc'.gaveBack = true)
    (hbefore : pc.gaveBack = true → Quiet s.pay g.key) : Quiet s.pay g.key := by
  -- a run that has sent no charge
  have hfresh : pc.uncharged = true → Quiet s.pay g.key := fun hun =>
    Payment.quiet_of_fresh J (C.fresh K hg hp hun)
  cases hm with
  | refused held l todo d reason => exact hfresh rfl
  | unsent order f reason => exact hfresh rfl
  | declined j call answer reason hcall hdone hok =>
    obtain ⟨c, body, hc, hreq, hbk⟩ := C.await i g oid j hg hp
    rw [hcall, Option.some.injEq] at hc; subst hc
    have hck : call.key = g.key := by simp [Payment.Call.key, Payment.Req.key, hreq, hbk]
    rw [← hck]
    refine Payment.quiet_declined J hcall hdone hok fun j' c' hj' hreq' hk => ?_
    -- the order's only charge call
    cases hr' : c'.req with
    | getResult k => rw [hr'] at hreq'; cases hreq'
    | charge body' =>
      refine C.once j' j c' call body' body hj' hcall hr' hreq ?_
      rw [hbk, ← hck, ← hk]
      simp [Payment.Call.key, Payment.Req.key, hr']
  | gaveUp j f reason =>
    simp only [knownOutcome, hg, Option.all_some, decide_eq_true_eq] at hl
    exact hl
  | released b l todo reason d => exact hbefore rfl
  | failed b reason => exact hbefore rfl
  | loaded b => cases b <;> first | exact hbefore rfl | cases hpc'
  | announced b => cases b <;> first | exact hbefore rfl | cases hpc'
  | cleared b => cases b <;> first | exact hbefore rfl | cases hpc'
  | _ => cases hpc'

theorem unpaid_run_step {l : Lbl} (hs : (lts cfg cat).Reachable s) (I : Unpaid s)
    (hl : knownOutcome s l = true) (h : step cfg s l = some s') {i : Nat} {g' : Saga} {oid : String} {pc' : Pc}
    (hg' : s'.sagas[i]? = some g') (hp' : g'.phase = .saga oid pc') (hpc' : pc'.gaveBack = true) :
    Quiet s'.pay g'.key := by
  have K := keys_reachable hs
  have hidle : pc'.uncharged = false := by cases pc' <;> first | rfl | cases hpc'
  -- a run that stays where it is
  have hsame : s.sagas[i]? = some g' → Quiet s'.pay g'.key := fun hg =>
    quiet_kept K h hg hp' (fun _ => hidle) (I.run i g' oid pc' hg hp' hpc')
  cases step_shape h with
  | spawn r =>
    rcases Procs.spawn_cases hg' with hg | ⟨-, rfl⟩
    · exact hsame hg
    · cases hp'
  | run j a s' hrun =>
    cases hrun with
    | prelude g g1 e hg hal hne hm =>
      rcases Procs.set_cases hg hg' with ⟨rfl, rfl⟩ | ⟨-, hj⟩
      · cases hm with
        | committed order hpc => cases hp'; cases hpc'
        | _ => cases hp'
      · exact hsame hj
    | saga g oid' pc pc1 e hg hal hp hm =>
      rcases Procs.set_cases hg hg' with ⟨rfl, rfl⟩ | ⟨-, hj⟩
      · cases hp'
        have hq := hm.quiet K (payment_inv_reachable hs) (charges_reachable hs) hg hp hl hpc'
          (I.run i g oid pc hg hp)
        have hkey : ({ g with phase := .saga oid pc' } : Saga).key = g.key := rfl
        rw [hkey]
        rcases quiet_step K h hq with hq' | ⟨k, d, oid', hk, -, hpk, hkk⟩
        · exact hq'
        · -- the run is the one that charges: it does not give up in that step
          obtain ⟨-, -, rfl⟩ := K.run_eq_of_key hk hg hpk hp hkk
          simp only [apply_pay]
          rcases hm.onPay with ⟨he, -⟩ | ⟨order, hpos, -, -, rfl, -⟩
          · rw [he]; exact hq
          · cases hpc'
      · exact hsame hj
  | crash j g hg =>
    rcases Procs.set_cases hg hg' with ⟨rfl, rfl⟩ | ⟨-, hj⟩
    · exact I.run i g oid pc' hg hp' hpc'
    · exact hsame hj
  | pay l p hl hp => exact hsame hg'
  | other l c e s' hb _ => exact hsame (hb.sagas ▸ hg')

/-- What the condition says of the order a pass fails. -/
theorem knownOutcome_commit {j : Nat} {q : Pass} {order : Order} {items : List OrderItem}
    (h : knownOutcome s (.pass j .commit) = true) (hj : s.passes[j]? = some q)
    (hpc : q.pc = .release order items []) :
    Quiet s.pay order.idempotencyKey ∧ ∀ (i : Nat) (g : Saga) (pc : Pc), s.sagas[i]? = some g →
      g.phase = .saga order.id pc → g.alive = true → pc.uncharged = false := by
  obtain ⟨snap, todo, pc, alive⟩ := q
  simp only at hpc
  subst hpc
  simp only [knownOutcome, hj, Bool.and_eq_true, Bool.not_eq_true', decide_eq_true_eq] at h
  refine ⟨h.2, fun i g pc hg hp hal => ?_⟩
  have := List.any_eq_false.mp h.1 g (List.mem_of_getElem? hg)
  simpa [hal, hp] using this

theorem unpaid_row_step {l : Lbl} (hs : (lts cfg cat).Reachable s) (I : Unpaid s)
    (hl : knownOutcome s l = true) (h : step cfg s l = some s') {i : Nat} {g' : Saga} {oid : String} {pc' : Pc}
    (hg' : s'.sagas[i]? = some g') (hp' : g'.phase = .saga oid pc') {o' : Order} (ho' : o' ∈ s'.db.orders)
    (hid' : o'.id = oid) (hst' : o'.status = .failed) :
    Quiet s'.pay g'.key ∧ (g'.alive = true → pc'.uncharged = false) := by
  have K := keys_reachable hs
  have K' := keys_reachable (hs.step h)
  have hold : ∀ o ∈ s.db.orders, o.id = oid → ∃ g pc, s.sagas[i]? = some g ∧ RunFrom s g oid pc g' pc' :=
    fun o ho hid => hid ▸ run_before K h hg' (hid ▸ hp') ho
  have hkeep : ∀ g pc, s.sagas[i]? = some g → RunFrom s g oid pc g' pc' → Quiet s.pay g.key →
      (g.alive = true → pc.uncharged = false) →
      Quiet s'.pay g'.key ∧ (g'.alive = true → pc'.uncharged = false) := by
    intro g pc hg hfrom hq hun
    have hkey : g'.key = g.key := by unfold Saga.key; rw [hfrom.req]
    refine ⟨hkey ▸ quiet_kept K h hg hfrom.phase hun hq, fun hal => ?_⟩
    cases ha : g.alive with
    | false =>
      rw [hfrom.dead ha, ha] at hal; cases hal
    | true =>
      rcases hfrom.moves with rfl | ⟨a, e, hm⟩
      · exact hun ha
      · exact hm.uncharged (hun ha)
  cases row_step K h ho' with
  | new hpend => rw [hpend] at hst'; cases hst'
  | kept o ho hid hst =>
    obtain ⟨g, pc, hg, hfrom⟩ := hold o ho (hid.trans hid')
    obtain ⟨hq, hun⟩ := I.row i g oid pc hg hfrom.phase o ho (hid.trans hid') (hst.trans hst')
    exact hkeep g pc hg hfrom hq hun
  | run k g pc pc1 a e o hg hal hp hm hg1 ho he =>
    subst he
    rw [onRow_id] at hid'
    subst hid'
    obtain ⟨rfl, rfl, rfl⟩ := K'.run_eq hg1 hg' rfl hp'
    have hfrom : RunFrom s g o.id pc { g with phase := .saga o.id pc1 } pc1 :=
      ⟨hp, rfl, fun hd => absurd hal (by simp [hd]), .inr ⟨a, e, hm⟩⟩
    -- FAILED before, or the run's commit of FAILED
    have hbefore : o.status = .failed → Quiet s'.pay g.key ∧ (g.alive = true → pc1.uncharged = false) := by
      intro hf
      obtain ⟨hq, hun⟩ := I.row k g o.id pc hg hp o ho rfl hf
      exact hkeep g pc hg hfrom hq hun
    cases hm with
    | failed b reason =>
      exact hkeep g _ hg hfrom (I.run k g o.id _ hg hp rfl) fun _ => rfl
    | marked held => exact hbefore (by simpa [Eff.onRow] using hst')
    | paid => simp [Eff.onRow] at hst'
    | _ => exact hbefore hst'
  | pass j q order items o hl' hj hpc ho hid hoid hst hres =>
    subst hl'
    obtain ⟨hq, hun⟩ := knownOutcome_commit hl hj hpc
    have hoo : oid = order.id := hid'.symm.trans (hid.symm.trans hoid)
    subst hoo
    obtain ⟨g, pc, hg, hfrom⟩ := hold o ho hoid
    -- the pass works on the run's own order
    have hkey : order.idempotencyKey = g.key := by
      obtain ⟨hmem, -⟩ := (passes_reachable hs j q hj).work order items [] hpc
      exact K.key hg hfrom.phase hmem rfl
    exact hkeep g pc hg hfrom (hkey ▸ hq) (hun i g pc hg hfrom.phase)

theorem unpaid_reachable (h : (knownLts cfg cat).Reachable s) : Unpaid s := by
  refine LTS.reachable_induct ?_ ?_ h
  · intro s hs; subst hs
    refine ⟨fun i g oid pc hg => ?_, fun i g oid pc hg => ?_⟩
    · simp [start] at hg
    · simp [start] at hg
  · intro s l s' hr I hst
    refine ⟨fun i g oid pc hg hp hpc => ?_, fun i g oid pc hg hp o ho hid hst' => ?_⟩
    · exact unpaid_run_step hr.unrestrict I hst.2 hst.1 hg hp hpc
    · exact unpaid_row_step hr.unrestrict I hst.2 hst.1 hg hp ho hid hst'

/-- **FAILED means not charged**, in every run in which a run gives up on its
charge only if the charge has not succeeded and will not, and a pass commits
FAILED only if that is so and no live run may still charge. -/
theorem failed_not_charged (cfg : Config) (cat : Catalog.Products) (s : Sys)
    (h : (knownLts cfg cat).Reachable s) :
    ∀ o ∈ s.db.orders, o.status = .failed → ¬ Charged s.pay o.idempotencyKey := by
  intro o ho hst
  have K := keys_reachable h.unrestrict
  have hmem := Orders.mem_core ho
  obtain ⟨i, g, pc, hg, hp⟩ := K.owner o.core hmem
  have hkey : o.idempotencyKey = g.key := K.key hg hp hmem rfl
  rw [hkey]
  exact ((unpaid_reachable h).row i g o.id pc hg hp o ho rfl hst).1.1

/-- Two FAILED orders, neither charged: payment-service declined the one, and lost
its process before it charged the other. -/
def declinedAndLost : List Lbl :=
  twoOrders ++ penAndInk "k3" ++ upToCharge 2 "o3" ++ [.pay (.crash 2), .saga 2 (.giveUp (.httpError "RemoteProtocolError")),
      .saga 2 (.release .answered), .saga 2 (.release .answered), .saga 2 .commit]

/-- `failed_not_charged` after `declinedAndLost`. -/
theorem failed_not_charged_twice : ∃ s : Sys, s.db.orders.map Order.status = [.paid, .failed, .failed] ∧
    ∀ o ∈ s.db.orders, o.status = .failed → ¬ Charged s.pay o.idempotencyKey := by
  have hrun : ∃ s, (knownLts {} shop).Reachable s ∧
      decide (s.db.orders.map Order.status = [.paid, .failed, .failed]) = true :=
    LTS.reachable_of_execG declinedAndLost rfl (by decide +kernel)
  obtain ⟨s, hr, hs⟩ := hrun
  exact ⟨s, of_decide_eq_true hs, failed_not_charged {} shop s hr⟩

end Gestalt.Checkout
