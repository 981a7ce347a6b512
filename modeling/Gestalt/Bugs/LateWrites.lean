import Gestalt.Core.WriteOnce
import Gestalt.L4Checkout.Charges
import Gestalt.L4Checkout.Statuses

/-!
# PAID and FAILED orders change status

Status: open.

Behaviour: a reconciliation pass selects its PENDING orders once and then commits
`status = FAILED` for each in turn
(services/order-service/app/reconciliation.py:34-48); `create_order` commits
`status = PAID` at its end (services/order-service/app/routers/orders.py:191-192).
Neither looks at the row again before it writes, and the UPDATE names the primary
key only. A run that is slower than `pending_order_timeout_seconds` is taken for
a crashed one.

Documented: order-service.md:33-40 gives the state machine, with transitions out
of PENDING only.

Counterexample: `slowRun`, a run over 21 lines whose reservations take 3 seconds
each, the HTTP timeout. A pass selects its order, releases the stock and commits
FAILED; then the run commits PAID. In the other order, the run commits PAID and
the pass, which had selected the order before, releases its stock and commits
FAILED.

Fix: write with `WHERE status = 'PENDING'` and look at the row count, in both
places; a pass that changed no row has nothing to release.
-/
namespace Gestalt.Checkout

open Gestalt.Orders (Order OrderStatus)

variable {cfg : Config} {cat : Catalog.Products} {s s' : Sys}

/-! ## The runs that go wrong -/

def depot : Catalog.Products := [⟨"p1", "pen", 10, 100⟩]

/-- A run of 21 slow reservations, up to its charge; a pass has selected its order. -/
def slowRun : List Lbl :=
  [.request ⟨"u1", some "k1", some (List.replicate 21 onePen)⟩, .saga 0 .select,
    .saga 0 (.resolve (.status 200 none))] ++ List.replicate 21 (.saga 0 (.price .answered)) ++
    [.saga 0 (.flush "o1"), .saga 0 .commit, .saga 0 (.publish true)] ++
    (List.replicate 21 [.tick, .tick, .tick, .saga 0 (.reserve .answered)]).flatten ++
    [.saga 0 .commit, .recon, .saga 0 (.charge none)] ++ serveCharge 0 (some 7)

/-- The pass takes the order up, releases its lines and commits FAILED. -/
def passFails : List Lbl :=
  [.pass 0 .next] ++ List.replicate 21 (.pass 0 (.release .answered)) ++ [.pass 0 .commit]

def runPays : List Lbl := [.saga 0 .settle, .saga 0 .commit]

def orderIs (st : OrderStatus) (s : Sys) : Bool := s.db.orders.map (fun o => (o.id, o.status)) = [("o1", st)]

theorem orderIs_mem {st : OrderStatus} (h : orderIs st s = true) :
    ∃ o ∈ s.db.orders, o.id = "o1" ∧ o.status = st := by
  have h : s.db.orders.map (fun o => (o.id, o.status)) = [("o1", st)] := of_decide_eq_true h
  have hm : ("o1", st) ∈ s.db.orders.map (fun o => (o.id, o.status)) := by rw [h]; simp
  obtain ⟨o, ho, he⟩ := List.mem_map.mp hm
  simp only [Prod.mk.injEq] at he
  exact ⟨o, ho, he⟩

/-- A committed status that a later commit changes. -/
def Overwritten (st st' : OrderStatus) : Prop :=
  ∃ s ls s', (lts {} depot).Reachable s ∧ (lts {} depot).Run s ls s' ∧
    (∃ o ∈ s.db.orders, o.id = "o1" ∧ o.status = st) ∧ ∃ o ∈ s'.db.orders, o.id = "o1" ∧ o.status = st'

theorem overwritten_of {st st' : OrderStatus} (before after : List Lbl)
    (h : ((LTS.exec (step {}) (start depot) before).any fun s =>
      orderIs st s && (LTS.exec (step {}) s after).any (orderIs st')) = true) : Overwritten st st' := by
  have hrun : ∃ s, (lts {} depot).Reachable s ∧
      (orderIs st s && (LTS.exec (step {}) s after).any (orderIs st')) = true :=
    LTS.reachable_of_exec before rfl h
  obtain ⟨s, hr, hs⟩ := hrun
  rw [Bool.and_eq_true] at hs
  have hrun' : ∃ s', (lts {} depot).Run s after s' ∧ orderIs st' s' = true :=
    LTS.exists_run_of_exec after hs.2
  obtain ⟨s', hr', hs'⟩ := hrun'
  exact ⟨s, after, s', hr, hr', orderIs_mem hs.1, orderIs_mem hs'⟩

/-- **Counterexample.** FAILED becomes PAID, and PAID becomes FAILED. -/
theorem terminal_status_overwritten : Overwritten .failed .paid ∧ Overwritten .paid .failed := by
  refine ⟨?_, ?_⟩
  · exact overwritten_of (slowRun ++ passFails) runPays (by decide +kernel)
  · exact overwritten_of (slowRun ++ runPays) passFails (by decide +kernel)

/-! ## When they do not -/

/-- An order's status as a write-once register: absent, PENDING, decided. -/
def statusCell (oid : String) (s : Sys) : WriteOnce.Cell OrderStatus :=
  match Orders.find s.db oid with
  | none => .absent
  | some o => if o.status = .pending then .claimed else .written o.status

theorem find_onDb {e : Eff} (h : e.inserts = false) (now : Nat) (db : Orders.Db) (oid : String) :
    Orders.find (e.onDb now db) oid = (Orders.find db oid).map fun o => e.onRow now o := by
  cases e with
  | insert order lines => cases h
  | write oid' w =>
    simp only [Eff.onDb, Eff.onRow, Orders.find_update]
    cases hf : Orders.find db oid with
    | none => simp
    | some o =>
      have ho := (Orders.find_some hf).2
      by_cases he : oid = oid'
      · simp [he, ho.trans he]
      · simp [he, ho]
  | _ => simp [Eff.onDb, Eff.onRow]

/-- A write that changes only a PENDING status is a write of the register. -/
theorem statusCell_write {oid : String} {e : Eff} (hdb : s'.db = e.onDb s.now s.db)
    (hins : e.inserts = false)
    (hkeep : ∀ o, Orders.find s.db oid = some o → o.status ≠ .pending →
      (e.onRow s.now o).status = o.status) :
    statusCell oid s' = statusCell oid s ∨
      ∃ m, (WriteOnce.lts OrderStatus).step (statusCell oid s) m (statusCell oid s') := by
  unfold statusCell
  rw [hdb, find_onDb hins]
  cases hf : Orders.find s.db oid with
  | none => exact .inl rfl
  | some o =>
    simp only [Option.map_some]
    by_cases ho : o.status = .pending
    · by_cases ho' : (e.onRow s.now o).status = .pending
      · left; simp [ho, ho']
      · right
        refine ⟨.write (e.onRow s.now o).status, ?_⟩
        simp [WriteOnce.lts, LTS.ofFn, WriteOnce.step, ho, ho']
    · left; simp [hkeep o hf ho]

/-- Under `settledPass`, every order's status is a write-once register. -/
theorem status_simulation (cfg : Config) (cat : Catalog.Products) (oid : String) :
    LTS.Simulation (settledLts cfg cat) (WriteOnce.lts OrderStatus) (statusCell oid) where
  init := by intro s hs; subst hs; rfl
  step := by
    intro s l s' hr hst
    have K := keys_reachable hr.unrestrict
    have I := statuses_reachable hr
    cases step_shape hst.1 with
    | spawn r => exact .inl rfl
    | crash i g hg => exact .inl rfl
    | pay l p hl hp => exact .inl rfl
    | run i a s' hrun =>
      cases hrun with
      | prelude g g' e hg hal hne hm =>
        cases hm with
        | committed order hp =>
          obtain ⟨-, -, ⟨hpend, -⟩, hnew⟩ := (K.saga i g hg).lock order hp hal
          unfold statusCell
          simp only [apply_db, Eff.onDb, Orders.find_insert]
          cases hf : Orders.find s.db oid with
          | some o => exact .inl rfl
          | none =>
            by_cases he : order.id = oid
            · exact .inr ⟨.claim, by simp [WriteOnce.lts, LTS.ofFn, WriteOnce.step, he, hpend]⟩
            · left; simp [he]
        | _ => exact .inl rfl
      | saga g oid' pc pc' e hg hal hp hm =>
        refine statusCell_write (apply_db s (.saga i) e) hm.inserts ?_
        intro o hf hdec
        have ho := (Orders.find_some hf).1
        by_cases hid : o.id = oid'
        · -- the run's own row: it has been decided by the run
          have hok := I i g oid' pc hg hp o ho hid
          rw [hal] at hok
          cases hout : pc.outcome with
          | none =>
            rcases hok.undecided hout with h | ⟨-, h⟩
            · exact absurd h hdec
            · cases h
          | some st =>
            rw [hok.decided st hout]
            exact (hm.status hid hok).decided st (hm.outcome hout)
        · rw [hm.onRow_other hid]
    | other l c e s' hb hpass =>
      refine statusCell_write hb.db hb.inserts ?_
      intro o hf hdec
      cases hpass with
      | recon => rfl
      | crash => rfl
      | none _ _ _ _ hsil => exact (onRow_silent hsil s.now o).1
      | pass j a p p' _ _ hj hal hm =>
        rcases (hm.onRow s.now o).2 with h | ⟨h, rfl, order, items, hpc, hid⟩
        · exact h
        · -- a pass decides: the row is not PAID, so it is FAILED already
          have hpaid := (settledPass_commit hst.2 hj hpc).2 o (by
            rw [← hid, (Orders.find_some hf).2]; exact hf)
          rw [h]
          cases hs : o.status with
          | pending => exact absurd hs hdec
          | paid => exact absurd hs hpaid
          | failed => rfl

/-- **Terminal states are absorbing** in every run in which no pass commits FAILED
for an order whose run is still undecided or whose row is PAID. -/
theorem terminal_status_stays (cfg : Config) (cat : Catalog.Products) (s s' : Sys) (ls : List Lbl)
    (hr : (settledLts cfg cat).Reachable s) (hrun : (settledLts cfg cat).Run s ls s') :
    ∀ o ∈ s.db.orders, o.status ≠ .pending → (∃ o' ∈ s'.db.orders, o'.id = o.id) ∧
      ∀ o' ∈ s'.db.orders, o'.id = o.id → o'.status = o.status := by
  intro o ho hdec
  have K := keys_reachable hr.unrestrict
  have K' := keys_reachable (hr.run hrun).unrestrict
  have hf : Orders.find s.db o.id = some o := (Orders.unique_ids K.ids).get ho
  have hw : statusCell o.id s = .written o.status := by
    unfold statusCell; rw [hf]; exact if_neg hdec
  have hw' := WriteOnce.written_stable (status_simulation cfg cat o.id) hr hrun hw
  unfold statusCell at hw'
  split at hw'
  · cases hw'
  · rename_i o1 hf1
    split at hw'
    · cases hw'
    · simp only [WriteOnce.Cell.written.injEq] at hw'
      obtain ⟨hm, hid⟩ := Orders.find_some hf1
      refine ⟨⟨o1, hm, hid⟩, fun o' ho' hid' => ?_⟩
      rw [(Orders.unique_ids K'.ids).eq ho' hm (hid'.trans hid.symm)]
      exact hw'

/-- `terminal_status_stays` where a pass does fail an order: its run crashed. -/
theorem terminal_status_stays_crashed : ∃ s s' : Sys, (∃ o ∈ s.db.orders, o.id = "o1" ∧ o.status = .failed) ∧
    ∀ o ∈ s.db.orders, o.status ≠ .pending → (∃ o' ∈ s'.db.orders, o'.id = o.id) ∧
      ∀ o' ∈ s'.db.orders, o'.id = o.id → o'.status = o.status := by
  have hrun : ∃ s, (settledLts {} depot).Reachable s ∧ (orderIs .failed s &&
      (LTS.execG (fun s l => settledPass s l = true) (step {}) s [.pass 0 .load, .tick]).isSome) = true :=
    LTS.reachable_of_execG (slowRun ++ [.crash 0] ++ passFails) rfl (by decide +kernel)
  obtain ⟨s, hr, hs⟩ := hrun
  rw [Bool.and_eq_true] at hs
  obtain ⟨s', hs'⟩ := Option.isSome_iff_exists.mp hs.2
  exact ⟨s, s', orderIs_mem hs.1, terminal_status_stays {} depot s s' _ hr (LTS.run_of_execG hs')⟩

end Gestalt.Checkout
