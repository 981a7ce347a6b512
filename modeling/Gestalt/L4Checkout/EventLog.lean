import Gestalt.L4Checkout.Announce
import Gestalt.L4Checkout.Charges
import Gestalt.L4Checkout.Statuses

/-!
# The event log of an order

The setting (`oneLoop`): one reconciliation loop, whose passes select only orders
whose run has crashed, and one delivery loop; a pass starts when the one before
it is over, finished or crashed. Runs and passes crash anywhere, and a publish
may be lost.

There each commit is the first of its fact: it makes the order's row show one
thing more and takes nothing back (`Counts`). So the books balance: what is
published and what is to be published is committed (`Backed`), and what is
committed is so once.
-/
namespace Gestalt.Checkout

open Gestalt.Orders (Db Order OrderItem OrderStatus cores)

variable {cfg : Config} {cat : Catalog.Products} {s s' : Sys}

/-! ## The setting -/

/-- One reconciliation loop, which selects crashed runs' orders, and one delivery loop. -/
def oneLoop (cfg : Config) (s : Sys) : Lbl → Bool
  | .recon => s.passes.all Pass.over && (stuck cfg.order s).all fun o => s.crashed o.id
  | .deliver => s.deliveries.all DeliveryPass.over
  | _ => true

def loopsLts (cfg : Config) (cat : Catalog.Products) : LTS Sys Lbl :=
  (lts cfg cat).restrict fun s l => oneLoop cfg s l = true

/-! ## What the passes have selected -/

/-- The order's row is PENDING. -/
structure Pending (s : Sys) (oid : String) : Prop where
  created : 0 < committed s (oid, .created)
  paid : committed s (oid, .paid) = 0
  failed : committed s (oid, .failed) = 0

/-- The order is PENDING and its run has crashed. -/
structure Abandoned (s : Sys) (oid : String) : Prop where
  pending : Pending s oid
  crashed : s.crashed oid = true

/-- The order is PAID and not delivered. -/
structure Deliverable (s : Sys) (oid : String) : Prop where
  paid : 0 < committed s (oid, .paid)
  undelivered : committed s (oid, .delivered) = 0

structure PassScope (s : Sys) (p : Pass) : Prop where
  todo : ∀ oid ∈ p.todo, Abandoned s oid
  snap : ∀ oid ∈ p.todo, ∀ o, Orders.find p.snap oid = some o → o.status = .pending
  work : ∀ order items rest, p.pc = .release order items rest →
    Abandoned s order.id ∧ order.status = .pending

structure DeliveryScope (s : Sys) (p : DeliveryPass) : Prop where
  todo : ∀ oid ∈ p.todo, Deliverable s oid
  snap : ∀ oid ∈ p.todo, ∀ o, Orders.find p.snap oid = some o → o.delivered = false
  work : ∀ order items at_, p.pc = .commit order items at_ →
    Deliverable s order.id ∧ order.delivered = false ∧ order.id ∉ p.todo
  once : p.todo.Nodup

structure Loops (s : Sys) : Prop where
  scope : ∀ (j : Nat) (p : Pass), s.passes[j]? = some p → p.over = false → PassScope s p
  one : ∀ (i j : Nat) (p q : Pass), s.passes[i]? = some p → s.passes[j]? = some q →
    p.over = false → q.over = false → i = j
  deliveryScope : ∀ (j : Nat) (p : DeliveryPass), s.deliveries[j]? = some p → p.over = false →
    DeliveryScope s p
  oneDelivery : ∀ (i j : Nat) (p q : DeliveryPass), s.deliveries[i]? = some p →
    s.deliveries[j]? = some q → p.over = false → q.over = false → i = j

theorem pending_iff (hu : Table.Unique Order.id s.db.orders) {o : Order} (ho : o ∈ s.db.orders) :
    Pending s o.id ↔ o.status = .pending := by
  have hrow := committed_row hu ho
  constructor
  · intro h
    have h1 := h.paid
    have h2 := h.failed
    rw [hrow] at h1 h2
    cases hst : o.status with
    | pending => rfl
    | paid => simp [EventType.shownBy, hst] at h1
    | failed => simp [EventType.shownBy, hst] at h2
  · intro h
    refine ⟨?_, ?_, ?_⟩ <;> rw [hrow] <;> simp [EventType.shownBy, h]

theorem Pending.row {oid : String} (h : Pending s oid) : ∃ o ∈ s.db.orders, o.id = oid := by
  obtain ⟨o, ho, hid, -⟩ := committed_pos.mp h.created
  exact ⟨o, ho, hid⟩

theorem deliverable_of (hu : Table.Unique Order.id s.db.orders) {o : Order} (ho : o ∈ s.db.orders)
    (hp : o.status = .paid) (hd : o.delivered = false) : Deliverable s o.id := by
  have hrow := committed_row hu ho
  refine ⟨?_, ?_⟩ <;> rw [hrow] <;> simp [EventType.shownBy, hp, hd]

theorem Deliverable.row (hu : Table.Unique Order.id s.db.orders) {oid : String}
    (h : Deliverable s oid) :
    ∃ o ∈ s.db.orders, o.id = oid ∧ o.status = .paid ∧ o.delivered = false := by
  obtain ⟨o, ho, hid, hp⟩ := committed_pos.mp h.paid
  refine ⟨o, ho, hid, of_decide_eq_true hp, ?_⟩
  have := h.undelivered
  simp only at hid
  rw [← hid, committed_row hu ho] at this
  cases hd : o.delivered with
  | false => rfl
  | true => simp [EventType.shownBy, hd] at this

/-! ## Each commit is the first -/

inductive Counts (s : Sys) (l : Lbl) (s' : Sys) : Prop
  | same : (∀ f, committed s' f = committed s f) → Counts s l s'
  | adds (e : Eff) (f : Fact) : Commits s l e f →
      (∀ f', committed s' f' = committed s f' + if f = f' then 1 else 0) → Counts s l s'

/-- The row of a live run that has not decided. -/
theorem undecided_row (hr : (lts cfg cat).Reachable s) (S : AtRow StatusOk s) {i : Nat} {g : Saga}
    {oid : String} {pc : Pc} (hg : s.sagas[i]? = some g) (hal : g.alive = true)
    (hp : g.phase = .saga oid pc) (hn : pc.outcome = none) :
    ∃ o ∈ s.db.orders, o.id = oid ∧ o.status = .pending := by
  obtain ⟨c, hc, hid, -⟩ := ((keys_reachable hr).saga i g hg).own oid pc hp
  obtain ⟨o, ho, rfl⟩ := Orders.mem_cores.mp hc
  have hok := S i g oid pc hg hp o ho hid
  rw [hal] at hok
  exact ⟨o, ho, hid, hok.pending hn⟩

/-- A live pass that is at an order is not over. -/
theorem Pass.working {p : Pass} (hal : p.alive = true) (hpc : p.pc ≠ .next) : p.over = false := by
  simp [Pass.over, hal, hpc]

theorem DeliveryPass.working {p : DeliveryPass} (hal : p.alive = true) (hpc : p.pc ≠ .next) :
    p.over = false := by
  simp [DeliveryPass.over, hal, hpc]

/-- The commit is the first of its fact, and takes no other back. -/
theorem commit_adds {l : Lbl} {e : Eff} {f : Fact} (hr : (lts cfg cat).Reachable s)
    (S : AtRow StatusOk s) (L : Loops s) (hcom : Commits s l e f) (hdb : s'.db = e.onDb s.now s.db)
    (f' : Fact) : committed s' f' = committed s f' + if f = f' then 1 else 0 := by
  have hu := Orders.unique_ids (keys_reachable hr).ids
  cases hcom with
  | created i g order hg hal hp =>
    rw [committed_insert hr hg hal hp hdb f']
    simp only [eq_comm]
  | paid i g oid hg hal hp =>
    obtain ⟨o, ho, rfl, hst⟩ := undecided_row hr S hg hal hp rfl
    refine write_adds hu ho hdb ?_ (by simp [EventType.shownBy, hst]) f'
    intro k'
    cases k' <;> simp [EventType.shownBy, hst, Order.set]
  | failed i g oid b reason hg hal hp =>
    obtain ⟨o, ho, rfl, hst⟩ := undecided_row hr S hg hal hp rfl
    refine write_adds hu ho hdb ?_ (by simp [EventType.shownBy, hst]) f'
    intro k'
    cases k' <;> simp [EventType.shownBy, hst, Order.set, failing]
  | overdue j p order items hj hal hpc =>
    obtain ⟨hab, hord⟩ := (L.scope j p hj (p.working hal (by simp [hpc]))).work order items [] hpc
    obtain ⟨o, ho, hid⟩ := hab.pending.row
    have hst : o.status = .pending := (pending_iff hu ho).mp (hid ▸ hab.pending)
    rw [← hid] at hdb ⊢
    refine write_adds hu ho hdb ?_ (by simp [EventType.shownBy, hst]) f'
    intro k'
    cases k' <;> simp [EventType.shownBy, hst, hord, Order.set, overdue]
  | delivered j p order items at_ hj hal hpc =>
    obtain ⟨hdl, hord, -⟩ :=
      (L.deliveryScope j p hj (p.working hal (by simp [hpc]))).work order items at_ hpc
    obtain ⟨o, ho, hid, hst, hdel⟩ := hdl.row hu
    rw [← hid] at hdb ⊢
    refine write_adds hu ho hdb ?_ (by simp [EventType.shownBy, hdel]) f'
    intro k'
    cases k' <;> simp [EventType.shownBy, hst, hord, hdel, Order.set]

theorem counts_step {l : Lbl} (hr : (lts cfg cat).Reachable s) (S : AtRow StatusOk s) (L : Loops s)
    (h : step cfg s l = some s') : Counts s l s' := by
  cases books_step h with
  | still _ hc _ => exact .same hc
  | publish f ev _ hdb => exact .same fun f => by unfold committed; rw [hdb]
  | lose f _ hdb => exact .same fun f => by unfold committed; rw [hdb]
  | commit e f hcom hdb => exact .adds e f hcom (commit_adds hr S L hcom hdb)

theorem Counts.le {l : Lbl} (h : Counts s l s') (f : Fact) : committed s f ≤ committed s' f := by
  cases h with
  | same hc => rw [hc]
  | adds e f' _ hc => rw [hc]; omega

/-- A row stays PENDING unless a status is committed for it. -/
theorem Pending.step {l : Lbl} {oid : String} (hp : Pending s oid) (h : Counts s l s')
    (hpaid : ∀ e, ¬ Commits s l e (oid, .paid)) (hfailed : ∀ e, ¬ Commits s l e (oid, .failed)) :
    Pending s' oid := by
  have hc : ∀ k, k = .paid ∨ k = .failed → committed s' (oid, k) = committed s (oid, k) := by
    intro k hk
    cases h with
    | same hc => exact hc _
    | adds e f hcom hc =>
      rw [hc, if_neg, Nat.add_zero]
      intro hf
      subst hf
      rcases hk with rfl | rfl
      · exact hpaid e hcom
      · exact hfailed e hcom
  exact ⟨Nat.lt_of_lt_of_le hp.created (h.le _), (hc _ (.inl rfl)).trans hp.paid,
    (hc _ (.inr rfl)).trans hp.failed⟩

theorem Deliverable.step {l : Lbl} {oid : String} (hd : Deliverable s oid) (h : Counts s l s')
    (hn : ∀ e, ¬ Commits s l e (oid, .delivered)) : Deliverable s' oid := by
  refine ⟨Nat.lt_of_lt_of_le hd.paid (h.le _), ?_⟩
  cases h with
  | same hc => rw [hc]; exact hd.undelivered
  | adds e f hcom hc =>
    rw [hc, if_neg, hd.undelivered]
    intro hf
    subst hf
    exact hn e hcom

/-! ## What the passes have selected stays so -/

/-- A run that has crashed stays crashed. -/
theorem crashed_step {l : Lbl} (K : Keys s.db s.sagas) (h : step cfg s l = some s') {o : Order}
    (ho : o ∈ s.db.orders) (hc : s.crashed o.id = true) : s'.crashed o.id = true := by
  refine List.all_eq_true.mpr ?_
  intro g' hg'
  obtain ⟨i, hi⟩ := List.mem_iff_getElem?.mp hg'
  cases hp : g'.phase with
  | saga oid pc' =>
    by_cases hid : oid = o.id
    · subst hid
      obtain ⟨g, pc, hg, hfrom⟩ := run_before K h hi hp ho
      have hdead := crashed_run hc hg hfrom.phase
      rw [hfrom.dead hdead, hdead]; rfl
    · simp [hid]
  | _ => simp

/-- Only a pass commits FAILED for an order whose run has crashed. -/
theorem Abandoned.step {l : Lbl} {oid : String} (hr : (lts cfg cat).Reachable s)
    (hab : Abandoned s oid) (h : step cfg s l = some s') (hC : Counts s l s')
    (hn : ∀ j p order items, l = .pass j .commit → s.passes[j]? = some p → p.alive = true →
      p.pc = .release order items [] → order.id ≠ oid) : Abandoned s' oid := by
  obtain ⟨o, ho, hid⟩ := hab.pending.row
  refine ⟨hab.pending.step hC ?_ ?_, ?_⟩
  · intro e hcom
    cases hcom with
    | paid i g _ hg hal hp =>
      rw [crashed_run hab.crashed hg hp] at hal
      cases hal
  · intro e hcom
    generalize hf : (oid, EventType.failed) = f at hcom
    cases hcom with
    | failed i g _ b reason hg hal hp =>
      cases hf
      rw [crashed_run hab.crashed hg hp] at hal
      cases hal
    | overdue j p order items hj hal hpc =>
      exact hn j p order items rfl hj hal hpc (congrArg Prod.fst hf).symm
    | _ => cases hf
  · have := hab.crashed
    rw [← hid] at this ⊢
    exact crashed_step (keys_reachable hr) h ho this

/-- Where a pass comes from. -/
inductive PassFrom (cfg : Config) (s : Sys) (l : Lbl) (j : Nat) (p' : Pass) : Prop
  | same : s.passes[j]? = some p' → (∀ a, l ≠ .pass j a) → PassFrom cfg s l j p'
  | new : l = .recon → j = s.passes.length →
      p' = ⟨s.db, (stuck cfg.order s).map Order.id, .next, true⟩ → PassFrom cfg s l j p'
  | moved (a : Act) (p : Pass) (e : Eff) : l = .pass j a → s.passes[j]? = some p → p.alive = true →
      PassMoves s p a p' e → PassFrom cfg s l j p'
  | crashed : p'.alive = false → PassFrom cfg s l j p'

theorem pass_from {l : Lbl} (h : step cfg s l = some s') {j : Nat} {p' : Pass}
    (hj : s'.passes[j]? = some p') : PassFrom cfg s l j p' := by
  have hsame : s'.passes = s.passes → (∀ a, l ≠ .pass j a) → PassFrom cfg s l j p' :=
    fun hp hl => .same (hp ▸ hj) hl
  cases step_shape h with
  | run i a s' hrun =>
    cases hrun with
    | prelude g g' e => exact hsame (apply_passes s (.saga i) e) (by simp)
    | saga g oid pc pc' e => exact hsame (apply_passes s (.saga i) e) (by simp)
  | other l c e s' hb hpass =>
    cases hpass with
    | recon _ _ hp =>
      rw [hp] at hj
      rcases Procs.spawn_cases hj with hj | ⟨hlast, rfl⟩
      · exact .same hj (by simp)
      · exact .new rfl hlast rfl
    | crash k q _ _ hq hp =>
      rw [hp] at hj
      rcases Procs.set_cases hq hj with ⟨-, rfl⟩ | ⟨-, hj⟩
      · exact .crashed rfl
      · exact .same hj (by simp)
    | pass k a q q' _ _ hq hal hm hp =>
      rw [hp] at hj
      rcases Procs.set_cases hq hj with ⟨rfl, rfl⟩ | ⟨hne, hj⟩
      · exact .moved a q e rfl hq hal hm
      · exact .same hj (by simpa using Ne.symm hne)
    | none _ _ _ _ hsil hp =>
      by_cases hl : ∃ a, l = .pass j a
      · obtain ⟨a, rfl⟩ := hl
        obtain ⟨p, q, e, hq, hal, hm, rfl⟩ := step_pass h
        rcases Procs.set_cases hq hj with ⟨-, rfl⟩ | ⟨hne, -⟩
        · exact .moved a p e rfl hq hal hm
        · exact absurd rfl hne
      · exact hsame hp fun a ha => hl ⟨a, ha⟩
  | _ => exact hsame rfl (by simp)

/-- Where a delivery pass comes from. -/
inductive DeliveryFrom (cfg : Config) (s : Sys) (l : Lbl) (j : Nat) (p' : DeliveryPass) : Prop
  | same : s.deliveries[j]? = some p' → (∀ a, l ≠ .delivery j a) → DeliveryFrom cfg s l j p'
  | new : l = .deliver → j = s.deliveries.length →
      p' = ⟨s.db, (due cfg.order s).map Order.id, .next, true⟩ → DeliveryFrom cfg s l j p'
  | moved (a : Act) (p : DeliveryPass) (e : Eff) : l = .delivery j a → s.deliveries[j]? = some p →
      p.alive = true → DeliveryMoves s p a p' e → DeliveryFrom cfg s l j p'
  | crashed : p'.alive = false → DeliveryFrom cfg s l j p'

theorem delivery_from {l : Lbl} (h : step cfg s l = some s') {j : Nat} {p' : DeliveryPass}
    (hj : s'.deliveries[j]? = some p') : DeliveryFrom cfg s l j p' := by
  cases l with
  | saga i a =>
    refine .same ?_ (by simp)
    cases step_saga h with
    | prelude g g' e => simpa using hj
    | saga g oid pc pc' e => simpa using hj
  | pass k a =>
    obtain ⟨p, p', e, -, -, -, rfl⟩ := step_pass h
    exact .same (by simpa using hj) (by simp)
  | deliver =>
    simp only [step, Option.some.injEq] at h; subst h
    rcases Procs.spawn_cases hj with hj | ⟨hlast, rfl⟩
    · exact .same hj (by simp)
    · exact .new rfl hlast rfl
  | delivery k a =>
    obtain ⟨p, q, e, hq, hal, hm, rfl⟩ := step_delivery h
    rcases Procs.set_cases hq hj with ⟨rfl, rfl⟩ | ⟨hne, hj⟩
    · exact .moved a p e rfl hq hal hm
    · exact .same hj (by simpa using Ne.symm hne)
  | crashDelivery k =>
    simp only [step, Option.map_eq_some_iff] at h
    obtain ⟨p, hk, rfl⟩ := h
    rcases Procs.set_cases hk hj with ⟨-, rfl⟩ | ⟨-, hj⟩
    · exact .crashed rfl
    · exact .same hj (by simp)
  | crash i | crashPass k =>
    simp only [step, Option.map_eq_some_iff] at h
    obtain ⟨p, -, rfl⟩ := h
    exact .same hj (by simp)
  | pay l =>
    simp only [step] at h
    split at h
    · obtain ⟨p, -, rfl⟩ := Option.map_eq_some_iff.mp h
      exact .same hj (by simp)
    · cases h
  | request r | recon | cart u lines | tick =>
    simp only [step, Option.some.injEq] at h; subst h
    exact .same hj (by simp)

theorem PassMoves.was_working {p p' : Pass} {a : Act} {e : Eff} (hal : p.alive = true)
    (h : PassMoves s p a p' e) : p.over = false := by
  cases h with
  | took oid rest order hpc ht hf => simp [Pass.over, hal, ht]
  | released order items i todo d hpc => exact p.working hal (by simp [hpc])
  | failed order items hpc => exact p.working hal (by simp [hpc])
  | loaded oid items order hpc hf => exact p.working hal (by simp [hpc])
  | announced order items logged hpc => exact p.working hal (by simp [hpc])
  | cleared order items d hpc => exact p.working hal (by simp [hpc])

theorem DeliveryMoves.was_working {p p' : DeliveryPass} {a : Act} {e : Eff} (hal : p.alive = true)
    (h : DeliveryMoves s p a p' e) : p.over = false := by
  cases h with
  | took oid rest order hpc ht hf => simp [DeliveryPass.over, hal, ht]
  | marked order items at_ hpc => exact p.working hal (by simp [hpc])
  | loaded oid items at_ order hpc hf => exact p.working hal (by simp [hpc])
  | announced order items at_ logged hpc => exact p.working hal (by simp [hpc])

/-- The pass that moves, and what it has yet to do. -/
theorem PassScope.move {j : Nat} {a : Act} {p p' : Pass} {e : Eff} (hr : (lts cfg cat).Reachable s)
    (hp : PassScope s p) (hj : s.passes[j]? = some p) (hm : PassMoves s p a p' e)
    (h : step cfg s (.pass j a) = some s') (hC : Counts s (.pass j a) s') : PassScope s' p' := by
  have hu := Orders.unique_ids (keys_reachable hr).ids
  have hok := passes_reachable hr j p hj
  -- an order on its list is not the one it commits
  have hlist : ∀ oid ∈ p.todo, Abandoned s' oid := by
    intro oid hoid
    refine (hp.todo oid hoid).step hr h hC ?_
    intro k q order items hl hk _ hpc hid
    cases hl
    rw [hj, Option.some.injEq] at hk
    subst hk
    exact hok.once.2 order items [] hpc (hid ▸ hoid)
  cases hm with
  | took oid rest order hpc ht hf =>
    have hmem : oid ∈ p.todo := by rw [ht]; exact List.mem_cons_self
    refine ⟨fun x hx => hlist x (by rw [ht]; exact List.mem_cons_of_mem _ hx),
      fun x hx => hp.snap x (by rw [ht]; exact List.mem_cons_of_mem _ hx), ?_⟩
    intro order' items rest' hpc'
    simp only [takeUp, PassPc.release.injEq] at hpc'
    obtain ⟨rfl, -, -⟩ := hpc'
    have hid := (Orders.find_some hf).2
    exact ⟨hid ▸ hlist oid hmem, hp.snap oid hmem order hf⟩
  | released order items i todo d hpc =>
    refine ⟨hlist, hp.snap, ?_⟩
    intro order' items' rest' hpc'
    cases hpc'
    obtain ⟨hab, hst⟩ := hp.work order items (i :: todo) hpc
    exact ⟨hab.step hr h hC (by simp), hst⟩
  | loaded oid items order hpc hf =>
    refine ⟨hlist, ?_, by simp⟩
    intro x hx o ho
    obtain ⟨hmem, hid⟩ := Orders.find_some ho
    exact (pending_iff hu hmem).mp (hid ▸ (hp.todo x hx).pending)
  | _ => exact ⟨hlist, hp.snap, by simp⟩

theorem DeliveryScope.move {j : Nat} {a : Act} {p p' : DeliveryPass} {e : Eff}
    (hr : (lts cfg cat).Reachable s) (hp : DeliveryScope s p) (hj : s.deliveries[j]? = some p)
    (hm : DeliveryMoves s p a p' e) (hC : Counts s (.delivery j a) s') : DeliveryScope s' p' := by
  have hu := Orders.unique_ids (keys_reachable hr).ids
  have hlist : ∀ oid ∈ p.todo, Deliverable s' oid := by
    intro oid hoid
    refine (hp.todo oid hoid).step hC ?_
    intro e hcom
    generalize hl : Lbl.delivery j a = l at hcom
    generalize hf : (oid, EventType.delivered) = f at hcom
    cases hcom with
    | delivered k q order items at_ hk _ hpc =>
      cases hl
      rw [hj, Option.some.injEq] at hk
      subst hk
      obtain rfl : oid = order.id := congrArg Prod.fst hf
      exact (hp.work order items at_ hpc).2.2 hoid
    | _ => cases hf
  cases hm with
  | took oid rest order hpc ht hf =>
    have hmem : oid ∈ p.todo := by rw [ht]; exact List.mem_cons_self
    obtain ⟨hnot, hnd⟩ := List.nodup_cons.mp (ht ▸ hp.once)
    refine ⟨fun x hx => hlist x (by rw [ht]; exact List.mem_cons_of_mem _ hx),
      fun x hx => hp.snap x (by rw [ht]; exact List.mem_cons_of_mem _ hx), ?_, hnd⟩
    intro order' items at_ hpc'
    cases hpc'
    have hid := (Orders.find_some hf).2
    exact ⟨hid ▸ hlist oid hmem, hp.snap oid hmem order hf, hid ▸ hnot⟩
  | loaded oid items at_ order hpc hf =>
    refine ⟨hlist, ?_, by simp, hp.once⟩
    intro x hx o ho
    obtain ⟨o', ho', hid', -, hdel⟩ := (hp.todo x hx).row hu
    obtain ⟨hmem, hid⟩ := Orders.find_some ho
    rw [hu.eq hmem ho' (hid.trans hid'.symm)]; exact hdel
  | _ => exact ⟨hlist, hp.snap, by simp, hp.once⟩

/-- A pass that is not over was not over before, or starts now. -/
theorem PassFrom.was {l : Lbl} {j : Nat} {p' : Pass} (h : PassFrom cfg s l j p')
    (ho : p'.over = false) : (∃ p, s.passes[j]? = some p ∧ p.over = false) ∨
      (l = .recon ∧ j = s.passes.length) := by
  cases h with
  | same hj hl => exact .inl ⟨p', hj, ho⟩
  | new hl hj he => exact .inr ⟨hl, hj⟩
  | moved a p e hl hj hal hm => exact .inl ⟨p, hj, hm.was_working hal⟩
  | crashed hd => simp [Pass.over, hd] at ho

theorem DeliveryFrom.was {l : Lbl} {j : Nat} {p' : DeliveryPass} (h : DeliveryFrom cfg s l j p')
    (ho : p'.over = false) : (∃ p, s.deliveries[j]? = some p ∧ p.over = false) ∨
      (l = .deliver ∧ j = s.deliveries.length) := by
  cases h with
  | same hj hl => exact .inl ⟨p', hj, ho⟩
  | new hl hj he => exact .inr ⟨hl, hj⟩
  | moved a p e hl hj hal hm => exact .inl ⟨p, hj, hm.was_working hal⟩
  | crashed hd => simp [DeliveryPass.over, hd] at ho

theorem all_over {α : Type} {f : α → Bool} {l : List α} (h : l.all f = true) {j : Nat} {p : α}
    (hj : l[j]? = some p) (ho : f p = false) : False := by
  have := List.all_eq_true.mp h p (List.mem_of_getElem? hj)
  rw [ho] at this
  cases this

/-! ### The passes after a step -/

/-- Another pass than the one that moves, if one does. -/
theorem PassScope.same {l : Lbl} {j : Nat} {p : Pass} (hr : (lts cfg cat).Reachable s) (L : Loops s)
    (h : step cfg s l = some s') (hC : Counts s l s') (hj : s.passes[j]? = some p) (ho : p.over = false)
    (hne : ∀ a, l ≠ .pass j a) : PassScope s' p := by
  have hp := L.scope j p hj ho
  -- the pass that commits, if one does, is another one, which there is not
  have hab : ∀ oid, Abandoned s oid → Abandoned s' oid := by
    intro oid ha
    refine ha.step hr h hC ?_
    intro k q order items hlab hk hal hpc _
    obtain rfl := L.one k j q p hk hj (q.working hal (by simp [hpc])) ho
    exact hne .commit hlab
  exact ⟨fun x hx => hab x (hp.todo x hx), hp.snap,
    fun order items rest hpc => ⟨hab _ (hp.work order items rest hpc).1, (hp.work order items rest hpc).2⟩⟩

/-- A pass that starts, where it selects only crashed runs' orders. -/
theorem PassScope.new (hr : (lts cfg cat).Reachable s) (h : step cfg s .recon = some s')
    (hC : Counts s .recon s') (hl : (stuck cfg.order s).all (fun o => s.crashed o.id) = true) :
    PassScope s' ⟨s.db, (stuck cfg.order s).map Order.id, .next, true⟩ := by
  have hu := Orders.unique_ids (keys_reachable hr).ids
  have hsel : ∀ oid ∈ (stuck cfg.order s).map Order.id,
      Abandoned s oid ∧ ∃ o ∈ s.db.orders, o.id = oid ∧ o.status = .pending := by
    intro oid hoid
    obtain ⟨o, ho, rfl⟩ := List.mem_map.mp hoid
    have hcr := List.all_eq_true.mp hl o ho
    obtain ⟨hmem, hst⟩ := List.mem_filter.mp ho
    have hst := (of_decide_eq_true hst).1
    exact ⟨⟨(pending_iff hu hmem).mpr hst, hcr⟩, o, hmem, rfl, hst⟩
  refine ⟨fun x hx => (hsel x hx).1.step hr h hC (by simp), ?_, by simp⟩
  intro x hx o ho
  obtain ⟨-, o', ho', hid', hst⟩ := hsel x hx
  obtain ⟨hmem, hid⟩ := Orders.find_some ho
  rw [hu.eq hmem ho' (hid.trans hid'.symm)]; exact hst

theorem DeliveryScope.same {l : Lbl} {j : Nat} {p : DeliveryPass} (L : Loops s) (hC : Counts s l s')
    (hj : s.deliveries[j]? = some p) (ho : p.over = false) (hne : ∀ a, l ≠ .delivery j a) :
    DeliveryScope s' p := by
  have hp := L.deliveryScope j p hj ho
  have hdl : ∀ oid, Deliverable s oid → Deliverable s' oid := by
    intro oid hd
    refine hd.step hC ?_
    intro e hcom
    generalize hf : (oid, EventType.delivered) = f at hcom
    cases hcom with
    | delivered k q order items at_ hk hal hpc =>
      obtain rfl := L.oneDelivery k j q p hk hj (q.working hal (by simp [hpc])) ho
      exact hne .commit rfl
    | _ => cases hf
  exact ⟨fun x hx => hdl x (hp.todo x hx), hp.snap,
    fun order items at_ hpc => ⟨hdl _ (hp.work order items at_ hpc).1, (hp.work order items at_ hpc).2⟩, hp.once⟩

theorem DeliveryScope.new (hr : (lts cfg cat).Reachable s) (hC : Counts s .deliver s') :
    DeliveryScope s' ⟨s.db, (due cfg.order s).map Order.id, .next, true⟩ := by
  have hu := Orders.unique_ids (keys_reachable hr).ids
  have hsel : ∀ oid ∈ (due cfg.order s).map Order.id,
      Deliverable s oid ∧ ∃ o ∈ s.db.orders, o.id = oid ∧ o.delivered = false := by
    intro oid hoid
    obtain ⟨o, ho, rfl⟩ := List.mem_map.mp hoid
    obtain ⟨hmem, hst⟩ := List.mem_filter.mp ho
    obtain ⟨hst, hdel, -⟩ := of_decide_eq_true hst
    exact ⟨deliverable_of hu hmem hst hdel, o, hmem, rfl, hdel⟩
  refine ⟨fun x hx => (hsel x hx).1.step hC (fun e hcom => by cases hcom), ?_, by simp, ?_⟩
  · intro x hx o ho
    obtain ⟨-, o', ho', hid', hdel⟩ := hsel x hx
    obtain ⟨hmem, hid⟩ := Orders.find_some ho
    rw [hu.eq hmem ho' (hid.trans hid'.symm)]; exact hdel
  · exact hu.sublist (List.filter_sublist.map Order.id)

/-- Two reconciliation passes that are not over after a step are one. -/
theorem one_pass {l : Lbl} {i j : Nat} {p q : Pass} (L : Loops s) (h : step cfg s l = some s')
    (hl : oneLoop cfg s l = true) (hi : s'.passes[i]? = some p) (hj : s'.passes[j]? = some q)
    (hp : p.over = false) (hq : q.over = false) : i = j := by
  rcases (pass_from h hi).was hp with ⟨p0, hp0, ho0⟩ | ⟨hlab, hi'⟩
  · rcases (pass_from h hj).was hq with ⟨q0, hq0, ho1⟩ | ⟨hlab, -⟩
    · exact L.one i j p0 q0 hp0 hq0 ho0 ho1
    · subst hlab
      exact (all_over (Bool.and_eq_true_iff.mp hl).1 hp0 ho0).elim
  · subst hlab
    rcases (pass_from h hj).was hq with ⟨q0, hq0, ho1⟩ | ⟨-, hj'⟩
    · exact (all_over (Bool.and_eq_true_iff.mp hl).1 hq0 ho1).elim
    · exact hi'.trans hj'.symm

theorem one_delivery {l : Lbl} {i j : Nat} {p q : DeliveryPass} (L : Loops s) (h : step cfg s l = some s')
    (hl : oneLoop cfg s l = true) (hi : s'.deliveries[i]? = some p) (hj : s'.deliveries[j]? = some q)
    (hp : p.over = false) (hq : q.over = false) : i = j := by
  rcases (delivery_from h hi).was hp with ⟨p0, hp0, ho0⟩ | ⟨hlab, hi'⟩
  · rcases (delivery_from h hj).was hq with ⟨q0, hq0, ho1⟩ | ⟨hlab, -⟩
    · exact L.oneDelivery i j p0 q0 hp0 hq0 ho0 ho1
    · subst hlab
      exact (all_over hl hp0 ho0).elim
  · subst hlab
    rcases (delivery_from h hj).was hq with ⟨q0, hq0, ho1⟩ | ⟨-, hj'⟩
    · exact (all_over hl hq0 ho1).elim
    · exact hi'.trans hj'.symm

/-- **Step lemma.** -/
theorem loops_step {l : Lbl} (hr : (lts cfg cat).Reachable s) (L : Loops s)
    (h : step cfg s l = some s') (hC : Counts s l s') (hl : oneLoop cfg s l = true) : Loops s' where
  scope j p' hj ho := by
    cases pass_from h hj with
    | same hj0 hne => exact .same hr L h hC hj0 ho hne
    | new hlab _ he =>
      subst hlab he
      exact .new hr h hC (Bool.and_eq_true_iff.mp hl).2
    | moved a p e hlab hj0 hal hm =>
      subst hlab
      exact (L.scope j p hj0 (hm.was_working hal)).move hr hj0 hm h hC
    | crashed hd => simp [Pass.over, hd] at ho
  one _ _ _ _ hi hj hp hq := one_pass L h hl hi hj hp hq
  deliveryScope j p' hj ho := by
    cases delivery_from h hj with
    | same hj0 hne => exact .same L hC hj0 ho hne
    | new hlab _ he =>
      subst hlab he
      exact .new hr hC
    | moved a p e hlab hj0 hal hm =>
      subst hlab
      exact (L.deliveryScope j p hj0 (hm.was_working hal)).move hr hj0 hm hC
    | crashed hd => simp [DeliveryPass.over, hd] at ho
  oneDelivery _ _ _ _ hi hj hp hq := one_delivery L h hl hi hj hp hq

/-! ## The books balance -/

/-- In the setting a pass commits FAILED only for a PENDING order whose run has crashed. -/
theorem settled_of_loops {l : Lbl} (hr : (lts cfg cat).Reachable s) (L : Loops s)
    (h : step cfg s l = some s') : settledPass s l = true := by
  have hu := Orders.unique_ids (keys_reachable hr).ids
  unfold settledPass
  split
  · rename_i j
    obtain ⟨p, p', e, hj, hal, hm, -⟩ := step_pass h
    split
    · rename_i snap todo order items alive hp
      rw [hj, Option.some.injEq] at hp
      subst hp
      obtain ⟨hab, -⟩ := (L.scope j _ hj (Pass.working hal (by simp))).work order items [] rfl
      rw [Bool.and_eq_true]
      refine ⟨?_, ?_⟩
      · simp only [Bool.not_eq_true', Sys.undecided, List.any_eq_false, Bool.and_eq_true, not_and]
        intro g hg hga
        obtain ⟨i, hi⟩ := List.mem_iff_getElem?.mp hg
        split
        · rename_i oid pc hp
          by_cases hid : oid = order.id
          · subst hid
            rw [crashed_run hab.crashed hi hp] at hga
            cases hga
          · simp [hid]
        · simp
      · cases hf : Orders.find s.db order.id with
        | none => rfl
        | some o =>
          obtain ⟨hmem, hid⟩ := Orders.find_some hf
          have hst := (pending_iff hu hmem).mp (hid ▸ hab.pending)
          simp [hst]
    · rfl
  · rfl

/-- What is published, or to be published, is committed; and what is delivered is PAID. -/
structure Backed (s : Sys) : Prop where
  books : ∀ f, published s f + announcing s f ≤ committed s f
  paid : ∀ oid, committed s (oid, .delivered) ≤ committed s (oid, .paid)
  /-- an order.created is the first event of its order -/
  first : s.topic.Pairwise fun a b => a.orderId = b.orderId → b.type ≠ .created

theorem announcing_created {oid : String} (h : 0 < announcing s (oid, .created)) :
    ∃ (i : Nat) (g : Saga), s.sagas[i]? = some g ∧ g.alive = true ∧ g.phase = .saga oid .created := by
  have hp : Procs.holding Pass.announces s.passes (oid, .created) = 0 := by
    refine List.countP_eq_zero.mpr fun p _ => ?_
    unfold Pass.announces
    split <;> simp
  have hd : Procs.holding DeliveryPass.announces s.deliveries (oid, .created) = 0 := by
    refine List.countP_eq_zero.mpr fun p _ => ?_
    unfold DeliveryPass.announces
    split <;> simp
  unfold announcing at h
  rw [hp, hd] at h
  obtain ⟨g, hg, ha⟩ := List.countP_pos_iff.mp h
  obtain ⟨i, hi⟩ := List.mem_iff_getElem?.mp hg
  refine ⟨i, g, hi, ?_⟩
  have ha := of_decide_eq_true ha
  unfold Saga.announces at ha
  split at ha
  · rename_i oid' pc hal hph
    refine ⟨hal, ?_⟩
    cases pc with
    | created => cases ha; exact hph
    | ended paid f => cases f <;> cases paid <;> cases ha
    | _ => cases ha
  · cases ha

theorem published_zero {f : Fact} (h : published s f = 0) : ∀ e ∈ s.topic, e.fact ≠ f := by
  intro e he hf
  exact List.countP_eq_zero.mp h e he (by simpa using hf)

theorem backed_step {l : Lbl} (hr : (lts cfg cat).Reachable s) (S : AtRow StatusOk s) (L : Loops s)
    (B : Backed s) (h : step cfg s l = some s') : Backed s' := by
  have hu := Orders.unique_ids (keys_reachable hr).ids
  cases books_step h with
  | still ht hc ha =>
    refine ⟨fun f => ?_, fun oid => ?_, by rw [ht]; exact B.first⟩
    · simp only [published, ht, hc, ha]; exact B.books f
    · rw [hc, hc]; exact B.paid oid
  | lose f _ hdb ht ha =>
    refine ⟨fun f' => ?_, fun oid => ?_, by rw [ht]; exact B.first⟩
    · have := B.books f'
      have := ha f'
      simp only [published, committed, ht, hdb] at *
      omega
    · simp only [committed, hdb]; exact B.paid oid
  | commit e f hcom hdb ht ha =>
    have hc := commit_adds hr S L hcom hdb
    refine ⟨fun f' => ?_, fun oid => ?_, by rw [ht]; exact B.first⟩
    · have hB := B.books f'
      rw [hc, ha]
      simp only [published, ht] at hB ⊢
      omega
    · have hB := B.paid oid
      rw [hc, hc]
      by_cases hf : f = (oid, .delivered)
      · subst hf
        generalize hff : (oid, EventType.delivered) = f at hcom
        cases hcom with
        | delivered j p order items at_ hj hal hpc =>
          obtain ⟨hdl, -⟩ :=
            (L.deliveryScope j p hj (p.working hal (by simp [hpc]))).work order items at_ hpc
          obtain rfl : oid = order.id := congrArg Prod.fst hff
          have h1 := hdl.paid
          have h2 := hdl.undelivered
          simp only [if_pos]
          omega
        | _ => cases hff
      · rw [if_neg hf]; omega
  | publish f ev hev hdb ht ha =>
    refine ⟨fun f' => ?_, fun oid => ?_, ?_⟩
    · have hB := B.books f'
      have ha := ha f'
      simp only [published, committed, ht, hdb, List.countP_append, List.countP_singleton,
        decide_eq_true_eq, hev] at hB ⊢
      omega
    · simp only [committed, hdb]; exact B.paid oid
    · rw [ht, List.pairwise_append]
      refine ⟨B.first, by simp, ?_⟩
      intro a hmem b hb hid hcr
      obtain rfl := List.mem_singleton.mp hb
      -- its run is at the start, its row PENDING, and nothing of it is on the topic
      have hf : f = (b.orderId, .created) := by rw [← hev, ← hcr]; rfl
      subst hf
      have hone := ha (b.orderId, .created)
      rw [if_pos rfl] at hone
      have hpos : 0 < announcing s (b.orderId, .created) := by omega
      obtain ⟨i, g, hg, hal, hp⟩ := announcing_created hpos
      obtain ⟨o, ho, hoid, hst⟩ := undecided_row hr S hg hal hp rfl
      have hpend := (pending_iff hu ho).mpr hst
      rw [hoid] at hpend
      have hle := committed_le_one hu (b.orderId, .created)
      have hzero : ∀ k, published s (b.orderId, k) = 0 := by
        intro k
        have hb1 := B.books (b.orderId, k)
        have hpaid := hpend.paid
        have hfail := hpend.failed
        have hdel := B.paid b.orderId
        cases k <;> omega
      exact published_zero (hzero a.type) a hmem (by simp [Event.fact, hid])

/-- What holds in every state of the setting. -/
structure EventsOk (s : Sys) : Prop where
  loops : Loops s
  statuses : AtRow StatusOk s
  backed : Backed s

theorem events_reachable (h : (loopsLts cfg cat).Reachable s) : EventsOk s := by
  refine LTS.reachable_induct ?_ ?_ h
  · intro s hs
    subst hs
    exact ⟨⟨by simp [start], by simp [start], by simp [start], by simp [start]⟩,
      fun i g oid pc hg => by simp [start] at hg,
      ⟨fun f => Nat.le_refl 0, fun oid => Nat.le_refl 0, .nil⟩⟩
  · intro s l s' hr I hst
    have hr := hr.unrestrict
    have hC := counts_step hr I.statuses I.loops hst.1
    exact ⟨loops_step hr I.loops hst.1 hC hst.2,
      statuses_step (keys_reachable hr) I.statuses (settled_of_loops hr I.loops hst.1) hst.1,
      backed_step hr I.statuses I.loops I.backed hst.1⟩

/-- **Event log safety.** In every run of the setting, an order has each event at
most once, never both order.paid and order.failed; its row is what its events
say; and order.created, if it is on the topic, is its first event. -/
theorem event_log_safe (cfg : Config) (cat : Catalog.Products) {s : Sys}
    (h : (loopsLts cfg cat).Reachable s) : (∀ f : Fact, published s f ≤ 1) ∧
      (∀ oid, ¬ (0 < published s (oid, .paid) ∧ 0 < published s (oid, .failed))) ∧
      (∀ e ∈ s.topic, ∃ o, Orders.find s.db e.orderId = some o ∧
        (e.type = .paid → o.status = .paid) ∧ (e.type = .delivered → o.status = .paid) ∧
        (e.type = .failed → o.status = .failed)) ∧
      s.topic.Pairwise fun a b => a.orderId = b.orderId → b.type ≠ .created := by
  have hB := (events_reachable h).backed
  have hu := Orders.unique_ids (keys_reachable h.unrestrict).ids
  refine ⟨?_, ?_, ?_, hB.first⟩
  · intro f
    have h1 := hB.books f
    have h2 := committed_le_one hu f
    omega
  · intro oid ⟨hp, hf⟩
    have h1 := hB.books (oid, .paid)
    have h2 := hB.books (oid, .failed)
    obtain ⟨o, ho, hid, hst⟩ := committed_pos.mp (show 0 < committed s (oid, .paid) by omega)
    obtain ⟨o', ho', hid', hst'⟩ := committed_pos.mp (show 0 < committed s (oid, .failed) by omega)
    rw [hu.eq ho ho' (hid.trans hid'.symm)] at hst
    exact absurd ((of_decide_eq_true hst).symm.trans (of_decide_eq_true hst')) (by simp)
  · intro e he
    have hpub : 0 < published s e.fact := List.countP_pos_iff.mpr ⟨e, he, by simp⟩
    have hbook := hB.books e.fact
    obtain ⟨o, ho, hid, hshow⟩ := committed_pos.mp (show 0 < committed s e.fact by omega)
    have hfind : Orders.find s.db e.orderId = some o := by
      rw [show e.orderId = o.id from hid.symm]
      exact hu.get ho
    refine ⟨o, hfind, ?_, ?_, ?_⟩
    · intro hk
      rw [show e.fact.2 = .paid from hk] at hshow
      exact of_decide_eq_true hshow
    · intro hk
      rw [show e.fact = (o.id, .delivered) from Prod.ext hid.symm hk] at hbook hpub
      have hpaid := hB.paid o.id
      obtain ⟨o', ho', hid', hst⟩ := committed_pos.mp (show 0 < committed s (o.id, .paid) by omega)
      rw [hu.eq ho ho' hid'.symm]
      exact of_decide_eq_true hst
    · intro hk
      rw [show e.fact.2 = .failed from hk] at hshow
      exact of_decide_eq_true hshow

/-- `o1` is paid and delivered; the run of `o2` crashes and a pass fails it. -/
def paidAndAbandoned : List Lbl :=
  pens ++ upToCharge 0 "o1" ++ serveCharge 0 (some 1) ++
    [.saga 0 .settle, .saga 0 .commit, .saga 0 .load, .saga 0 (.publish true), .saga 0 (.clear .answered)] ++
    penAndInk "k2" ++ upToReserve 1 "o2" ++ [.crash 1] ++ List.replicate 61 .tick ++
    [.recon, .deliver, .pass 0 .next, .delivery 0 .next, .pass 0 .commit, .pass 0 .load,
      .delivery 0 .commit, .pass 0 (.publish true), .crashPass 0, .delivery 0 .load,
      .delivery 0 (.publish true)]

/-- The events of the two orders. -/
def theirEvents (s : Sys) : Bool := s.topic.map Event.fact = [("o1", .created), ("o1", .paid),
  ("o2", .created), ("o2", .failed), ("o1", .delivered)]

theorem event_log_safe_abandoned : ∃ s : Sys, (loopsLts {} shop).Reachable s ∧
    s.topic.length = 5 ∧ (∀ f : Fact, published s f ≤ 1) := by
  have hrun : ∃ s, (loopsLts {} shop).Reachable s ∧ theirEvents s = true :=
    LTS.reachable_of_execG paidAndAbandoned rfl (by decide +kernel)
  obtain ⟨s, hr, hs⟩ := hrun
  have hlen := congrArg List.length (of_decide_eq_true hs)
  rw [List.length_map] at hlen
  exact ⟨s, hr, hlen, (event_log_safe {} shop hr).1⟩

end Gestalt.Checkout
