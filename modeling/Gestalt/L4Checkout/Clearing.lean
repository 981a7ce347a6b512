import Gestalt.L4Checkout.DeliverySweep
import Gestalt.L4Checkout.Settling
import Gestalt.L4Checkout.Sweep

/-!
# After the crashes

What the two loops of order-service are for. Whatever has happened, the processes that are
left come to their ends (`settles`). Once the timeout has passed, one reconciliation pass that
gets through leaves no order PENDING; once the delay has passed, one delivery pass that gets
through leaves every PAID order delivered. And each of them does get through, in whatever order
the steps are taken and whatever its calls meet with (`recovers`).
-/
namespace Gestalt.Checkout

open Gestalt.Orders (Db Order OrderItem Core cores linesOf)

variable {cfg : Config} {cat : Catalog.Products} {s s' : Sys} {j : Nat}

/-! ## No row is from the future -/

@[simp] theorem apply_now (s : Sys) (c : Caller) (e : Eff) : (s.apply c e).now = s.now := by
  cases e <;> simp only [Sys.apply, Sys.perform] <;> split <;> rfl

theorem now_step {l : Lbl} (h : step cfg s l = some s') : s.now ≤ s'.now := by
  cases l with
  | saga i a =>
    cases step_saga h with
    | prelude g g' e => exact Nat.le_of_eq (apply_now s (.saga i) e).symm
    | saga g oid pc pc' e => exact Nat.le_of_eq (apply_now s (.saga i) e).symm
  | pass k a =>
    obtain ⟨q, q', e, -, -, -, rfl⟩ := step_pass h
    exact Nat.le_of_eq (apply_now s (.pass k) e).symm
  | delivery k a =>
    obtain ⟨q, q', e, -, -, -, rfl⟩ := step_delivery h
    exact Nat.le_of_eq (apply_now s (.delivery k) e).symm
  | pay l =>
    simp only [step] at h
    split at h
    · obtain ⟨q, -, rfl⟩ := Option.map_eq_some_iff.mp h
      exact Nat.le_refl _
    · cases h
  | crash i | crashPass i | crashDelivery i =>
    obtain ⟨q, -, rfl⟩ := Option.map_eq_some_iff.mp h
    exact Nat.le_refl _
  | tick => cases h; exact Nat.le_succ _
  | request r | recon | deliver | cart u lines =>
    cases h
    exact Nat.le_refl _

/-- A row written by `now`. -/
def WrittenBy (now : Nat) (o : Order) : Prop := o.createdAt ≤ now ∧ o.updatedAt ≤ now

structure Dated (s : Sys) : Prop where
  row : ∀ o ∈ s.db.orders, WrittenBy s.now o
  flushed : ∀ g ∈ s.sagas, ∀ o, g.phase = .commit o → WrittenBy s.now o

theorem WrittenBy.mono {o : Order} {n m : Nat} (h : WrittenBy n o) (hnm : n ≤ m) : WrittenBy m o :=
  ⟨Nat.le_trans h.1 hnm, Nat.le_trans h.2 hnm⟩

theorem WrittenBy.onRow {o : Order} {n : Nat} (h : WrittenBy n o) (e : Eff) : WrittenBy n (e.onRow n o) := by
  cases e with
  | write oid w =>
    simp only [Eff.onRow]
    split
    · unfold Order.set
      split
      · exact h
      · exact ⟨h.1, Nat.le_refl n⟩
    · exact h
  | _ => exact h

/-- A step that flushes nothing. -/
theorem Dated.frame {l : Lbl} (D : Dated s) (h : step cfg s l = some s')
    (hrows : ∀ o ∈ s'.db.orders, WrittenBy s.now o)
    (hsagas : ∀ g' ∈ s'.sagas, ∀ o, g'.phase = .commit o → ∃ g ∈ s.sagas, g.phase = .commit o) : Dated s' where
  row o ho := (hrows o ho).mono (now_step h)
  flushed g' hg' o hp := by
    obtain ⟨g, hg, hp'⟩ := hsagas g' hg' o hp
    exact (D.flushed g hg o hp').mono (now_step h)

theorem dated_step {l : Lbl} (D : Dated s) (h : step cfg s l = some s') : Dated s' := by
  have hwrite : ∀ e : Eff, e.inserts = false → ∀ o' ∈ (e.onDb s.now s.db).orders, WrittenBy s.now o' := by
    intro e he o' ho'
    rw [onDb_orders he] at ho'
    obtain ⟨o, ho, rfl⟩ := List.mem_map.mp ho'
    exact (D.row o ho).onRow e
  cases step_shape h with
  | spawn r =>
    refine D.frame h D.row fun g hg o hp => ?_
    rcases List.mem_append.mp hg with hg | hg
    · exact ⟨g, hg, hp⟩
    · rw [List.mem_singleton.mp hg] at hp
      cases hp
  | run i a s' hrun =>
    cases hrun with
    | prelude g g' e hg hal hne hm =>
      have hother : ∀ x ∈ s.sagas.set i g', ∀ o, x.phase = .commit o →
          x = g' ∨ ∃ g ∈ s.sagas, g.phase = .commit o := by
        intro x hx o hp
        rcases List.mem_or_eq_of_mem_set hx with hold | rfl
        · exact .inr ⟨x, hold, hp⟩
        · exact .inl rfl
      cases hm with
      | flushed amount order hp horder =>
        have hby : WrittenBy s.now order := by
          rw [horder]
          exact ⟨Nat.le_refl _, Nat.le_refl _⟩
        refine ⟨fun o ho => (D.row o ho).mono (now_step h), fun x hx o hpx => ?_⟩
        rcases hother x hx o hpx with rfl | ⟨y, hy, hpy⟩
        · cases hpx
          exact hby.mono (now_step h)
        · exact (D.flushed y hy o hpy).mono (now_step h)
      | committed order hp =>
        refine D.frame h (fun o ho => ?_) fun x hx o hpx => (hother x hx o hpx).resolve_left ?_
        · rcases List.mem_append.mp ho with ho | ho
          · exact D.row o ho
          · rw [List.mem_singleton.mp ho]
            exact D.flushed g (List.mem_of_getElem? hg) order hp
        · rintro rfl
          cases hpx
      | _ =>
        refine D.frame h D.row fun x hx o hpx => (hother x hx o hpx).resolve_left ?_
        rintro rfl
        cases hpx
    | saga g oid pc pc' e hg hal hp hm =>
      refine D.frame h (by rw [apply_db]; exact hwrite e hm.inserts) fun x hx o hpx => ?_
      rcases List.mem_or_eq_of_mem_set hx with hold | rfl
      · exact ⟨x, hold, hpx⟩
      · cases hpx
  | crash i g hg =>
    refine D.frame h D.row fun x hx o hpx => ?_
    rcases List.mem_or_eq_of_mem_set hx with hold | rfl
    · exact ⟨x, hold, hpx⟩
    · exact ⟨g, List.mem_of_getElem? hg, hpx⟩
  | pay q p => exact D.frame h D.row fun x hx o hpx => ⟨x, hx, hpx⟩
  | other l c e s' hb hpass =>
    exact D.frame h (hb.db ▸ hwrite e hb.inserts) fun x hx o hpx => ⟨x, hb.sagas ▸ hx, hpx⟩

theorem dated_reachable (h : (lts cfg cat).Reachable s) : Dated s := by
  refine LTS.reachable_induct ?_ ?_ h
  · rintro s rfl
    constructor <;> simp [start]
  · intro s l s' _ D hst
    exact dated_step D hst

/-! ## All but one are through -/

theorem Saga.over_stuck {g : Saga} (h : g.over = true) (hal : g.alive = true) (a : Act) :
    stepSaga cfg s g a = none := by
  simp only [Saga.over, hal, Bool.not_true, Bool.false_or] at h
  unfold stepSaga
  split at h
  · rename_i hp; simp [hp, prelude]
  · rename_i hp; simp [hp, saga]
  · cases h

theorem Pass.over_stuck {p : Pass} (h : p.over = true) (hal : p.alive = true) (a : Act) :
    stepPass s p a = none := by
  simp only [Pass.over, hal, Bool.not_true, Bool.false_or, Bool.and_eq_true, decide_eq_true_eq] at h
  cases a <;> simp [stepPass, h.1, h.2]

theorem DeliveryPass.over_stuck {p : DeliveryPass} (h : p.over = true) (hal : p.alive = true) (a : Act) :
    stepDelivery s p a = none := by
  simp only [DeliveryPass.over, hal, Bool.not_true, Bool.false_or, Bool.and_eq_true, decide_eq_true_eq] at h
  cases a <;> simp [stepDelivery, h.1, h.2]

/-- All runs, and all passes but reconciliation pass `jr` and delivery pass `jd`. -/
structure Through (jr jd : Option Nat) (s : Sys) : Prop where
  sagas : ∀ g ∈ s.sagas, g.over = true
  passes : ∀ (k : Nat) (p : Pass), s.passes[k]? = some p → jr ≠ some k → p.over = true
  deliveries : ∀ (k : Nat) (p : DeliveryPass), s.deliveries[k]? = some p → jd ≠ some k → p.over = true

/-- Who is left to take a step. -/
theorem Through.moves {jr jd : Option Nat} (T : Through jr jd s) (h : Onward cfg s s') :
    Through jr jd s' ∧ ((∃ q, step cfg s (.pay q) = some s' ∧ s'.db = s.db) ∨
      (∃ k a, jr = some k ∧ step cfg s (.pass k a) = some s') ∨
      ∃ k a, jd = some k ∧ step cfg s (.delivery k a) = some s') := by
  obtain ⟨l, hl, hst⟩ := h
  cases l with
  | saga i a =>
    simp only [step] at hst
    split at hst
    · rename_i g hg
      split at hst
      · rename_i hal
        rw [Saga.over_stuck (T.sagas g (List.mem_of_getElem? hg)) hal a] at hst
        cases hst
      · cases hst
    · cases hst
  | pass k a =>
    obtain ⟨p, p', e, hk, hal, hm, hs'⟩ := step_pass hst
    have hjr : jr = some k := by
      by_contra hne
      have hstep := hst
      simp only [step, hk, hal, if_true, Pass.over_stuck (T.passes k p hk hne) hal a] at hstep
      cases hstep
    refine ⟨⟨?_, ?_, ?_⟩, .inr (.inl ⟨k, a, hjr, hst⟩)⟩
    · rw [hs']; exact (apply_sagas s (.pass k) e).symm ▸ T.sagas
    · intro k' q hk' hne
      rw [hs'] at hk'
      rcases Procs.set_cases hk hk' with ⟨rfl, -⟩ | ⟨-, hold⟩
      · exact absurd hjr hne
      · exact T.passes k' q hold hne
    · rw [hs']; exact (apply_deliveries s (.pass k) e).symm ▸ T.deliveries
  | delivery k a =>
    obtain ⟨p, p', e, hk, hal, hm, hs'⟩ := step_delivery hst
    have hjd : jd = some k := by
      by_contra hne
      have hstep := hst
      simp only [step, hk, hal, if_true, DeliveryPass.over_stuck (T.deliveries k p hk hne) hal a] at hstep
      cases hstep
    refine ⟨⟨?_, ?_, ?_⟩, .inr (.inr ⟨k, a, hjd, hst⟩)⟩
    · rw [hs']; exact (apply_sagas s (.delivery k) e).symm ▸ T.sagas
    · rw [hs']; exact (apply_passes s (.delivery k) e).symm ▸ T.passes
    · intro k' q hk' hne
      rw [hs'] at hk'
      rcases Procs.set_cases hk hk' with ⟨rfl, -⟩ | ⟨-, hold⟩
      · exact absurd hjd hne
      · exact T.deliveries k' q hold hne
  | pay q =>
    have hs' := hst
    simp only [step] at hs'
    split at hs'
    · obtain ⟨p, -, rfl⟩ := Option.map_eq_some_iff.mp hs'
      exact ⟨⟨T.sagas, T.passes, T.deliveries⟩, .inl ⟨q, hst, rfl⟩⟩
    · cases hs'
  | _ => cases hl

theorem through_idle (h : s.idle = true) (jr jd : Option Nat) : Through jr jd s := by
  simp only [Sys.idle, Bool.and_eq_true, List.all_eq_true] at h
  exact ⟨h.1.1, fun k p hk _ => h.1.2 p (List.mem_of_getElem? hk), fun k p hk _ => h.2 p (List.mem_of_getElem? hk)⟩

/-! ## A reconciliation pass gets through -/

theorem PassMoves.alive {p p' : Pass} {a : Act} {e : Eff} (h : PassMoves s p a p' e) : p'.alive = p.alive := by
  cases h <;> rfl

structure Reconciling (cfg : Config) (cat : Catalog.Products) (s₀ s : Sys) : Prop where
  reachable : (lts cfg cat).Reachable s
  through : Through (some s₀.passes.length) none s
  pass : ∃ done rest p, Sweep cfg s₀ s₀.passes.length s done rest p ∧ p.alive = true

theorem Reconciling.moves {s₀ : Sys} (hu : Table.Unique Order.id s₀.db.orders) (R : Reconciling cfg cat s₀ s)
    (h : Onward cfg s s') : Reconciling cfg cat s₀ s' := by
  obtain ⟨done, rest, p, hsw, hal⟩ := R.pass
  obtain ⟨T, hwho⟩ := R.through.moves h
  refine ⟨h.reachable R.reachable, T, ?_⟩
  rcases hwho with ⟨q, hst, hdb⟩ | ⟨k, a, hk, hst⟩ | ⟨k, a, hk, -⟩
  · obtain ⟨hp, hrel⟩ := other_step (j := s₀.passes.length) (Procs.lt_of hsw.pass) rfl hst
    exact ⟨done, rest, p, hsw.frame hp hdb hrel, hal⟩
  · cases hk
    obtain ⟨q, p', e, hq, -, hm, rfl⟩ := step_pass hst
    rw [hsw.pass] at hq
    cases hq
    have hmove : ∃ done' rest', Sweep cfg s₀ s₀.passes.length
        { s.apply (.pass s₀.passes.length) e with passes := s.passes.set s₀.passes.length p' } done' rest' p' :=
      hsw.move hu hal hm rfl (apply_db s (.pass s₀.passes.length) e) (apply_trace s (.pass s₀.passes.length) e)
    obtain ⟨done', rest', hsw'⟩ := hmove
    exact ⟨done', rest', p', hsw', hm.alive.trans hal⟩
  · cases hk

/-- It ends with every order it selected FAILED. -/
theorem Reconciling.ended {s₀ : Sys} (R : Reconciling cfg cat s₀ s) (hidle : s.idle = true) :
    List.Forall₂ (Swept (stuck cfg.order s₀)) s₀.db.orders s.db.orders := by
  obtain ⟨done, rest, p, hsw, hal⟩ := R.pass
  have hover := (through_idle hidle none none).passes _ p hsw.pass (by simp)
  simp only [Pass.over, hal, Bool.not_true, Bool.false_or, Bool.and_eq_true, decide_eq_true_eq] at hover
  have hw := hsw.work
  unfold PassAt at hw
  rw [hover.1] at hw
  have hrest : rest = [] := List.map_eq_nil_iff.mp (hw.2.1.symm.trans hover.2)
  have hsplit := hsw.split
  rw [hrest, List.append_nil] at hsplit
  exact hsplit ▸ hsw.rows

/-- **Reconciliation gets through.** -/
theorem reconciles {s₀ s₁ : Sys} (hr : (lts cfg cat).Reachable s₀) (hidle : s₀.idle = true)
    (hst : step cfg s₀ .recon = some s₁) : Inevitable (Onward cfg) (fun s => (lts cfg cat).Reachable s ∧
      s.idle = true ∧ List.Forall₂ (Swept (stuck cfg.order s₀)) s₀.db.orders s.db.orders) s₁ := by
  have hu : Table.Unique Order.id s₀.db.orders := Orders.unique_ids (keys_reachable hr).ids
  refine Inevitable.of_wf (onward_ends cfg) (I := Reconciling cfg cat s₀) (fun s s' R h => R.moves hu h) ?_ ?_
  · intro s R
    by_cases hs : s.idle = true
    · exact .inl ⟨R.reachable, hs, R.ended hs⟩
    · exact .inr (goes_on R.reachable (Bool.not_eq_true _ ▸ hs))
  · have T : Through (some s₀.passes.length) none s₀ := through_idle hidle _ _
    obtain ⟨p, hsw⟩ := sweep_start hst
    refine ⟨hr.step hst, ?_, [], _, p, hsw, ?_⟩
    · cases hst
      refine ⟨T.sagas, fun k q hk hne => ?_, T.deliveries⟩
      rcases Procs.spawn_cases hk with hold | ⟨rfl, -⟩
      · exact T.passes k q hold hne
      · exact absurd rfl hne
    · have hp := hsw.pass
      cases hst
      rw [Procs.spawn_new] at hp
      cases hp
      rfl

/-! ## A delivery pass gets through -/

theorem DeliveryMoves.alive {p p' : DeliveryPass} {a : Act} {e : Eff} (h : DeliveryMoves s p a p' e) :
    p'.alive = p.alive := by
  cases h <;> rfl

structure Delivering (cfg : Config) (cat : Catalog.Products) (s₀ s : Sys) : Prop where
  reachable : (lts cfg cat).Reachable s
  through : Through none (some s₀.deliveries.length) s
  pass : ∃ done rest p, DeliverySweep cfg s₀ s₀.deliveries.length s done rest p ∧ p.alive = true

theorem Delivering.moves {s₀ : Sys} (hu : Table.Unique Order.id s₀.db.orders) (D : Delivering cfg cat s₀ s)
    (h : Onward cfg s s') : Delivering cfg cat s₀ s' := by
  obtain ⟨done, rest, p, hsw, hal⟩ := D.pass
  obtain ⟨T, hwho⟩ := D.through.moves h
  refine ⟨h.reachable D.reachable, T, ?_⟩
  rcases hwho with ⟨q, hst, hdb⟩ | ⟨k, a, hk, -⟩ | ⟨k, a, hk, hst⟩
  · obtain ⟨hp, hann⟩ := other_delivery_step (j := s₀.deliveries.length) (Procs.lt_of hsw.pass) rfl hst
    exact ⟨done, rest, p, hsw.frame hp hdb hann, hal⟩
  · cases hk
  · cases hk
    obtain ⟨q, p', e, hq, -, hm, rfl⟩ := step_delivery hst
    rw [hsw.pass] at hq
    cases hq
    have hmove : ∃ done' rest', DeliverySweep cfg s₀ s₀.deliveries.length
        { s.apply (.delivery s₀.deliveries.length) e with
          deliveries := s.deliveries.set s₀.deliveries.length p' } done' rest' p' :=
      hsw.move hu hm (Procs.set_self hsw.pass) (apply_db s (.delivery s₀.deliveries.length) e)
        (apply_trace s (.delivery s₀.deliveries.length) e)
    obtain ⟨done', rest', hsw'⟩ := hmove
    exact ⟨done', rest', p', hsw', hm.alive.trans hal⟩

/-- It ends with every order it selected marked and announced. -/
theorem Delivering.ended {s₀ : Sys} (D : Delivering cfg cat s₀ s) (hidle : s.idle = true) :
    (∃ t, s.db.orders = s₀.db.orders.map (handedOver t (due cfg.order s₀))) ∧
      Announced s₀ s s₀.deliveries.length (due cfg.order s₀) := by
  obtain ⟨done, rest, p, hsw, hal⟩ := D.pass
  have hover := (through_idle hidle none none).deliveries _ p hsw.pass (by simp)
  obtain ⟨hpc, hrest⟩ := hsw.over hal hover
  obtain ⟨told, htold, -, hdone⟩ := hsw.told
  have hsplit := hsw.split
  rw [hrest, List.append_nil] at hsplit
  exact ⟨hsplit ▸ hsw.rows, hsplit ▸ hdone hpc ▸ htold⟩

/-- **Delivery gets through.** -/
theorem delivers {s₀ s₁ : Sys} (hr : (lts cfg cat).Reachable s₀) (hidle : s₀.idle = true)
    (hst : step cfg s₀ .deliver = some s₁) : Inevitable (Onward cfg) (fun s => (lts cfg cat).Reachable s ∧
      s.idle = true ∧ (∃ t, s.db.orders = s₀.db.orders.map (handedOver t (due cfg.order s₀))) ∧
      Announced s₀ s s₀.deliveries.length (due cfg.order s₀)) s₁ := by
  have hu : Table.Unique Order.id s₀.db.orders := Orders.unique_ids (keys_reachable hr).ids
  refine Inevitable.of_wf (onward_ends cfg) (I := Delivering cfg cat s₀) (fun s s' D h => D.moves hu h) ?_ ?_
  · intro s D
    by_cases hs : s.idle = true
    · exact .inl ⟨D.reachable, hs, D.ended hs⟩
    · exact .inr (goes_on D.reachable (Bool.not_eq_true _ ▸ hs))
  · have T : Through none (some s₀.deliveries.length) s₀ := through_idle hidle _ _
    obtain ⟨p, hsw⟩ := deliverySweep_start hst
    refine ⟨hr.step hst, ?_, [], _, p, hsw, ?_⟩
    · cases hst
      refine ⟨T.sagas, T.passes, fun k q hk hne => ?_⟩
      rcases Procs.spawn_cases hk with hold | ⟨rfl, -⟩
      · exact T.deliveries k q hold hne
      · exact absurd rfl hne
    · have hp := hsw.pass
      cases hst
      rw [Procs.spawn_new] at hp
      cases hp
      rfl

/-! ## One of each, in their time -/

/-- Nothing happens for a while. -/
def Sys.later (s : Sys) (n : Nat) : Sys := { s with now := s.now + n }

theorem later_reachable (h : (lts cfg cat).Reachable s) (n : Nat) : (lts cfg cat).Reachable (s.later n) := by
  induction n with
  | zero => exact h
  | succ n ih =>
    have hst : step cfg (s.later n) .tick = some (s.later (n + 1)) := rfl
    exact ih.step hst

theorem swept_origin {done l l' : List Order} (h : List.Forall₂ (Swept done) l l') :
    ∀ o' ∈ l', ∃ o ∈ l, Swept done o o' := by
  induction h with
  | nil => exact nofun
  | @cons o o' l l' hrow _ ih =>
    intro x hx
    rcases List.mem_cons.mp hx with rfl | hx
    · exact ⟨o, List.mem_cons_self, hrow⟩
    · obtain ⟨y, hy, hrow'⟩ := ih x hx
      exact ⟨y, List.mem_cons_of_mem _ hy, hrow'⟩

/-- Every PENDING order is overdue. -/
theorem none_pending (D : Dated s) {n : Nat} (hn : cfg.order.pendingOrderTimeoutSeconds < n)
    (h : List.Forall₂ (Swept (stuck cfg.order (s.later n))) s.db.orders s'.db.orders) :
    ∀ o ∈ s'.db.orders, o.status ≠ .pending := by
  intro o' ho' hpend
  obtain ⟨o, ho, hrow⟩ := swept_origin h o' ho'
  unfold Swept at hrow
  split at hrow
  · obtain ⟨t, rfl⟩ := hrow
    cases hpend
  · rename_i hnot
    subst hrow
    have hdate := (D.row o' ho).1
    refine hnot (List.mem_filter.mpr ⟨ho, decide_eq_true ⟨hpend, ?_⟩⟩)
    show o'.createdAt + _ < s.now + n
    omega

/-- A PAID order is due, or has been delivered. -/
theorem due_later (D : Dated s) {n : Nat} (hn : cfg.order.deliverySimulationDelaySeconds < n) {o : Order}
    (ho : o ∈ s.db.orders) (hpaid : o.status = .paid) (hdel : o.delivered = false) :
    o ∈ due cfg.order (s.later n) := by
  have hdate := (D.row o ho).2
  refine List.mem_filter.mpr ⟨ho, decide_eq_true ⟨hpaid, hdel, ?_⟩⟩
  show o.updatedAt + _ < s.now + n
  omega

theorem all_delivered (D : Dated s) {n : Nat} (hn : cfg.order.deliverySimulationDelaySeconds < n) {t : Order → Nat}
    (h : s'.db.orders = s.db.orders.map (handedOver t (due cfg.order (s.later n)))) :
    ∀ o ∈ s'.db.orders, o.status = .paid → o.delivered = true := by
  intro o' ho' hpaid
  rw [h] at ho'
  obtain ⟨o, ho, rfl⟩ := List.mem_map.mp ho'
  unfold handedOver at hpaid ⊢
  split
  · rfl
  · rename_i hnot
    rw [if_neg hnot] at hpaid
    by_contra hdel
    exact hnot (due_later D hn ho hpaid (Bool.not_eq_true _ ▸ hdel))

@[simp] theorem handedOver_status (t : Order → Nat) (done : List Order) (o : Order) :
    (handedOver t done o).status = o.status := by
  unfold handedOver; split <;> rfl

/-- The delivery of the order has been published; Kafka may lose the message. -/
def Notified (s : Sys) (db : Db) (o : Order) : Prop :=
  ∃ x ∈ s.trace, ∃ ev, Announces db o ev ∧ x.call = .publish ev

theorem Announced.notified {s₀ : Sys} {told : List Order} (h : Announced s₀ s j told) {o : Order} (ho : o ∈ told) :
    Notified s s₀.db o := by
  obtain ⟨evs, hevs, hall⟩ := h
  obtain ⟨ev, hev, hann⟩ : ∃ ev ∈ evs, Announces s₀.db o ev := by
    clear hevs
    induction hall with
    | nil => cases ho
    | @cons x ev told evs hx _ ih =>
      rcases List.mem_cons.mp ho with rfl | ho
      · exact ⟨ev, List.mem_cons_self, hx⟩
      · obtain ⟨ev', hev', hann⟩ := ih ho
        exact ⟨ev', List.mem_cons_of_mem _ hev', hann⟩
  have hmem : ev ∈ announcements j s := hevs ▸ List.mem_append_right _ hev
  obtain ⟨x, hx, hxe⟩ := List.mem_filterMap.mp hmem
  refine ⟨x, hx, ev, hann, ?_⟩
  unfold Issued.announcement at hxe
  split at hxe
  · rename_i k ev' _ hcall
    split at hxe
    · cases hxe
      exact hcall
    · cases hxe
  · cases hxe

theorem not_pending {o : Order} (h : o.status ≠ .pending) : o.status = .failed ∨ o.status = .paid := by
  cases hs : o.status with
  | pending => exact absurd hs h
  | paid => exact .inr rfl
  | failed => exact .inl rfl

/-- **Recovery.** From every reachable state, whatever has crashed: the processes that are left come to
their ends. A reconciliation pass that starts when the timeout has passed then gets through, and no
order is PENDING any more. A delivery pass that starts when the delay has passed gets through, and
then every order is FAILED, or PAID and delivered; those that this pass has marked it has published. -/
theorem recovers (cfg : Config) (cat : Catalog.Products) (s : Sys) (h : (lts cfg cat).Reachable s) :
    Inevitable (Onward cfg) (fun t => t.idle = true ∧
      ∀ n t', cfg.order.pendingOrderTimeoutSeconds < n → step cfg (t.later n) .recon = some t' →
      Inevitable (Onward cfg) (fun u => u.idle = true ∧ (∀ o ∈ u.db.orders, o.status ≠ .pending) ∧
        ∀ m u', cfg.order.deliverySimulationDelaySeconds < m → step cfg (u.later m) .deliver = some u' →
        Inevitable (Onward cfg) (fun v => v.idle = true ∧
          (∀ o ∈ v.db.orders, o.status = .failed ∨ o.status = .paid ∧ o.delivered = true) ∧
          ∀ o ∈ u.db.orders, o.status = .paid → o.delivered = false → Notified v u.db o) u') t') s := by
  refine (settles h).mono ?_
  rintro t ⟨ht, hidle⟩
  refine ⟨hidle, fun n t' hn hrecon => ?_⟩
  refine (reconciles (later_reachable ht n) hidle hrecon).mono ?_
  rintro u ⟨hu, hidle', hrows⟩
  have hnone := none_pending (dated_reachable ht) hn hrows
  refine ⟨hidle', hnone, fun m u' hm hdeliver => ?_⟩
  refine (delivers (later_reachable hu m) hidle' hdeliver).mono ?_
  rintro v ⟨-, hidle'', ⟨at_, hmarked⟩, htold⟩
  have D := dated_reachable hu
  refine ⟨hidle'', fun o ho => ?_, fun o ho hpaid hdel => htold.notified (due_later D hm ho hpaid hdel)⟩
  have hall := all_delivered D hm hmarked o ho
  have hnp : o.status ≠ .pending := by
    rw [hmarked] at ho
    obtain ⟨o₀, ho₀, rfl⟩ := List.mem_map.mp ho
    rw [handedOver_status]
    exact hnone o₀ ho₀
  exact (not_pending hnp).imp id fun hpaid => ⟨hpaid, hall hpaid⟩

/-- Three runs: one crashes with its stock reserved, one with its charge under way, and one is waiting for
its charge, whose call has crashed; a delivery pass has died too. -/
def wreckage : List Lbl :=
  pens ++ penAndInk "k2" ++ upToReserve 0 "o1" ++ upToCharge 1 "o2" ++
    [.saga 0 (.reserve .answered), .crash 0, .crash 1, .deliver, .crashDelivery 0, .pay (.crash 0)] ++
    penAndInk "k3" ++ upToReserve 2 "o3"

def wrecked (s : Sys) : Bool := !s.idle && s.db.orders.map Order.status = [.pending, .pending, .pending]

/-- `recovers` after the crashes. -/
theorem recovers_wreckage : ∃ s : Sys, wrecked s = true ∧
    Inevitable (Onward {}) (fun t => t.idle = true ∧ ∀ n t', 60 < n → step {} (t.later n) .recon = some t' →
      Inevitable (Onward {}) (fun u => u.idle = true ∧ (∀ o ∈ u.db.orders, o.status ≠ .pending) ∧
        ∀ m u', 30 < m → step {} (u.later m) .deliver = some u' →
        Inevitable (Onward {}) (fun v => v.idle = true ∧
          (∀ o ∈ v.db.orders, o.status = .failed ∨ o.status = .paid ∧ o.delivered = true) ∧
          ∀ o ∈ u.db.orders, o.status = .paid → o.delivered = false → Notified v u.db o) u') t') s := by
  obtain ⟨s, hr, hs⟩ : ∃ s, (lts {} shop).Reachable s ∧ wrecked s = true :=
    LTS.reachable_of_exec wreckage rfl (by decide +kernel)
  exact ⟨s, hs, recovers {} shop s hr⟩

end Gestalt.Checkout
