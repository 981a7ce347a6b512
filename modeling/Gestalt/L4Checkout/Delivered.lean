import Gestalt.L4Checkout.Charges
import Gestalt.L4Checkout.Publish

/-!
# What is delivered has been paid for

A delivery pass selects PAID orders, and then marks and announces one after another. What it
announces it has read again after its own commit, when the row may say something else: a
reconciliation pass can have overwritten it. The charge stays (`PaidFor`): every order that
is announced as paid or as delivered has been charged (`published_paidFor`).
-/
namespace Gestalt.Checkout

open Gestalt.Orders (Order OrderItem cores linesOf)

variable {cfg : Config} {cat : Catalog.Products} {s s' : Sys}

/-! ## The topic and the charges grow -/

/-- What a step adds to the topic, a process has published. -/
theorem step_topic {l : Lbl} (h : step cfg s l = some s') : ∃ evs, s'.topic = s.topic ++ evs ∧
    ∀ ev ∈ evs, ∃ x ∈ s'.trace, x.call = .publish ev := by
  -- the effect of a process
  have heff : ∀ c e, ∃ evs, (s.apply c e).topic = s.topic ++ evs ∧
      ∀ ev ∈ evs, ∃ x ∈ (s.apply c e).trace, x.call = .publish ev := by
    intro c e
    cases e with
    | publish ev logged =>
      cases logged with
      | true =>
        refine ⟨[ev], apply_topic s c _, fun ev' hev => ?_⟩
        obtain rfl := List.mem_singleton.mp hev
        exact ⟨_, List.mem_append_right _ (List.mem_singleton_self _), rfl⟩
      | false => exact ⟨[], (apply_topic s c _).trans (List.append_nil _).symm, nofun⟩
    | _ => exact ⟨[], (apply_topic s c _).trans (List.append_nil _).symm, nofun⟩
  have hsame : s'.topic = s.topic → ∃ evs, s'.topic = s.topic ++ evs ∧
      ∀ ev ∈ evs, ∃ x ∈ s'.trace, x.call = .publish ev :=
    fun he => ⟨[], he.trans (List.append_nil _).symm, nofun⟩
  cases l with
  | saga i a =>
    cases step_saga h with
    | prelude g g' e => exact heff (.saga i) e
    | saga g oid pc pc' e => exact heff (.saga i) e
  | pass j a =>
    obtain ⟨p, p', e, -, -, -, rfl⟩ := step_pass h
    exact heff (.pass j) e
  | delivery j a =>
    obtain ⟨p, p', e, -, -, -, rfl⟩ := step_delivery h
    exact heff (.delivery j) e
  | crash i | crashPass i | crashDelivery i =>
    simp only [step, Option.map_eq_some_iff] at h
    obtain ⟨p, -, rfl⟩ := h
    exact hsame rfl
  | pay l =>
    simp only [step] at h
    split at h
    · obtain ⟨p, -, rfl⟩ := Option.map_eq_some_iff.mp h
      exact hsame rfl
    · cases h
  | request r | recon | deliver | cart u lines | tick =>
    simp only [step, Option.some.injEq] at h
    subst h
    exact hsame rfl

theorem topic_published (h : (lts cfg cat).Reachable s) :
    ∀ ev ∈ s.topic, ∃ x ∈ s.trace, x.call = .publish ev := by
  refine LTS.reachable_induct (I := fun s => ∀ ev ∈ s.topic, ∃ x ∈ s.trace, x.call = .publish ev) ?_ ?_ h
  · rintro s rfl
    exact nofun
  · intro s l s' _ I hst ev hev
    obtain ⟨evs, htopic, hnew⟩ := step_topic hst
    obtain ⟨c, e, -, -, htrace⟩ := step_effect hst
    rw [htopic] at hev
    rcases List.mem_append.mp hev with hev | hev
    · obtain ⟨x, hx, hcall⟩ := I ev hev
      exact ⟨x, htrace ▸ List.mem_append_left _ hx, hcall⟩
    · exact hnew ev hev

/-- No charge is undone. -/
theorem charged_step {l : Lbl} (h : step cfg s l = some s') {k : String} (hk : Payment.Charged s.pay k) :
    Payment.Charged s'.pay k := by
  cases step_shape h with
  | run i a s' hrun =>
    cases hrun with
    | prelude g g' e hg hal hne hm =>
      cases hm <;> exact hk
    | saga g oid pc pc' e hg hal hp hm =>
      simp only [apply_pay]
      rcases hm.onPay with ⟨he, -⟩ | ⟨order, hpos, -, -, -, he⟩
      · rw [he]
        exact hk
      · rw [he]
        exact hk
  | pay l p hl hp => exact hk.step hp
  | other l c e s' hb _ => exact hb.pay ▸ hk
  | _ => exact hk

/-! ## The orders of a delivery pass -/

/-- The order exists, and has been charged. -/
def PaidFor (s : Sys) (oid : String) : Prop :=
  ∃ c ∈ cores s.db, c.id = oid ∧ Payment.Charged s.pay c.idempotencyKey

theorem PaidFor.step {l : Lbl} {oid : String} (hp : PaidFor s oid) (h : step cfg s l = some s') :
    PaidFor s' oid := by
  obtain ⟨c, hc, hid, hch⟩ := hp
  exact ⟨c, cores_step h c hc, hid, charged_step h hch⟩

/-- The orders a delivery pass selects. -/
theorem paidFor_due (C : Charges s) {oid : String} (h : oid ∈ (due cfg.order s).map Order.id) :
    PaidFor s oid := by
  obtain ⟨o, ho, rfl⟩ := List.mem_map.mp h
  obtain ⟨ho, hdue⟩ := List.mem_filter.mp ho
  have hpaid : o.status = .paid := (of_decide_eq_true hdue).1
  exact ⟨o.core, Orders.mem_core ho, rfl, C.paid o ho hpaid⟩

/-- Every order that a delivery pass is at, or is to come to. -/
structure DeliveriesPaid (s : Sys) : Prop where
  todo : ∀ (j : Nat) (p : DeliveryPass), s.deliveries[j]? = some p → p.alive = true →
    ∀ oid ∈ p.todo, PaidFor s oid
  held : ∀ (j : Nat) (p : DeliveryPass), s.deliveries[j]? = some p → p.alive = true →
    ∀ oid items, p.pc.holds = some (oid, items) → PaidFor s oid

/-- What a pass holds after a step it held before, or has just taken. -/
theorem DeliveryMoves.holds_from {p p' : DeliveryPass} {a : Act} {e : Eff} (h : DeliveryMoves s p a p' e)
    {oid : String} {items : List OrderItem} (hp : p'.pc.holds = some (oid, items)) :
    p.pc.holds = some (oid, items) ∨ oid ∈ p.todo := by
  cases h with
  | took oid' rest order hpc ht hf =>
    cases hp
    rw [(Orders.find_some hf).2, ht]
    exact .inr (List.mem_cons_self ..)
  | marked order items' at_ hpc =>
    cases hp
    exact .inl (by rw [hpc]; rfl)
  | loaded oid' items' at_ order hpc hf =>
    cases hp
    exact .inl (by rw [hpc, (Orders.find_some hf).2]; rfl)
  | announced order items' at_ logged hpc => cases hp

theorem DeliveryMoves.todo {p p' : DeliveryPass} {a : Act} {e : Eff} (h : DeliveryMoves s p a p' e) :
    ∀ oid ∈ p'.todo, oid ∈ p.todo := by
  cases h with
  | took oid rest order hpc ht hf =>
    intro x hx
    rw [ht]
    exact List.mem_cons_of_mem _ hx
  | _ => exact fun _ hx => hx

theorem deliveriesPaid_step {l : Lbl} (C : Charges s) (I : DeliveriesPaid s) (h : step cfg s l = some s') :
    DeliveriesPaid s' := by
  constructor
  · intro j p' hj hal oid hoid
    cases delivery_from h hj with
    | same hj' _ => exact (I.todo j p' hj' hal oid hoid).step h
    | new _ _ hp => subst hp; exact (paidFor_due C hoid).step h
    | crashed hd => rw [hal] at hd; cases hd
    | moved a p e _ hj' hal' hm => exact (I.todo j p hj' hal' oid (hm.todo oid hoid)).step h
  · intro j p' hj hal oid items hp'
    cases delivery_from h hj with
    | same hj' _ => exact (I.held j p' hj' hal oid items hp').step h
    | new _ _ hp => subst hp; cases hp'
    | crashed hd => rw [hal] at hd; cases hd
    | moved a p e _ hj' hal' hm =>
      rcases hm.holds_from hp' with hold | htodo
      · exact (I.held j p hj' hal' oid items hold).step h
      · exact (I.todo j p hj' hal' oid htodo).step h

theorem deliveriesPaid_reachable (h : (lts cfg cat).Reachable s) : DeliveriesPaid s := by
  refine LTS.reachable_induct ?_ ?_ h
  · rintro s rfl
    constructor <;> intro j p <;> simp [start]
  · intro s l s' hr I hst
    exact deliveriesPaid_step (charges_reachable hr) I hst

/-! ## What is announced as paid or delivered -/

theorem Publishes.paidFor {order : Order} {ev : Event} (K : Keys s.db s.sagas) (C : Charges s)
    (I : DeliveriesPaid s) (h : Publishes s ev order) (ht : ev.type = .paid ∨ ev.type = .delivered) :
    PaidFor s ev.orderId := by
  cases h with
  | paid i g oid order hg hp =>
    obtain ⟨c, hc, -, hk, -, -, hshow⟩ := (K.saga i g hg).own oid _ hp
    obtain rfl : order.core = c := hshow
    exact ⟨order.core, hc, rfl, hk ▸ C.paying i g oid _ hg hp rfl⟩
  | delivered j p order items at_ hj hal hpc =>
    exact I.held j p hj hal order.id items (by rw [hpc]; rfl)
  | created | failed | overdue => rcases ht with ht | ht <;> cases ht

/-- **Announced, then paid for.** Whatever is published as paid or as delivered is an order that has been
charged. -/
theorem published_paidFor (h : (lts cfg cat).Reachable s) : ∀ x ∈ s.trace, ∀ ev, x.call = .publish ev →
    ev.type = .paid ∨ ev.type = .delivered → PaidFor s ev.orderId := by
  refine LTS.reachable_induct (I := fun s => ∀ x ∈ s.trace, ∀ ev, x.call = .publish ev →
    ev.type = .paid ∨ ev.type = .delivered → PaidFor s ev.orderId) ?_ ?_ h
  · rintro s rfl x hx
    cases hx
  · intro s l s' hr I hst x hx ev hcall ht
    rcases step_publishes hst hx hcall with hold | ⟨order, hp⟩
    · exact (I x hold ev hcall ht).step hst
    · exact (hp.paidFor (keys_reachable hr) (charges_reachable hr) (deliveriesPaid_reachable hr) ht).step hst

/-- An order that has been charged has been charged once, and for its line items. -/
theorem charged_once (h : (lts cfg cat).Reachable s) {o : Order} (ho : o ∈ s.db.orders)
    (hch : Payment.Charged s.pay o.idempotencyKey) :
    ∃ e, s.pay.execs.filter (successUnder o.idempotencyKey) = [e] ∧ e.body.orderId = o.id ∧
      e.body.amount = o.amountCents ∧ ∀ l ∈ linesOf s.db o.id, Catalog.Exists s.cat l.productId := by
  have J := payment_inv_reachable h
  have C := charges_reachable h
  obtain ⟨e, he, hk, hs⟩ := hch
  obtain ⟨hid, hamt, hlines⟩ := exec_order h he ho hk
  refine ⟨e, ?_, hid, hamt, hlines⟩
  refine Table.filter_eq_singleton (List.Nodup.of_map _ J.once) he (by simp [successUnder, hs, hk]) ?_
  intro e' he' hsu
  simp only [successUnder, decide_eq_true_eq] at hsu
  exact exec_unique J C he' he (hsu.2.trans hk.symm)

end Gestalt.Checkout
