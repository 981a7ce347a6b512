import Gestalt.Core.Json
import Gestalt.L4Checkout.EventLog

/-!
# What order-service publishes

`publish_order_event` and the payloads its six callers build by hand: three in
`create_order` (`order.created`, `order.paid`, and `order.failed` in two places,
which build the same dict), one in the reconciliation pass, one in the delivery
pass. A `datetime` is a number of ticks here; `isoformat` is its text.

`published_about`: whatever is published is about an order as its publisher
read it from the database, and about that order's own line items.
-/
namespace Gestalt.Checkout

open Gestalt.Orders (Db Order OrderItem Line cores linesOf)

variable {cfg : Config} {cat : Catalog.Products} {s s' : Sys}

/-! ## The message -/

def EventType.name : EventType → String
  | .created => "order.created"
  | .paid => "order.paid"
  | .failed => "order.failed"
  | .delivered => "order.delivered"

/-- The payload dicts.
mirrors services/order-service/app/routers/orders.py:105-115, 147-151, 180-184,
196-205, services/order-service/app/reconciliation.py:50-54 and
services/order-service/app/delivery_simulator.py:42-51 -/
def Event.payload (isoformat : Nat → String) : Event → List (String × Json)
  | .created oid uid items amount =>
    [("orderId", .str oid), ("userId", .str uid), ("status", .str "PENDING"),
      ("items", .arr (items.map fun l =>
        .obj [("productId", .str l.productId), ("quantity", .num l.quantity)])),
      ("amount", .num amount)]
  | .paid oid uid amount paidAt =>
    [("orderId", .str oid), ("userId", .str uid), ("amount", .num amount),
      ("paidAt", .str (isoformat paidAt))]
  | .failed oid uid reason =>
    [("orderId", .str oid), ("userId", .str uid), ("reason", (reason.map .str).getD .null)]
  | .delivered oid uid productIds deliveredAt =>
    [("orderId", .str oid), ("userId", .str uid), ("productIds", .arr (productIds.map .str)),
      ("deliveredAt", .str (isoformat deliveredAt))]

/-- The value of the message: `{"type": event_type, **payload}`, no payload
having a `type` of its own.
mirrors services/order-service/app/kafka_producer.py:27-35 -/
def publishOrderEvent (eventType : String) (payload : List (String × Json)) : ByteArray :=
  Json.encode (.obj (("type", .str eventType) :: payload))

def Event.message (isoformat : Nat → String) (ev : Event) : ByteArray :=
  publishOrderEvent ev.type.name (ev.payload isoformat)

theorem decode_message (isoformat : Nat → String) (ev : Event) :
    Json.decode (ev.message isoformat) =
      some (.obj (("type", .str ev.type.name) :: ev.payload isoformat)) :=
  Json.decode_encode _

/-! ## What is published is so -/

/-- The event says of the order what its row says. -/
def Event.About (order : Order) (lines : List Line) : Event → Prop
  | .created oid uid items amount =>
    oid = order.id ∧ uid = order.userId ∧ items = lines ∧ amount = order.amountCents
  | .paid oid uid amount _ => oid = order.id ∧ uid = order.userId ∧ amount = order.amountCents
  | .failed oid uid reason => oid = order.id ∧ uid = order.userId ∧ reason = order.failureReason
  | .delivered oid uid productIds _ =>
    oid = order.id ∧ uid = order.userId ∧ productIds = lines.map Line.productId

/-- The database has had this row. -/
def Seen (cfg : Config) (cat : Catalog.Products) (s : Sys) (order : Order) : Prop :=
  ∃ s₀ ls, (lts cfg cat).Reachable s₀ ∧ (lts cfg cat).Run s₀ ls s ∧
    Orders.find s₀.db order.id = some order

theorem Seen.now (hr : (lts cfg cat).Reachable s) {oid : String} {order : Order}
    (h : Orders.find s.db oid = some order) : Seen cfg cat s order := by
  refine ⟨s, [], hr, .nil s, ?_⟩
  rw [(Orders.find_some h).2]
  exact h

theorem Seen.step {l : Lbl} {order : Order} (h : Seen cfg cat s order) (hs : step cfg s l = some s') :
    Seen cfg cat s' order := by
  obtain ⟨s₀, ls, hr, hrun, hf⟩ := h
  exact ⟨s₀, ls ++ [l], hr, hrun.snoc hs, hf⟩

theorem Seen.core {order : Order} (h : Seen cfg cat s order) : order.core ∈ cores s.db := by
  obtain ⟨s₀, ls, -, hrun, hf⟩ := h
  exact cores_run hrun _ (Orders.core_mem hf).1

/-- The order a delivery pass is at, and the items it has loaded for it. -/
def DeliveryPc.holds : DeliveryPc → Option (String × List OrderItem)
  | .next => none
  | .commit order items _ => some (order.id, items)
  | .refresh oid items _ => some (oid, items)
  | .announce order items _ => some (order.id, items)

/-- What the processes that are to publish have read. -/
structure Informed (cfg : Config) (cat : Catalog.Products) (s : Sys) : Prop where
  saga : ∀ (i : Nat) (g : Saga) (oid : String) (b : Bool) (order : Order), s.sagas[i]? = some g →
    g.phase = .saga oid (.ended b (.announce order)) → Seen cfg cat s order
  pass : ∀ (j : Nat) (p : Pass) (order : Order) (items : List OrderItem), s.passes[j]? = some p →
    p.alive = true → p.pc = .announce order items → Seen cfg cat s order
  delivery : ∀ (j : Nat) (p : DeliveryPass) (order : Order) (items : List OrderItem) (at_ : Nat),
    s.deliveries[j]? = some p → p.alive = true → p.pc = .announce order items at_ → Seen cfg cat s order
  snap : ∀ (j : Nat) (p : DeliveryPass), s.deliveries[j]? = some p → p.alive = true →
    ∀ c ∈ cores p.snap, c ∈ cores s.db ∧ linesOf p.snap c.id = linesOf s.db c.id
  items : ∀ (j : Nat) (p : DeliveryPass), s.deliveries[j]? = some p → p.alive = true →
    ∀ oid items, p.pc.holds = some (oid, items) →
      (∃ c ∈ cores s.db, c.id = oid) ∧ items.map OrderItem.line = linesOf s.db oid

/-- A run that is to publish its outcome was so before, or has just read its row. -/
theorem announce_from {l : Lbl} (h : step cfg s l = some s') {i : Nat} {g' : Saga} {oid : String} {b : Bool}
    {order : Order} (hg' : s'.sagas[i]? = some g')
    (hp' : g'.phase = .saga oid (.ended b (.announce order))) :
    (∃ g, s.sagas[i]? = some g ∧ g.phase = .saga oid (.ended b (.announce order))) ∨
      Orders.find s.db oid = some order := by
  cases step_shape h with
  | spawn r =>
    rcases Procs.spawn_cases hg' with hg | ⟨-, rfl⟩
    · exact .inl ⟨g', hg, hp'⟩
    · cases hp'
  | run j a s' hrun =>
    cases hrun with
    | prelude g g1 e hg hal hne hm =>
      rcases Procs.set_cases hg hg' with ⟨rfl, rfl⟩ | ⟨-, hj⟩
      · cases hm <;> cases hp'
      · exact .inl ⟨g', hj, hp'⟩
    | saga g oid' pc pc1 e hg hal hp hm =>
      rcases Procs.set_cases hg hg' with ⟨rfl, rfl⟩ | ⟨-, hj⟩
      · cases hm <;> cases hp'
        rename_i hf
        exact .inr hf
      · exact .inl ⟨g', hj, hp'⟩
  | crash j g hg =>
    rcases Procs.set_cases hg hg' with ⟨rfl, rfl⟩ | ⟨-, hj⟩
    · exact .inl ⟨g, hg, hp'⟩
    · exact .inl ⟨g', hj, hp'⟩
  | pay l p hl hp => exact .inl ⟨g', hg', hp'⟩
  | other l c e s' hb _ => exact .inl ⟨g', hb.sagas ▸ hg', hp'⟩

/-- What a delivery pass holds after its step: what it held, or what its snapshot says. -/
theorem DeliveryMoves.holds {p p' : DeliveryPass} {a : Act} {e : Eff} (h : DeliveryMoves s p a p' e)
    {oid : String} {items : List OrderItem} (hp : p'.pc.holds = some (oid, items)) :
    p.pc.holds = some (oid, items) ∨
      ∃ order, Orders.find p.snap oid = some order ∧ items = Orders.loadItems p.snap oid := by
  cases h with
  | took oid' rest order hpc ht hf =>
    cases hp
    have hid := (Orders.find_some hf).2
    exact .inr ⟨order, hid ▸ hf, by rw [hid]⟩
  | marked order items' at_ hpc =>
    cases hp
    exact .inl (by rw [hpc]; rfl)
  | loaded oid' items' at_ order hpc hf =>
    cases hp
    exact .inl (by rw [hpc, (Orders.find_some hf).2]; rfl)
  | announced order items' at_ logged hpc => cases hp

theorem DeliveryMoves.snap {p p' : DeliveryPass} {a : Act} {e : Eff} (h : DeliveryMoves s p a p' e) :
    p'.snap = p.snap ∨ p'.snap = s.db := by
  cases h with
  | loaded oid items at_ order hpc hf => exact .inr rfl
  | _ => exact .inl rfl

theorem informed_step {l : Lbl} (hr : (lts cfg cat).Reachable s) (I : Informed cfg cat s)
    (h : step cfg s l = some s') : Informed cfg cat s' := by
  have K := keys_reachable hr
  have hkept : ∀ c ∈ cores s.db, c ∈ cores s'.db ∧ linesOf s'.db c.id = linesOf s.db c.id :=
    fun c hc => ⟨cores_step h c hc, lines_step K h c hc⟩
  constructor
  · intro i g' oid b order hg' hp'
    rcases announce_from h hg' hp' with ⟨g, hg, hp⟩ | hf
    · exact (I.saga i g oid b order hg hp).step h
    · exact (Seen.now hr hf).step h
  · intro j p' order items hj hal hpc
    cases pass_from h hj with
    | same hj' _ => exact (I.pass j p' order items hj' hal hpc).step h
    | new _ _ hp => subst hp; cases hpc
    | crashed hd => rw [hal] at hd; cases hd
    | moved a p e _ hj' hal' hm =>
      cases hm with
      | loaded oid items' order' hpc' hf =>
        cases hpc
        exact (Seen.now hr hf).step h
      | took oid rest order' _ _ _ => simp [takeUp] at hpc
      | _ => cases hpc
  · intro j p' order items at_ hj hal hpc
    cases delivery_from h hj with
    | same hj' _ => exact (I.delivery j p' order items at_ hj' hal hpc).step h
    | new _ _ hp => subst hp; cases hpc
    | crashed hd => rw [hal] at hd; cases hd
    | moved a p e _ hj' hal' hm =>
      cases hm with
      | loaded oid items' at' order' hpc' hf =>
        cases hpc
        exact (Seen.now hr hf).step h
      | _ => cases hpc
  · intro j p' hj hal c hc
    have hlater : c ∈ cores s.db → linesOf p'.snap c.id = linesOf s.db c.id →
        c ∈ cores s'.db ∧ linesOf p'.snap c.id = linesOf s'.db c.id := by
      intro h1 h2
      exact ⟨(hkept c h1).1, h2.trans (hkept c h1).2.symm⟩
    cases delivery_from h hj with
    | same hj' _ =>
      obtain ⟨h1, h2⟩ := I.snap j p' hj' hal c hc
      exact hlater h1 h2
    | new _ _ hp => subst hp; exact hlater hc rfl
    | crashed hd => rw [hal] at hd; cases hd
    | moved a p e _ hj' hal' hm =>
      rcases hm.snap with he | he
      · rw [he] at hc hlater ⊢
        obtain ⟨h1, h2⟩ := I.snap j p hj' hal' c hc
        exact hlater h1 h2
      · rw [he] at hc hlater ⊢
        exact hlater hc rfl
  · intro j p' hj hal oid items hp'
    have hlater : (∃ c ∈ cores s.db, c.id = oid) ∧ items.map OrderItem.line = linesOf s.db oid →
        (∃ c ∈ cores s'.db, c.id = oid) ∧ items.map OrderItem.line = linesOf s'.db oid := by
      rintro ⟨⟨c, hc, rfl⟩, hl⟩
      exact ⟨⟨c, (hkept c hc).1, rfl⟩, hl.trans (hkept c hc).2.symm⟩
    cases delivery_from h hj with
    | same hj' _ => exact hlater (I.items j p' hj' hal oid items hp')
    | new _ _ hp => subst hp; cases hp'
    | crashed hd => rw [hal] at hd; cases hd
    | moved a p e _ hj' hal' hm =>
      rcases hm.holds hp' with hold | ⟨order, hf, rfl⟩
      · exact hlater (I.items j p hj' hal' oid items hold)
      · obtain ⟨hc, hid⟩ := Orders.core_mem hf
        obtain ⟨h1, h2⟩ := I.snap j p hj' hal' _ hc
        rw [hid] at h2
        exact hlater ⟨⟨_, h1, hid⟩, h2⟩

theorem informed_reachable (h : (lts cfg cat).Reachable s) : Informed cfg cat s := by
  refine LTS.reachable_induct ?_ ?_ h
  · intro s hs
    subst hs
    constructor <;> intro j p <;> simp [start]
  · intro s l s' hr I hst
    exact informed_step hr I hst

/-! ## The publish sites -/

/-- What a step publishes, by whom, and from which row. -/
inductive Publishes (s : Sys) : Event → Order → Prop
  | created (i : Nat) (g : Saga) (oid : String) (order : Order) : s.sagas[i]? = some g →
      g.phase = .saga oid .created → Orders.find s.db oid = some order →
      Publishes s (.created order.id order.userId g.rawItems order.amountCents) order
  | paid (i : Nat) (g : Saga) (oid : String) (order : Order) : s.sagas[i]? = some g →
      g.phase = .saga oid (.ended true (.announce order)) →
      Publishes s (.paid order.id order.userId order.amountCents s.now) order
  | failed (i : Nat) (g : Saga) (oid : String) (order : Order) : s.sagas[i]? = some g →
      g.phase = .saga oid (.ended false (.announce order)) →
      Publishes s (.failed order.id order.userId order.failureReason) order
  | overdue (j : Nat) (p : Pass) (order : Order) (items : List OrderItem) : s.passes[j]? = some p →
      p.alive = true → p.pc = .announce order items →
      Publishes s (.failed order.id order.userId order.failureReason) order
  | delivered (j : Nat) (p : DeliveryPass) (order : Order) (items : List OrderItem) (at_ : Nat) :
      s.deliveries[j]? = some p → p.alive = true → p.pc = .announce order items at_ →
      Publishes s (.delivered order.id order.userId (items.map OrderItem.productId) at_) order

/-- What a run publishes. -/
theorem saga_publishes {i : Nat} {g g' : Saga} {a : Act} {ev : Event} {logged : Bool}
    (hg : s.sagas[i]? = some g) (h : stepSaga cfg s g a = some (g', .publish ev logged)) :
    ∃ order, Publishes s ev order := by
  unfold stepSaga at h
  split at h
  · rename_i oid pc hp
    obtain ⟨⟨pc', e⟩, hst, he⟩ := Option.map_eq_some_iff.mp h
    cases he
    unfold saga at hst
    split at hst
    case h_1 =>
      obtain ⟨order, ho, he⟩ := Option.map_eq_some_iff.mp hst
      cases he
      exact ⟨order, .created i g oid order hg hp ho⟩
    case h_11 =>
      rename_i paid order _
      cases hst
      cases paid with
      | true => exact ⟨order, .paid i g oid order hg hp⟩
      | false => exact ⟨order, .failed i g oid order hg hp⟩
    case h_2 => split at hst <;> cases hst
    case h_6 =>
      obtain ⟨order, -, he⟩ := Option.map_eq_some_iff.mp hst
      cases (Prod.mk.inj he).2
    case h_7 =>
      split at hst
      · split at hst <;> cases hst
      · cases hst
    case h_10 =>
      obtain ⟨order, -, he⟩ := Option.map_eq_some_iff.mp hst
      cases he
    all_goals cases hst
  · cases prelude_moves h

/-- An effect that publishes. -/
theorem issued_publish {c : Caller} {e : Eff} {x : Issued} (hx : x ∈ e.issued s c) {ev : Event}
    (hev : x.call = .publish ev) : ∃ logged, e = .publish ev logged := by
  cases e <;> simp only [Eff.issued, List.not_mem_nil, List.mem_singleton] at hx <;> subst hx <;>
    cases hev
  exact ⟨_, rfl⟩

theorem step_publishes {l : Lbl} (h : step cfg s l = some s') {x : Issued} {ev : Event}
    (hx : x ∈ s'.trace) (hev : x.call = .publish ev) : x ∈ s.trace ∨ ∃ order, Publishes s ev order := by
  cases l with
  | saga i a =>
    simp only [step] at h
    split at h
    · rename_i g hg
      split at h
      · obtain ⟨⟨g', e⟩, hst, rfl⟩ := Option.map_eq_some_iff.mp h
        rcases List.mem_append.mp hx with hold | hnew
        · exact .inl hold
        · obtain ⟨logged, rfl⟩ := issued_publish hnew hev
          exact .inr (saga_publishes hg hst)
      · cases h
    · cases h
  | pass j a =>
    obtain ⟨p, p', e, hj, hal, hm, rfl⟩ := step_pass h
    rcases List.mem_append.mp hx with hold | hnew
    · exact .inl hold
    · obtain ⟨logged, rfl⟩ := issued_publish hnew hev
      cases hm with
      | announced order items _ hpc => exact .inr ⟨order, .overdue j p order items hj hal hpc⟩
  | delivery j a =>
    obtain ⟨p, p', e, hj, hal, hm, rfl⟩ := step_delivery h
    rcases List.mem_append.mp hx with hold | hnew
    · exact .inl hold
    · obtain ⟨logged, rfl⟩ := issued_publish hnew hev
      cases hm with
      | announced order items at_ _ hpc => exact .inr ⟨order, .delivered j p order items at_ hj hal hpc⟩
  | crash i | crashPass i | crashDelivery i =>
    simp only [step, Option.map_eq_some_iff] at h
    obtain ⟨p, -, rfl⟩ := h
    exact .inl hx
  | pay l =>
    simp only [step] at h
    split at h
    · obtain ⟨p, -, rfl⟩ := Option.map_eq_some_iff.mp h
      exact .inl hx
    · cases h
  | request r | recon | deliver | cart u lines | tick =>
    simp only [step, Option.some.injEq] at h
    subst h
    exact .inl hx

/-- What is published is about the row its publisher read. -/
theorem Publishes.about {ev : Event} {order : Order} (hr : (lts cfg cat).Reachable s)
    (h : Publishes s ev order) : Seen cfg cat s order ∧ ev.About order (linesOf s.db order.id) := by
  have I := informed_reachable hr
  cases h with
  | created i g oid order hg hp hf =>
    obtain ⟨c, -, -, -, -, hl, -⟩ := ((keys_reachable hr).saga i g hg).own oid _ hp
    refine ⟨Seen.now hr hf, rfl, rfl, ?_, rfl⟩
    rw [(Orders.find_some hf).2, hl]
  | paid i g oid order hg hp => exact ⟨I.saga i g oid true order hg hp, rfl, rfl, rfl⟩
  | failed i g oid order hg hp => exact ⟨I.saga i g oid false order hg hp, rfl, rfl, rfl⟩
  | overdue j p order items hj hal hpc => exact ⟨I.pass j p order items hj hal hpc, rfl, rfl, rfl⟩
  | delivered j p order items at_ hj hal hpc =>
    refine ⟨I.delivery j p order items at_ hj hal hpc, rfl, rfl, ?_⟩
    have hl := (I.items j p hj hal order.id items (by rw [hpc]; rfl)).2
    rw [← hl, List.map_map]
    rfl

/-- Whatever any run or pass has ever published is about an order as the
database had it, and its line items. -/
def Truthful (cfg : Config) (cat : Catalog.Products) (s : Sys) : Prop :=
  ∀ x ∈ s.trace, ∀ ev, x.call = .publish ev →
    ∃ order, Seen cfg cat s order ∧ ev.About order (linesOf s.db order.id)

/-- **What is published is so.** -/
theorem published_about (h : (lts cfg cat).Reachable s) : Truthful cfg cat s := by
  refine LTS.reachable_induct ?_ ?_ h
  · intro s hs x hx
    subst hs
    cases hx
  · intro s l s' hr I hst x hx ev hev
    obtain ⟨order, hseen, habout⟩ : ∃ order, Seen cfg cat s order ∧ ev.About order (linesOf s.db order.id) := by
      rcases step_publishes hst hx hev with hold | ⟨order, hp⟩
      · exact I x hold ev hev
      · exact ⟨order, hp.about hr⟩
    have hl : linesOf s'.db order.id = linesOf s.db order.id :=
      lines_step (keys_reachable hr) hst order.core hseen.core
    exact ⟨order, hseen.step hst, hl ▸ habout⟩

end Gestalt.Checkout
