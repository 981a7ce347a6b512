import Gestalt.L4Checkout.Publish
import Gestalt.L5Consumers.Notifications
import Gestalt.L5Consumers.Reviews

/-!
# Producer and consumers agree on the event format

`handle_event` of review-service on the bytes of a message, down to the calls of
`update_one` it makes, and what these do to the eligibility collection; then, for
every event order-service publishes, what the two `handle_event` functions make
of its message.

`event_format_agreed`: neither raises, the notification is the one for the event
type with the order's own id, amount or reason, and the eligibility documents
written are those of the order's line items.
-/
namespace Gestalt.Reviews

/-- `update_one({"_id": id}, {"$set": {"orderId", "deliveredAt"}, …}, upsert=True)` -/
structure Update where
  id : String
  orderId : Json
  deliveredAt : Json

/-- The updates `handle_event` makes; `none`: it raises before the first.
mirrors services/review-service/app/consumer.py:40-57 -/
def updates (repr : Json → String) (raw : ByteArray) : Option (List Update) :=
  match Json.decode raw with
  | some (.obj event) =>
    if !(Json.get event "type").isStr "order.delivered" then some []
    else
      match Json.lookup event "userId", Json.lookup event "orderId",
        ((Json.lookup event "productIds").getD (.arr [])).iter with
      | some userId, some orderId, some productIds => some (productIds.map fun productId =>
          ⟨userId.text repr ++ ":" ++ productId.text repr, orderId, Json.get event "deliveredAt"⟩)
      | _, _, _ => none
  | _ => none

/-- On the collection. A document keeps strings here, or no time; `none` stands
for another value in the `$set`. -/
def Update.apply (c : Collection) (u : Update) : Option Collection :=
  match u.orderId, u.deliveredAt with
  | .str orderId, .str deliveredAt => some (c.upsert u.id orderId (some deliveredAt))
  | .str orderId, .null => some (c.upsert u.id orderId none)
  | _, _ => none

/-- `handle_event` of the bytes of a message, MongoDB working. -/
def handleMessage (repr : Json → String) (c : Collection) (raw : ByteArray) : Option Collection :=
  (updates repr raw).bind fun us => us.foldlM Update.apply c

section Updates

variable (orderId deliveredAt : String)

/-- Updates with one order and one time. -/
theorem foldlM_apply (ids : List String) (c : Collection) :
    (ids.map fun id => (⟨id, .str orderId, .str deliveredAt⟩ : Update)).foldlM Update.apply c =
      some (ids.foldl (fun c id => c.upsert id orderId (some deliveredAt)) c) := by
  induction ids generalizing c with
  | nil => rfl
  | cons id ids ih => exact ih (c.upsert id orderId (some deliveredAt))

theorem get_foldl (ids : List String) (c : Collection) (k : String) :
    (ids.foldl (fun c id => c.upsert id orderId (some deliveredAt)) c).get k =
      if k ∈ ids then some ⟨k, orderId, some deliveredAt, (c.reviewed k).getD false⟩ else c.get k := by
  induction ids generalizing c with
  | nil => simp
  | cons id ids ih =>
    -- the flag an upsert leaves is the one that was there
    have hflag : ((c.upsert id orderId (some deliveredAt)).reviewed k).getD false =
        (c.reviewed k).getD false := by
      rw [Collection.reviewed, Collection.get_upsert]
      split
      · rename_i hk
        rw [hk]
        rfl
      · rfl
    rw [List.foldl_cons, ih, Collection.get_upsert, hflag]
    by_cases hk : k = id
    · subst hk
      simp
    · simp [hk]

end Updates

end Gestalt.Reviews

namespace Gestalt.Checkout

open Gestalt.Orders (Order Line linesOf)

variable (repr : Json → String) (isoformat : Nat → String)

/-- The notification for an event of the type. -/
def EventType.notice (order : Order) : EventType → Option String
  | .created => some ("Order " ++ order.id ++ " received")
  | .paid => some ("Order " ++ order.id ++ " paid — " ++ toString order.amountCents)
  | .failed => some ("Order " ++ order.id ++ " failed: " ++ order.failureReason.getD "None")
  | .delivered => none

theorem notified {ev : Event} {order : Order} {lines : List Line} (h : ev.About order lines) :
    Notifications.handleEvent repr (ev.message isoformat) = some (ev.type.notice order).toList := by
  rw [Notifications.handleEvent, decode_message]
  cases ev with
  | created oid uid items amount =>
    obtain ⟨rfl, -⟩ := h
    rfl
  | paid oid uid amount paidAt =>
    obtain ⟨rfl, -, rfl⟩ := h
    rfl
  | failed oid uid reason =>
    obtain ⟨rfl, -, rfl⟩ := h
    have hreason : ((order.failureReason.map Json.str).getD .null).text repr =
        order.failureReason.getD "None" := by
      cases order.failureReason <;> rfl
    change some ["Order " ++ order.id ++ " failed: " ++
      ((order.failureReason.map Json.str).getD .null).text repr] = _
    rw [hreason]
    rfl
  | delivered oid uid productIds deliveredAt => rfl

/-- The ids of the eligibility documents of an order's line items. -/
def eligibilityIds (order : Order) (lines : List Line) : List String :=
  lines.map fun l => order.userId ++ ":" ++ l.productId

theorem updates_message {ev : Event} {order : Order} {lines : List Line} (h : ev.About order lines) :
    Reviews.updates repr (ev.message isoformat) = some (match ev with
      | .delivered _ _ _ deliveredAt => (eligibilityIds order lines).map fun id =>
        ⟨id, .str order.id, .str (isoformat deliveredAt)⟩
      | _ => []) := by
  rw [Reviews.updates, decode_message]
  cases ev with
  | delivered oid uid productIds deliveredAt =>
    obtain ⟨rfl, rfl, rfl⟩ := h
    change some (((lines.map Line.productId).map Json.str).map _) = _
    simp only [eligibilityIds, List.map_map]
    rfl
  | _ => rfl

/-- What an event about the order makes of the eligibility collection. -/
def Event.Grants (order : Order) (lines : List Line) (c c' : Reviews.Collection) : Event → Prop
  | .delivered _ _ _ deliveredAt => ∀ k, c'.get k = if k ∈ eligibilityIds order lines
      then some ⟨k, order.id, some (isoformat deliveredAt), (c.reviewed k).getD false⟩ else c.get k
  | _ => c' = c

theorem granted {ev : Event} {order : Order} {lines : List Line} (h : ev.About order lines)
    (c : Reviews.Collection) : ∃ c', Reviews.handleMessage repr c (ev.message isoformat) = some c' ∧
      ev.Grants isoformat order lines c c' := by
  rw [Reviews.handleMessage, updates_message repr isoformat h]
  cases ev with
  | delivered oid uid productIds deliveredAt =>
    exact ⟨_, Reviews.foldlM_apply _ _ _ c, Reviews.get_foldl _ _ _ c⟩
  | _ => exact ⟨c, rfl, rfl⟩

/-- **Producer and consumers agree on the event format.** Whatever a run or a
pass has published, each `handle_event` takes its message without raising; the
notification says what the order's row said, and the eligibility documents
written are those of the order's line items. -/
theorem event_format_agreed (cfg : Config) (cat : Catalog.Products) {s : Sys}
    (hr : (lts cfg cat).Reachable s) : ∀ x ∈ s.trace, ∀ ev, x.call = .publish ev →
      ∃ order, Seen cfg cat s order ∧ ev.About order (linesOf s.db order.id) ∧
        Notifications.handleEvent repr (ev.message isoformat) = some (ev.type.notice order).toList ∧
        ∀ c, ∃ c', Reviews.handleMessage repr c (ev.message isoformat) = some c' ∧
          ev.Grants isoformat order (linesOf s.db order.id) c c' := by
  intro x hx ev hev
  obtain ⟨order, hseen, habout⟩ := published_about hr x hx ev hev
  exact ⟨order, hseen, habout, notified repr isoformat habout, granted repr isoformat habout⟩

theorem event_format_agreed_abandoned : ∃ s : Sys, theirEvents s = true ∧
    ∀ x ∈ s.trace, ∀ ev, x.call = .publish ev → ∃ order,
      Notifications.handleEvent (fun _ => "") (ev.message toString) = some (ev.type.notice order).toList := by
  obtain ⟨s, hr, hs⟩ : ∃ s, (lts {} shop).Reachable s ∧ theirEvents s = true :=
    LTS.reachable_of_exec paidAndAbandoned rfl (by decide +kernel)
  refine ⟨s, hs, ?_⟩
  intro x hx ev hev
  obtain ⟨order, -, -, hnote, -⟩ := event_format_agreed (fun _ => "") toString {} shop hr x hx ev hev
  exact ⟨order, hnote⟩

/-! ## The model of review-service -/

/-- On the bytes of an `order.delivered`, `handle_event` is `Reviews.handleEvent`
on what they say. -/
theorem handleMessage_delivered (user : Reviews.UserId) (oid : String) (productIds : List String)
    (deliveredAt : Nat) (c : Reviews.Collection) :
    Reviews.handleMessage repr c ((Event.delivered oid user.text productIds deliveredAt).message isoformat) =
      Reviews.handleEvent c (.delivered ⟨user, oid, some (isoformat deliveredAt), productIds⟩) := by
  let order : Order := ⟨oid, user.text, .paid, 0, "", true, none, true, 0, 0⟩
  have habout : (Event.delivered oid user.text productIds deliveredAt).About order
      (productIds.map fun p => ⟨p, 1⟩) := ⟨rfl, rfl, by simp [Function.comp_def]⟩
  rw [Reviews.handleMessage, updates_message repr isoformat habout]
  refine (Reviews.foldlM_apply _ _ _ c).trans ?_
  simp only [eligibilityIds, List.map_map, Reviews.handleEvent, List.foldl_map]
  rfl

/-- On the bytes of any other event it does nothing. -/
theorem handleMessage_other {ev : Event} (h : ev.type ≠ .delivered) (c : Reviews.Collection) :
    Reviews.handleMessage repr c (ev.message isoformat) = Reviews.handleEvent c .other := by
  rw [Reviews.handleMessage, Reviews.updates, decode_message]
  cases ev with
  | delivered => exact absurd rfl h
  | _ => rfl

end Gestalt.Checkout
