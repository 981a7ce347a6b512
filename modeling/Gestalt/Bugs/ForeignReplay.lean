import Gestalt.L4Checkout.Keys

/-!
# A reused Idempotency-Key shows another user's order

Status: open.

Behaviour: `orders.idempotency_key` is unique across users, and both replay paths
of `create_order` look the key up without looking at the owner
(services/order-service/app/routers/orders.py:62-68 and 95-102). A request whose
key is already taken by another user's order is answered 201 with that order:
its id, its user id, its items, its amount.

Sibling path: `get_order` answers 404 unless `order.user_id == user.user_id`
(orders.py:213), and `list_orders` selects by `user_id` (orders.py:228).
AUTHZ_BASELINE.md:116-121 keeps that check as the one thing that decides which
end-user's data a request may touch.

Counterexample: `u1` orders under the key `k`; `u2`, at the same time, and `u3`,
afterwards, send the key `k` too. Both are shown `u1`'s order.

Fix: in both paths, compare `existing.user_id` with `user.user_id`, or make the
unique constraint one of `(user_id, idempotency_key)`.
-/
namespace Gestalt.Checkout

open Gestalt.Orders (OrderOut)

/-- `sameKey`, and then a request of a third user with the key. -/
def foreignKey : List Lbl :=
  sameKey ++ [.request ⟨"u3", some "k", some [onePen]⟩, .saga 2 .select]

/-- Run `i`'s response is an order of somebody else. -/
def showsForeign (s : Sys) (i : Nat) : Bool :=
  (s.sagas[i]?).any fun g => (g.reply).any fun r => match r with
    | .ok out => out.userId ≠ g.req.userId
    | .error _ => false

/-- **Counterexample.** Both replay paths. -/
theorem create_order_shows_foreign_order : ∃ s : Sys, (lts {} [⟨"p1", "pen", 10, 5⟩]).Reachable s ∧
    ∀ i, i = 1 ∨ i = 2 → ∃ g out, s.sagas[i]? = some g ∧ g.reply = some (.ok out) ∧
      out.userId ≠ g.req.userId := by
  have hrun : ∃ s, (lts {} [⟨"p1", "pen", 10, 5⟩]).Reachable s ∧
      (showsForeign s 1 && showsForeign s 2) = true :=
    LTS.reachable_of_exec foreignKey rfl (by decide +kernel)
  obtain ⟨s, hr, hs⟩ := hrun
  have shown : ∀ i, showsForeign s i = true → ∃ g out, s.sagas[i]? = some g ∧
      g.reply = some (.ok out) ∧ out.userId ≠ g.req.userId := by
    intro i hi
    obtain ⟨g, hg, hi⟩ := (Option.any_eq_true _ _).mp hi
    obtain ⟨r, hr, hi⟩ := (Option.any_eq_true _ _).mp hi
    cases r with
    | ok out => exact ⟨g, out, hg, hr, of_decide_eq_true hi⟩
    | error e => cases hi
  rw [Bool.and_eq_true] at hs
  refine ⟨s, hr, ?_⟩
  rintro i (rfl | rfl)
  · exact shown 1 hs.1
  · exact shown 2 hs.2

/-- **When a response is the caller's own.** A 201 of `create_order` shows the
caller's order exactly when the order stored under the request's key is the
caller's; `get_order` and `list_orders` show no others. -/
theorem order_shown_is_own_iff (cfg : Config) (cat : Catalog.Products) (s : Sys)
    (hr : (lts cfg cat).Reachable s) :
    (∀ (i : Nat) (g : Saga) (out : OrderOut), s.sagas[i]? = some g → g.reply = some (.ok out) →
      (out.userId = g.req.userId ↔
        ∀ o ∈ s.db.orders, o.idempotencyKey = g.key → o.userId = g.req.userId)) ∧
    (∀ user oid out, Orders.getOrder s.db user oid = .ok out → out.userId = user) ∧
    ∀ user limit offset rows outs, Orders.Ordered s.db user rows →
      Orders.listOrders s.db limit offset rows = .ok outs → ∀ out ∈ outs, out.userId = user := by
  have K := keys_reachable hr
  refine ⟨?_, ?_, ?_⟩
  · intro i g out hg hout
    obtain ⟨c, hc, hk, -, hu⟩ := reply_order K hg hout
    rw [← hu]
    constructor
    · -- the order under the key is the one shown, as keys are unique
      intro hown o ho hko
      have hco := K.keys.eq hc (Orders.mem_core ho) (hk.trans hko.symm)
      subst hco
      exact hown
    · intro hown
      obtain ⟨o, ho, rfl⟩ := Orders.mem_cores.mp hc
      exact hown o ho hk
  · intro user oid out hout
    exact Orders.getOrder_owner hout
  · intro user limit offset rows outs ho houts
    exact Orders.listOrders_owner ho houts

/-- `order_shown_is_own_iff` where both sides hold: a retry by the same user. -/
theorem order_shown_is_own_retry : ∃ s : Sys, ∃ g out, s.sagas[1]? = some g ∧
    g.reply = some (.ok out) ∧ out.userId = "u1" ∧
    (out.userId = g.req.userId ↔
      ∀ o ∈ s.db.orders, o.idempotencyKey = g.key → o.userId = g.req.userId) := by
  have hrun : ∃ s, (lts {} [⟨"p1", "pen", 10, 5⟩]).Reachable s ∧
      ((s.sagas[1]?).any fun g => (g.reply).any fun r => match r with
        | .ok out => out.userId = "u1"
        | .error _ => false) = true :=
    LTS.reachable_of_exec (sameKey.take 1 ++ [.request ⟨"u1", some "k", none⟩, .saga 0 .select,
      .saga 0 (.resolve (.status 200 none)), .saga 0 (.price .answered), .saga 0 (.flush "o1"),
      .saga 0 .commit, .saga 1 .select]) rfl (by decide +kernel)
  obtain ⟨s, hr, hs⟩ := hrun
  obtain ⟨g, hg, hs⟩ := (Option.any_eq_true _ _).mp hs
  obtain ⟨r, hrep, hs⟩ := (Option.any_eq_true _ _).mp hs
  cases r with
  | ok out =>
    exact ⟨s, g, out, hg, hrep, of_decide_eq_true hs, (order_shown_is_own_iff {} _ s hr).1 1 g out hg hrep⟩
  | error e => cases hs

end Gestalt.Checkout
