import Gestalt.L2Stores.Catalog
import Gestalt.L2Stores.Orders
import Gestalt.L3Payment.Charge

/-!
# order-service: what the saga makes of an answer

`app/clients.py` turns the response to each outbound call into what
`create_order` acts on: a cart, or the `AppError` that ends the request; for a
reservation and a charge, success or a raw reason. The dicts `{"reserved": …}`
and `{"charged": …}` are an `Except` with the reason as its error. The price
lookup is `Lookup.getPrice`.
-/
namespace Gestalt.Checkout

open Gestalt.Orders (Line)

def transportError (exc : String) : String := "transport_error:" ++ exc

def upstreamError (code : Nat) : String := "upstream_error_" ++ toString code

/-- `reserve_stock`, given the response.
mirrors services/order-service/app/clients.py:48-64 -/
def reserveResult : Response → Except String Unit
  | .httpError exc => .error (transportError exc)
  | .status 200 _ => .ok ()
  | .status 409 _ => .error "insufficient_stock"
  | .status 404 _ => .error "product_not_found"
  | .status code _ => .error (upstreamError code)

/-- `charge`, given the response.
mirrors services/order-service/app/clients.py:95-115 -/
def chargeResult : Response → Except String Unit
  | .httpError exc => .error (transportError exc)
  | .status 200 _ => .ok ()
  | .status 402 code => .error (code.getD "payment_declined")
  | .status code _ => .error (upstreamError code)

/-- `get_cart_items`, given the response; `cart` is the body of a 200.
mirrors services/order-service/app/clients.py:118-129 -/
def getCartItems (cart : List Line) : Response → Except AppError (List Line)
  | .httpError exc => .error ⟨"CART_SERVICE_UNAVAILABLE", "cart-service is unavailable: " ++ exc, 503⟩
  | .status 200 _ => .ok cart
  | .status _ _ => .error ⟨"CART_UNAVAILABLE", "Unable to retrieve cart", 502⟩

/-! ## When a call counts as a success -/

theorem reserveResult_ok {r : Response} (h : reserveResult r = .ok ()) : r.ok = true := by
  unfold reserveResult at h
  split at h <;> first | rfl | cases h

theorem reserveResult_error {r : Response} {reason : String} (h : reserveResult r = .error reason) :
    r.ok = false := by
  unfold reserveResult at h
  split at h
  · rfl
  · cases h
  · rfl
  · rfl
  · rename_i h200 _ _
    unfold Response.ok
    split
    · rename_i he; cases he; exact absurd rfl h200
    · rfl

theorem chargeResult_ok {r : Response} (h : chargeResult r = .ok ()) : r.ok = true := by
  unfold chargeResult at h
  split at h <;> first | rfl | cases h

theorem chargeResult_fault (f : Fault) : ∃ reason, chargeResult f.response = .error reason := by
  cases h : chargeResult f.response with
  | ok u => have := chargeResult_ok h; simp at this
  | error reason => exact ⟨reason, rfl⟩

/-- A call the caller sees succeed was handled, and the callee's own answer was 200. -/
theorem seen_ok {r : Response} {d : Delivery} (h : (d.seen r).ok = true) : d = .answered ∧ r.ok = true := by
  cases d with
  | answered => exact ⟨rfl, h⟩
  | lost f => simp [Delivery.seen] at h
  | dropped f => simp [Delivery.seen] at h

end Gestalt.Checkout
