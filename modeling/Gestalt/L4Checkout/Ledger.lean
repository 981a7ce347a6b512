import Gestalt.Bugs.ChargedFailed
import Gestalt.L4Checkout.Conservation
import Gestalt.L4Checkout.Delivered
import Mathlib.Algebra.BigOperators.Ring.List

/-!
# The ledger

What payment-service has taken, catalog-service has given, at catalog prices. Both sides
are kept by order: every successful execution of `_process_charge` belongs to one order and
is for the cost of its lines (`takings`), and every movement of stock belongs to one order
(`books`). With no reconciliation pass, no call to catalog-service lost and no run giving up
on a charge that may still succeed (`orderlyLts`), each order's two sides agree once its run
has returned, so the totals do (`goods_for_money`). The ids of the catalog lead to its
products (`Lookup.Addressable`): the price of another one would be charged otherwise.
-/
namespace Gestalt.Checkout

open Gestalt.Orders (Order Line linesOf)
open Gestalt.Payment (Charged)

variable {cfg : Config} {cat : Catalog.Products} {s s' : Sys}

/-! ## Takings -/

/-- What an execution of `_process_charge` has taken. -/
def taken (e : Payment.Exec) : Int := if e.result.isSuccess then e.body.amount else 0

def takings (s : Sys) : Int := (s.pay.execs.map taken).sum

/-- The takings of one order: its cost if it has been charged, and nothing otherwise. -/
theorem order_takings (h : (lts cfg cat).Reachable s) (ha : Lookup.Addressable cfg.catalogService cat) {o : Order}
    (ho : o ∈ s.db.orders) :
    tally (fun e => e.body.orderId = o.id) taken s.pay.execs =
      if Charged s.pay o.idempotencyKey then cost cat (linesOf s.db o.id) else 0 := by
  have K := keys_reachable h
  have J := payment_inv_reachable h
  have P := priced_reachable h
  have C := charges_reachable h
  -- an execution that names the order is one under its key
  have hkey : ∀ e ∈ s.pay.execs, e.body.orderId = o.id → e.body.idempotencyKey = o.idempotencyKey := by
    intro e he hid
    obtain ⟨c, hc, -, hreq, -⟩ := J.exec e he
    obtain ⟨row, hrow, h1, h2, -⟩ := C.call c (List.mem_of_getElem? hc) e.body hreq
    obtain rfl := K.ids.eq hrow (Orders.mem_core ho) (h1.trans hid)
    exact h2.symm
  split
  · obtain ⟨e, he, hid, hamt, hlines⟩ := charged_once h ho ‹_›
    have hmem : e ∈ s.pay.execs.filter (successUnder o.idempotencyKey) := by simp [he]
    have hcost : cost s.cat (linesOf s.db o.id) = cost cat (linesOf s.db o.id) := by
      simp only [cost, P.prices]
    have htally : tally (fun e => e.body.orderId = o.id) taken s.pay.execs =
        tally (successUnder o.idempotencyKey) (fun e => e.body.amount) s.pay.execs := by
      unfold tally
      refine congrArg List.sum (List.map_congr_left fun e' he' => ?_)
      by_cases hs : e'.result.isSuccess = true
      · by_cases hk : e'.body.idempotencyKey = o.idempotencyKey
        · have := (exec_order h he' ho hk).1
          simp [successUnder, taken, hs, hk, this]
        · have : e'.body.orderId ≠ o.id := fun hid => hk (hkey e' he' hid)
          simp [successUnder, hk, this]
      · simp [successUnder, taken, hs]
    rw [htally, ← sum_filter, he]
    simp [hamt, amount_cost h ha ho hlines, hcost]
  · refine tally_eq_zero fun e he hid => ?_
    have hk := hkey e he (of_decide_eq_true hid)
    have hs : e.result.isSuccess ≠ true := fun hs => ‹¬ Charged _ _› ⟨e, he, hk, hs⟩
    simp [taken, hs]

/-- Every charge belongs to an order. -/
theorem takings_by_order (h : (lts cfg cat).Reachable s) (ha : Lookup.Addressable cfg.catalogService cat) :
    takings s = (s.db.orders.map fun o =>
      if Charged s.pay o.idempotencyKey then cost cat (linesOf s.db o.id) else 0).sum := by
  have J := payment_inv_reachable h
  have C := charges_reachable h
  have hids : (s.db.orders.map Order.id).Nodup := Orders.unique_ids (keys_reachable h).ids
  have hsum := sum_by_key hids (fun e : Payment.Exec => e.body.orderId) taken (l := s.pay.execs) (by
    intro e he _
    obtain ⟨c, hc, -, hreq, -⟩ := J.exec e he
    obtain ⟨row, hrow, hid, -⟩ := C.call c (List.mem_of_getElem? hc) e.body hreq
    obtain ⟨o, ho, rfl⟩ := Orders.mem_cores.mp hrow
    exact hid ▸ List.mem_map_of_mem ho)
  rw [takings, hsum, List.map_map]
  exact congrArg List.sum (List.map_congr_left fun o ho => order_takings h ha ho)

/-! ## The same money, by product -/

/-- What lines cost, product by product. -/
theorem cost_by_product (hcat : Table.Unique Catalog.Product.id cat) (ls : List Line) :
    cost cat ls = (cat.map fun r => Catalog.priceOf cat r.id * qty ls r.id).sum := by
  have hids : (cat.map Catalog.Product.id).Nodup := hcat
  have hsum := sum_by_key hids Line.productId
    (fun l => Catalog.priceOf cat l.productId * l.quantity) (l := ls) (by
      intro l _ h0
      by_contra hno
      have hnone : Catalog.find cat l.productId = none :=
        Table.get_eq_none.mpr fun r hr hid => hno (hid ▸ List.mem_map_of_mem hr)
      exact h0 (by simp [Catalog.priceOf, hnone]))
  rw [cost, hsum, List.map_map]
  refine congrArg List.sum (List.map_congr_left fun r _ => ?_)
  show tally _ _ ls = _
  rw [qty, ← List.sum_map_mul_left]
  refine congrArg List.sum (List.map_congr_left fun l _ => ?_)
  by_cases hl : l.productId = r.id <;> simp [hl]

/-- The units of some orders, at catalog prices, are what the orders cost. -/
theorem worth_of_orders (hcat : Table.Unique Catalog.Product.id cat) (db : Orders.Db) (os : List Order) :
    (cat.map fun r => Catalog.priceOf cat r.id * (os.map fun o => qty (linesOf db o.id) r.id).sum).sum =
      (os.map fun o => cost cat (linesOf db o.id)).sum := by
  induction os with
  | nil => simp
  | cons o os ih =>
    simp only [List.map_cons, List.sum_cons, Int.mul_add, List.sum_map_add, ih, cost_by_product hcat]

/-! ## Both sides -/

/-- No reconciliation pass, no call to catalog-service lost, and a run gives up on its charge
only if it has not succeeded and will not. -/
def orderlyLts (cfg : Config) (cat : Catalog.Products) : LTS Sys Lbl :=
  (lts cfg cat).restrict fun s l => undisturbed l = true ∧ knownOutcome s l = true

/-- Once all runs have returned, an order has been charged if and only if it is PAID. -/
theorem charged_iff_paid (h : (orderlyLts cfg cat).Reachable s) (hret : ∀ g ∈ s.sagas, g.reply.isSome = true)
    {o : Order} (ho : o ∈ s.db.orders) : Charged s.pay o.idempotencyKey ↔ o.status = .paid := by
  have K := keys_reachable h.unrestrict
  refine ⟨fun hch => ?_, (charges_reachable h.unrestrict).paid o ho⟩
  rcases returned_order (h.mono fun _ _ hl => hl.1) hret ho with ⟨hst, -⟩ | ⟨hst, -⟩
  · exact hst
  · obtain ⟨i, g, pc, hg, hp⟩ := K.owner o.core (Orders.mem_core ho)
    have hk : (knownLts cfg cat).Reachable s := h.mono fun _ _ hl => hl.2
    have hq := ((unpaid_reachable hk).row i g o.id pc hg hp o ho rfl hst).1.1
    exact absurd (K.key hg hp (Orders.mem_core ho) rfl ▸ hch) hq

/-- Once all runs have returned, the units that are gone are those of the PAID orders. -/
theorem gone_paid (h : (undisturbedLts cfg cat).Reachable s) (hret : ∀ g ∈ s.sagas, g.reply.isSome = true)
    (p : String) : Catalog.stockOf cat p - Catalog.stockOf s.cat p = paidQty s p := by
  have hbal : (s.db.orders.map fun o => balance s o p).sum = 0 := by
    apply List.sum_eq_zero
    intro x hx
    obtain ⟨o, ho, rfl⟩ := List.mem_map.mp hx
    unfold balance
    rcases returned_order h hret ho with ⟨hst, hnet⟩ | ⟨hst, hnet⟩
    · rw [if_pos hst]; exact hnet p
    · rw [if_neg (by simp [hst]), Int.add_zero]; exact hnet p
  have hbooks := books_paid h.unrestrict p
  omega

/-- **Goods for money.** Once all runs have returned, what payment-service has taken is what
the missing stock is worth. -/
theorem goods_for_money (cfg : Config) (cat : Catalog.Products) (hcat : Table.Unique Catalog.Product.id cat)
    (ha : Lookup.Addressable cfg.catalogService cat) (s : Sys) (h : (orderlyLts cfg cat).Reachable s)
    (hret : ∀ g ∈ s.sagas, g.reply.isSome = true) :
    takings s = (cat.map fun r =>
      Catalog.priceOf cat r.id * (Catalog.stockOf cat r.id - Catalog.stockOf s.cat r.id)).sum := by
  have hgone := gone_paid (h.mono fun _ _ hl => hl.1) hret
  calc takings s
      = tally (fun o => Charged s.pay o.idempotencyKey) (fun o => cost cat (linesOf s.db o.id)) s.db.orders := by
        rw [takings_by_order h.unrestrict ha]
        simp [tally]
    _ = tally (fun o => o.status = .paid) (fun o => cost cat (linesOf s.db o.id)) s.db.orders := by
        refine congrArg List.sum (List.map_congr_left fun o ho => ?_)
        simp [charged_iff_paid h hret ho]
    _ = ((s.db.orders.filter fun o => o.status = .paid).map fun o => cost cat (linesOf s.db o.id)).sum :=
        (sum_filter _ _ _).symm
    _ = (cat.map fun r => Catalog.priceOf cat r.id * paidQty s r.id).sum := (worth_of_orders hcat s.db _).symm
    _ = _ := by simp only [hgone]

/-- `goods_for_money` after a paid and a declined order. -/
theorem goods_for_money_twoOrders : ∃ s : Sys, returnedBoth s = true ∧
    takings s = (shop.map fun r =>
      Catalog.priceOf shop r.id * (Catalog.stockOf shop r.id - Catalog.stockOf s.cat r.id)).sum := by
  have hrun : ∃ s, (orderlyLts {} shop).Reachable s ∧ returnedBoth s = true :=
    LTS.reachable_of_execG (twoOrders ++ finish 0 ++ finish 1) rfl (by decide +kernel)
  obtain ⟨s, hr, hs⟩ := hrun
  have hret : ∀ g ∈ s.sagas, g.reply.isSome = true := List.all_eq_true.mp (Bool.and_eq_true_iff.mp hs).2
  exact ⟨s, hs, goods_for_money {} shop (show (shop.map Catalog.Product.id).Nodup by decide) (by decide +kernel) s hr hret⟩

end Gestalt.Checkout
