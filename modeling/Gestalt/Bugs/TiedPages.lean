import Gestalt.Core.Paging
import Gestalt.L2Stores.Orders

/-!
# Orders that are on two pages, or on none

Status: open.

Behaviour: `list_orders` sorts by `created_at` alone
(services/order-service/app/routers/orders.py:229), a column of whole seconds. Rows that
tie may come in another order with each query, and where a page begins between two of
them, the two queries may both return one of them and neither the other.

Documented: API_REFERENCE.md, `GET /orders?limit=&offset=`. `list_products`, the other
paginated endpoint, sorts by the primary key
(services/catalog-service/app/routers/catalog.py:60).

Counterexample: `first`, `second`: two orders of one second, on pages of one.

Fix: `order_by(Order.created_at.desc(), Order.id)`.
-/
namespace Gestalt.Orders

open Paging (TiesOnOnePage)

/-- The user's orders. -/
def ordersOf (db : Db) (user : String) : List Order := db.orders.filter fun o => o.userId = user

def out (db : Db) (o : Order) : OrderOut := toOut o (loadItems db o.id)

/-- The answers at the offsets `0`, `limit`, ..., one after another. -/
def listPages (db : Db) (limit n : Nat) (rows : Nat → List Order) : Except AppError (List OrderOut) :=
  ((List.range n).mapM fun k => listOrders db limit (k * limit) (rows k)).map List.flatten

/-- Up to the last order, the pages have every order of the user once, newest first. -/
def Paginated (db : Db) (user : String) (limit : Nat) : Prop :=
  ∀ rows : Nat → List Order, (∀ k, Ordered db user (rows k)) →
    ∀ n, (ordersOf db user).length ≤ n * limit →
      ∃ outs, listPages db limit n rows = .ok outs ∧ outs.Perm ((ordersOf db user).map (out db)) ∧
        outs.Pairwise fun a b => b.createdAt ≤ a.createdAt

variable {db : Db} {user : String} {limit : Nat}

theorem mapM_ok {α β ε : Type} {f : α → Except ε β} {g : α → β} {l : List α} (h : ∀ a ∈ l, f a = .ok (g a)) :
    l.mapM f = .ok (l.map g) := by
  induction l with
  | nil => rfl
  | cons a l ih =>
    rw [List.mapM_cons, h a (List.mem_cons_self ..), ih fun b hb => h b (List.mem_cons_of_mem _ hb)]
    rfl

theorem listPages_eq (hl : 1 ≤ limit ∧ limit ≤ 100) (n : Nat) (rows : Nat → List Order) :
    listPages db limit n rows = .ok ((Paging.pages limit n rows).map (out db)) := by
  have hpage : ∀ k ∈ List.range n, listOrders db limit (k * limit) (rows k) =
      .ok ((Paging.page limit k (rows k)).map (out db)) := by
    intro k _
    rw [listOrders, if_pos hl]
    rfl
  rw [listPages, mapM_ok hpage]
  simp only [Paging.pages, Except.map, List.flatMap, List.map_flatten, List.map_map]
  rfl

/-- No order twice, every row one of the user's, as many as there are: then they are the user's orders. -/
theorem perm_of_map {l : List Order} (hu : Table.Unique Order.id db.orders)
    (hsub : ∀ o ∈ l, o ∈ ordersOf db user) (h : (l.map (out db)).Perm ((ordersOf db user).map (out db))) :
    l.Perm (ordersOf db user) := by
  have hids : (l.map Order.id).Perm ((ordersOf db user).map Order.id) := by
    have hout := h.map OrderOut.id
    rw [List.map_map, List.map_map] at hout
    exact hout
  have hnodup : ((ordersOf db user).map Order.id).Nodup :=
    List.Nodup.sublist (List.filter_sublist.map Order.id) hu
  have hl : l.Nodup := List.Nodup.of_map _ (hids.nodup_iff.mpr hnodup)
  refine (List.subperm_of_subset hl hsub).perm_of_length_le ?_
  have hlen := hids.length_eq
  rw [List.length_map, List.length_map] at hlen
  exact hlen.ge

theorem complete_of_paginated (hu : Table.Unique Order.id db.orders) (hl : 1 ≤ limit ∧ limit ≤ 100)
    (h : Paginated db user limit) : Paging.Complete Order.createdAt limit (ordersOf db user) := by
  intro answer hanswer n hn
  obtain ⟨outs, houts, hperm, -⟩ := h answer hanswer n hn
  rw [listPages_eq hl] at houts
  cases houts
  refine perm_of_map hu (fun o ho => ?_) hperm
  obtain ⟨k, -, hk⟩ := List.mem_flatMap.mp ho
  exact (hanswer k).1.subset (List.mem_of_mem_drop (List.mem_of_mem_take hk))

theorem paginated_of_complete (hl : 1 ≤ limit ∧ limit ≤ 100)
    (h : Paging.Complete Order.createdAt limit (ordersOf db user)) : Paginated db user limit := by
  intro rows hrows n hn
  refine ⟨_, listPages_eq hl n rows, (h rows hrows n hn).map _, ?_⟩
  exact List.pairwise_map.mpr (Paging.pages_sorted hrows n)

/-! ## The result -/

def first : Order := ⟨"A", "ada", .paid, 100, "k1", true, none, false, 7, 7⟩

def second : Order := { first with id := "B", idempotencyKey := "k2" }

/-- Two orders of one second. -/
def sameSecond : Db := ⟨[first, second], []⟩

/-- **Counterexample.** Pages of one: the first order twice, the second one not at all. -/
theorem order_paged_twice :
    ¬ ∀ db user limit, Table.Unique Order.id db.orders → 1 ≤ limit ∧ limit ≤ 100 →
        Paginated db user limit := by
  intro h
  have hu : Table.Unique Order.id sameSecond.orders := by
    unfold Table.Unique
    decide
  have hrows : ∀ k : Nat, Ordered sameSecond "ada" (if k = 0 then [first, second] else [second, first]) := by
    intro k
    split <;> decide
  obtain ⟨outs, houts, hperm, -⟩ := h sameSecond "ada" 1 hu (by decide) _ hrows 2 (by decide)
  rw [listPages_eq (by decide)] at houts
  cases houts
  exact absurd hperm (by decide)

/-- **Pages.** They have every order once, newest first, if and only if all orders of one time are on one
page. -/
theorem paginated_iff (hu : Table.Unique Order.id db.orders) (hl : 1 ≤ limit ∧ limit ≤ 100) :
    Paginated db user limit ↔ TiesOnOnePage Order.createdAt limit (ordersOf db user) := by
  have hnodup : (ordersOf db user).Nodup := hu.nodup.filter _
  rw [← Paging.complete_iff hnodup (by omega)]
  exact ⟨complete_of_paginated hu hl, paginated_of_complete hl⟩

/-- The tie is on the second page of two. -/
theorem paginated_iff_sameSecond :
    Paginated
      ⟨[first, second, { first with id := "C", createdAt := 9 },
        { first with id := "D", createdAt := 8 }], []⟩ "ada" 2 :=
  (paginated_iff (by unfold Table.Unique; decide) (by decide)).mpr (by unfold TiesOnOnePage; decide)

end Gestalt.Orders
