import Mathlib.Control.Monad.Basic
import Mathlib.Data.List.Perm.Basic
import Gestalt.Core.Table
import Gestalt.L1Shared.Http

/-!
# order-service: the orders database

The `orders` and `order_items` tables and the two read endpoints. A `Db` is the
committed state: what a transaction that has not committed wrote is not in it.
A row is stored only if its columns take its values (`fits`; the server is
strict, as by default). `Write` is the SET clause of an ORM flush, the columns whose value the session
changed; a flush that changes nothing issues no UPDATE.

Columns no UPDATE touches (`Order.core`) and the line items are written once,
at insertion: `find_insert`, `find_update`, `linesOf_insert`, `core_set`. Both
read endpoints restrict to the caller's own rows (`getOrder_owner`,
`listOrders_owner`).
-/
namespace Gestalt.Orders

/-- mirrors services/order-service/app/models.py:15-18 -/
inductive OrderStatus
  | pending
  | paid
  | failed
  deriving DecidableEq, Repr

def OrderStatus.value : OrderStatus → String
  | .pending => "PENDING"
  | .paid => "PAID"
  | .failed => "FAILED"

/-- mirrors services/order-service/app/models.py:21-45 -/
structure Order where
  id : String
  userId : String
  status : OrderStatus := .pending
  amountCents : Int
  idempotencyKey : String
  stockReserved : Bool := false
  failureReason : Option String := none
  delivered : Bool := false
  createdAt : Nat
  updatedAt : Nat
  deriving DecidableEq, Repr

/-- A `(product_id, quantity)` pair; `OrderItemIn` and `OrderItemOut` too. -/
structure Line where
  productId : String
  quantity : Int
  deriving DecidableEq, Repr

/-- mirrors services/order-service/app/models.py:48-54 -/
structure OrderItem where
  orderId : String
  productId : String
  quantity : Int
  deriving DecidableEq, Repr

def OrderItem.line (i : OrderItem) : Line := ⟨i.productId, i.quantity⟩

def OrderItem.of (oid : String) (l : Line) : OrderItem := ⟨oid, l.productId, l.quantity⟩

/-! ## Columns -/

/-- A value of a `String(n)` column. -/
def fitsString (n : Nat) (s : String) : Bool := s.length ≤ n

/-- A value of an `Integer` column. -/
def fitsInteger (n : Int) : Bool := -2147483648 ≤ n && n ≤ 2147483647

/-- The columns take what a request sets of a new row; the INSERT of another one
is a `DataError`.
mirrors services/order-service/app/models.py:25-30 -/
def Order.fits (o : Order) : Bool :=
  fitsString 36 o.userId && fitsInteger o.amountCents && fitsString 64 o.idempotencyKey

/-- mirrors services/order-service/app/models.py:53-54 -/
def Line.fits (l : Line) : Bool := fitsString 20 l.productId && fitsInteger l.quantity

structure Db where
  orders : List Order
  items : List OrderItem
  deriving DecidableEq, Repr

/-- mirrors services/order-service/app/schemas.py:22-33 -/
structure OrderOut where
  id : String
  userId : String
  status : String
  amountCents : Int
  items : List Line
  failureReason : Option String
  createdAt : Nat
  deriving DecidableEq, Repr

/-! ## Queries -/

/-- `db.get(Order, id)`, and the refresh of an expired row. -/
def find (db : Db) (oid : String) : Option Order := Table.get Order.id db.orders oid

/-- `select(Order).where(Order.idempotency_key == key)`. -/
def byKey (db : Db) (key : String) : Option Order := Table.get Order.idempotencyKey db.orders key

/-- mirrors services/order-service/app/routers/orders.py:47-48 -/
def loadItems (db : Db) (oid : String) : List OrderItem := db.items.filter fun i => i.orderId = oid

def linesOf (db : Db) (oid : String) : List Line := (loadItems db oid).map OrderItem.line

/-- mirrors services/order-service/app/routers/orders.py:35-44 -/
def toOut (order : Order) (items : List OrderItem) : OrderOut :=
  ⟨order.id, order.userId, order.status.value, order.amountCents, items.map OrderItem.line,
    order.failureReason, order.createdAt⟩

/-! ## Writes -/

/-- The columns a flush sets; `none` is a column the session did not change. -/
structure Write where
  status : Option OrderStatus := none
  stockReserved : Option Bool := none
  failureReason : Option String := none
  delivered : Option Bool := none
  deriving DecidableEq, Repr

/-- `UPDATE orders SET …` on one row; `updated_at` has an `onupdate`. -/
def Order.set (w : Write) (now : Nat) (o : Order) : Order :=
  if w = {} then o
  else { o with
    status := w.status.getD o.status
    stockReserved := w.stockReserved.getD o.stockReserved
    failureReason := w.failureReason.or o.failureReason
    delivered := w.delivered.getD o.delivered
    updatedAt := now }

/-- `UPDATE orders SET … WHERE id = oid`: it applies to the row as it is now. -/
def update (db : Db) (oid : String) (w : Write) (now : Nat) : Db :=
  { db with orders := Table.modify Order.id db.orders oid (Order.set w now) }

/-- The commit of an inserted order and its items. -/
def insert (db : Db) (o : Order) (lines : List Line) : Db :=
  ⟨db.orders ++ [o], db.items ++ lines.map (OrderItem.of o.id)⟩

/-! ## Failure reasons -/

/-- mirrors services/order-service/app/metrics.py:28-34 -/
def exactReasons : List (String × String) :=
  [("insufficient_stock", "INSUFFICIENT_STOCK"), ("product_not_found", "PRODUCT_NOT_FOUND"),
    ("PAYMENT_DECLINED", "PAYMENT_DECLINED"), ("payment_declined", "PAYMENT_DECLINED"),
    ("reconciliation_timeout", "RECONCILIATION_TIMEOUT")]

/-- A raw reason that is not in the table is `TRANSPORT_ERROR`, whatever its prefix.
mirrors services/order-service/app/metrics.py:37-42 -/
def normalizeFailureReason (raw : String) : String :=
  (exactReasons.lookup raw).getD "TRANSPORT_ERROR"

/-! ## The read endpoints -/

def orderNotFound (oid : String) : AppError := ⟨"ORDER_NOT_FOUND", "No order with id " ++ oid, 404⟩

/-- mirrors services/order-service/app/routers/orders.py:210-215 -/
def getOrder (db : Db) (user : String) (oid : String) : Except AppError OrderOut :=
  match find db oid with
  | none => .error (orderNotFound oid)
  | some order =>
    if order.userId ≠ user then .error (orderNotFound oid) else .ok (toOut order (loadItems db oid))

/-- `rows` is an answer to the user's `ORDER BY created_at DESC`: SQL may return
rows that tie in any order. -/
def Ordered (db : Db) (user : String) (rows : List Order) : Prop :=
  rows.Perm (db.orders.filter fun o => o.userId = user) ∧
    rows.Pairwise fun a b => b.createdAt ≤ a.createdAt

instance (db : Db) (user : String) (rows : List Order) : Decidable (Ordered db user rows) :=
  inferInstanceAs (Decidable (_ ∧ _))

/-- The page of `rows`, which `Ordered db user` relates to the caller.
mirrors services/order-service/app/routers/orders.py:218-234 -/
def listOrders (db : Db) (limit offset : Nat) (rows : List Order) :
    Except AppError (List OrderOut) :=
  if 1 ≤ limit ∧ limit ≤ 100 then
    .ok (((rows.drop offset).take limit).map fun o => toOut o (loadItems db o.id))
  else .error validationError

/-! ## What the writes change -/

/-- The columns that are written once. -/
structure Core where
  id : String
  userId : String
  amountCents : Int
  idempotencyKey : String
  createdAt : Nat
  deriving DecidableEq, Repr

def Order.core (o : Order) : Core := ⟨o.id, o.userId, o.amountCents, o.idempotencyKey, o.createdAt⟩

def cores (db : Db) : List Core := db.orders.map Order.core

@[simp] theorem core_set (w : Write) (now : Nat) (o : Order) : (o.set w now).core = o.core := by
  unfold Order.set; split <;> rfl

@[simp] theorem set_id (w : Write) (now : Nat) (o : Order) : (o.set w now).id = o.id := by
  unfold Order.set; split <;> rfl

@[simp] theorem set_status (w : Write) (now : Nat) (o : Order) :
    (o.set w now).status = w.status.getD o.status := by
  unfold Order.set; split
  · rename_i h; subst h; rfl
  · rfl

@[simp] theorem set_stockReserved (w : Write) (now : Nat) (o : Order) :
    (o.set w now).stockReserved = w.stockReserved.getD o.stockReserved := by
  unfold Order.set; split
  · rename_i h; subst h; rfl
  · rfl

theorem find_update (db : Db) (oid x : String) (w : Write) (now : Nat) :
    find (update db oid w now) x =
      if x = oid then (find db x).map (Order.set w now) else find db x :=
  Table.get_modify fun r => set_id w now r

theorem find_some {db : Db} {oid : String} {r : Order} (h : find db oid = some r) :
    r ∈ db.orders ∧ r.id = oid := Table.get_some h

theorem byKey_some {db : Db} {k : String} {r : Order} (h : byKey db k = some r) :
    r ∈ db.orders ∧ r.idempotencyKey = k := Table.get_some h

theorem find_insert (db : Db) (o : Order) (lines : List Line) (x : String) :
    find (insert db o lines) x = (find db x).or (if o.id = x then some o else none) := by
  unfold find Table.get insert
  rw [List.find?_append]
  by_cases h : o.id = x <;> simp [h]

theorem linesOf_insert (db : Db) (o : Order) (lines : List Line) (x : String) :
    linesOf (insert db o lines) x = linesOf db x ++ if o.id = x then lines else [] := by
  unfold linesOf loadItems insert
  rw [List.filter_append, List.map_append]
  congr 1
  by_cases h : o.id = x
  · rw [if_pos h, List.filter_eq_self.mpr]
    · rw [List.map_map]
      exact List.map_id'' (fun _ => rfl) lines
    · intro i hi
      obtain ⟨l, -, rfl⟩ := List.mem_map.mp hi
      simp [OrderItem.of, h]
  · rw [if_neg h, List.filter_eq_nil_iff.mpr]
    · rfl
    · intro i hi
      obtain ⟨l, -, rfl⟩ := List.mem_map.mp hi
      simp [OrderItem.of, h]

@[simp] theorem cores_update (db : Db) (oid : String) (w : Write) (now : Nat) :
    cores (update db oid w now) = cores db :=
  Table.map_modify fun r => core_set w now r

@[simp] theorem cores_insert (db : Db) (o : Order) (lines : List Line) :
    cores (insert db o lines) = cores db ++ [o.core] := by
  simp [cores, insert]

/-- A row after an update: an old row, whose status is its own or the one written. -/
theorem mem_update {db : Db} {oid : String} {w : Write} {now : Nat} {r' : Order}
    (h : r' ∈ (update db oid w now).orders) : ∃ r ∈ db.orders, r'.core = r.core ∧
      (r'.status = r.status ∨ r.id = oid ∧ w.status = some r'.status) := by
  obtain ⟨r, hr, rfl⟩ := Table.mem_modify.mp h
  refine ⟨r, hr, ?_⟩
  split
  · rename_i he
    refine ⟨core_set w now r, ?_⟩
    rw [set_status]
    cases hw : w.status with
    | none => exact .inl rfl
    | some st => exact .inr ⟨he, rfl⟩
  · exact ⟨rfl, .inl rfl⟩

theorem mem_cores {db : Db} {c : Core} : c ∈ cores db ↔ ∃ r ∈ db.orders, r.core = c := List.mem_map

theorem mem_core {db : Db} {r : Order} (h : r ∈ db.orders) : r.core ∈ cores db := List.mem_map_of_mem h

theorem core_mem {db : Db} {oid : String} {r : Order} (h : find db oid = some r) :
    r.core ∈ cores db ∧ r.core.id = oid :=
  ⟨mem_core (find_some h).1, (find_some h).2⟩

theorem find_none {db : Db} {oid : String} (h : find db oid = none) : ∀ c ∈ cores db, c.id ≠ oid := by
  intro c hc
  obtain ⟨r, hr, rfl⟩ := mem_cores.mp hc
  exact Table.get_eq_none.mp h r hr

theorem byKey_none {db : Db} {k : String} (h : byKey db k = none) :
    ∀ c ∈ cores db, c.idempotencyKey ≠ k := by
  intro c hc
  obtain ⟨r, hr, rfl⟩ := mem_cores.mp hc
  exact Table.get_eq_none.mp h r hr

theorem unique_ids {db : Db} (h : Table.Unique Core.id (cores db)) :
    Table.Unique Order.id db.orders := by
  unfold Table.Unique cores at h
  rw [List.map_map] at h
  exact h

/-- A row exists for every id the table holds. -/
theorem linesOf_congr {db db' : Db} (h : db'.items = db.items) (oid : String) :
    linesOf db' oid = linesOf db oid := by
  unfold linesOf loadItems; rw [h]

/-! ## The read endpoints return the caller's rows -/

theorem getOrder_owner {db : Db} {user oid : String} {out : OrderOut}
    (h : getOrder db user oid = .ok out) : out.userId = user := by
  unfold getOrder at h
  split at h
  · cases h
  · split at h
    · cases h
    · rename_i order _ hu
      cases h
      exact Decidable.not_not.mp hu

theorem listOrders_owner {db : Db} {user : String} {limit offset : Nat} {rows : List Order}
    {outs : List OrderOut} (ho : Ordered db user rows) (h : listOrders db limit offset rows = .ok outs) :
    ∀ out ∈ outs, out.userId = user := by
  unfold listOrders at h
  split at h
  · cases h
    intro out hout
    obtain ⟨o, hmem, rfl⟩ := List.mem_map.mp hout
    have hrows := List.mem_of_mem_drop (List.mem_of_mem_take hmem)
    have hmine := (List.mem_filter.mp (ho.1.mem_iff.mp hrows)).2
    exact of_decide_eq_true hmine
  · cases h

end Gestalt.Orders
