import Gestalt.L4Checkout.Clients
import Gestalt.L4Checkout.Lookup

/-!
# The checkout system

Everything `create_order` touches, and everything that touches the same orders:
the orders database, catalog-service's products, payment-service, the carts,
the `order-events` topic, and three kinds of process of order-service, any
number of each and in any interleaving:

* `Saga`: one `create_order` request. One step is one SQL statement, one
  commit, one remote call or one publish.
* `Pass`: one `run_pass` of the reconciliation job.
* `DeliveryPass`: one `run_pass` of the delivery simulator.

A step of a process returns its next state and one effect (`Eff`), which
`Sys.apply` performs on the shared state. Calls to other services and publishes
are also appended to a ghost log, `trace`, with the process that made them.

Sessions are the SQLAlchemy default: objects expire at each commit, and the
first access afterwards opens a new transaction that reads from one snapshot
(InnoDB's REPEATABLE READ). A pass works on such a snapshot (`snap`), taken when
it selects its orders and again at each refresh after a commit. An UPDATE
applies to the current row.

A process may crash between any two steps; so does one that ends by an
exception nothing handles (a database error other than the `IntegrityError` and
the `DataError` of the INSERTs, such as a server's refusal to update a row
changed since the snapshot; a publish that raises). Its open transaction is
rolled back. Its record stays, not `alive`, at the step it had reached.

Ids and keys are compared as texts by all databases.
-/
namespace Gestalt.Checkout

open Gestalt.Orders (Db Order OrderItem OrderOut Line Write)

/-- mirrors services/order-service/app/config.py:24-29 -/
structure Settings where
  pendingOrderTimeoutSeconds : Nat := 60
  deliverySimulationDelaySeconds : Nat := 30
  deriving DecidableEq, Repr

structure Config where
  order : Settings := {}
  payment : Payment.Settings := {}
  /-- `catalog_service_url` -/
  catalogService : Url.Origin := Lookup.catalogServiceUrl
  /-- what catalog-service answers where it serves no single product -/
  elsewhere : Text → Response := fun _ => .status 404 none

/-! ## Requests, events, calls -/

/-- mirrors services/order-service/app/schemas.py:4-6 -/
structure OrderItemIn where
  productId : String
  quantity : Int
  quantity_pos : 0 < quantity
  deriving Repr

/-- A `POST /orders` of an authenticated user; `items` is the body's.
mirrors services/order-service/app/schemas.py:9-14 -/
structure Req where
  userId : String
  idempotencyKey : Option String
  items : Option (List OrderItemIn)
  deriving Repr

/-- `[(i.productId, i.quantity) for i in body.items]`; no items and no list are
both falsy. -/
def Req.lines (r : Req) : List Line := (r.items.getD []).map fun i => ⟨i.productId, i.quantity⟩

/-- The envelopes on the `order-events` topic. -/
inductive Event
  | created (orderId userId : String) (items : List Line) (amount : Int)
  | paid (orderId userId : String) (amount : Int) (paidAt : Nat)
  | failed (orderId userId : String) (reason : Option String)
  | delivered (orderId userId : String) (productIds : List String) (deliveredAt : Nat)
  deriving DecidableEq, Repr

def Event.orderId : Event → String
  | .created oid .. => oid
  | .paid oid .. => oid
  | .failed oid .. => oid
  | .delivered oid .. => oid

/-- Who makes a call. -/
inductive Caller
  | saga (i : Nat)
  | pass (j : Nat)
  | delivery (j : Nat)
  deriving DecidableEq, Repr

inductive Call
  | reserve (l : Line)
  | release (l : Line)
  | charge (amount : Int) (idempotencyKey : String)
  | publish (ev : Event)
  | clearCart (userId : String) (productIds : List String)
  deriving DecidableEq, Repr

/-- One entry of the ghost log. `applied`: the call took effect; `acked`: its
caller was told so. -/
structure Issued where
  caller : Caller
  call : Call
  orderId : String
  applied : Bool
  acked : Bool
  deriving DecidableEq, Repr

/-! ## Processes -/

/-- The two compensations of `create_order`: of what was reserved before a
reservation failed, and of every line after a charge failed. -/
inductive Branch
  | partialRollback
  | paymentFailed
  deriving DecidableEq, Repr

/-- After the commit of PAID or FAILED: refresh the row, publish, clear the
cart, respond. -/
inductive Final
  | refresh
  | announce (order : Order)
  | clear (order : Order)
  | done (out : OrderOut)
  deriving DecidableEq, Repr

/-- Where the saga of a committed order stands. -/
inductive Pc
  /-- about to publish order.created -/
  | created
  /-- `held` is `reserved_so_far`; with nothing left, about to commit `stock_reserved` -/
  | reserve (held todo : List Line)
  /-- with nothing left, about to commit FAILED -/
  | release (b : Branch) (todo : List Line) (reason : String)
  | charge
  /-- waiting for the answer to payment-service's call `call` -/
  | await (call : Nat)
  /-- charged, about to commit PAID -/
  | pay
  | ended (paid : Bool) (f : Final)
  deriving DecidableEq, Repr

inductive Phase
  | lookup
  | resolve
  /-- with nothing left, about to flush the INSERT -/
  | price (todo : List Line) (amountCents : Int)
  /-- flushed, not committed: holds the locks of its id and its key -/
  | commit (order : Order)
  /-- after the `IntegrityError` and the rollback -/
  | reselect
  /-- answered without a saga: a replay, or an error -/
  | replied (answer : Except AppError OrderOut)
  | saga (oid : String) (pc : Pc)
  deriving DecidableEq

structure Saga where
  req : Req
  rawItems : List Line := []
  phase : Phase := .lookup
  alive : Bool := true

def Saga.key (g : Saga) : String := g.req.idempotencyKey.getD ""

/-- A pass at one order; `order` is the row as the session loaded it. -/
inductive PassPc
  | next
  /-- with nothing left, about to commit FAILED -/
  | release (order : Order) (items todo : List OrderItem)
  | refresh (oid : String) (items : List OrderItem)
  | announce (order : Order) (items : List OrderItem)
  | clear (order : Order) (items : List OrderItem)
  deriving DecidableEq

/-- One reconciliation pass: `todo` is the rest of `stuck`. -/
structure Pass where
  snap : Db
  todo : List String
  pc : PassPc := .next
  alive : Bool := true
  deriving DecidableEq

inductive DeliveryPc
  | next
  | commit (order : Order) (items : List OrderItem) (deliveredAt : Nat)
  | refresh (oid : String) (items : List OrderItem) (deliveredAt : Nat)
  | announce (order : Order) (items : List OrderItem) (deliveredAt : Nat)
  deriving DecidableEq

/-- One delivery pass: `todo` is the rest of `due`. -/
structure DeliveryPass where
  snap : Db
  todo : List String
  pc : DeliveryPc := .next
  alive : Bool := true
  deriving DecidableEq

structure Sys where
  db : Db
  cat : Catalog.Products
  pay : Payment.St
  /-- what cart-service returns for each user -/
  carts : String → List Line
  /-- the `order-events` topic -/
  topic : List Event
  /-- ghost: the calls made, in order -/
  trace : List Issued
  sagas : List Saga
  passes : List Pass
  deliveries : List DeliveryPass
  now : Nat

def start (cat : Catalog.Products) : Sys :=
  ⟨⟨[], []⟩, cat, Payment.init, fun _ => [], [], [], [], [], [], 0⟩

/-! ## Effects -/

inductive Eff
  | quiet
  | insert (order : Order) (lines : List Line)
  | write (oid : String) (w : Write)
  | reserve (l : Line) (oid : String) (d : Delivery)
  | release (l : Line) (oid : String) (d : Delivery)
  | charge (oid : String) (amount : Int) (key : String) (f : Option Fault)
  | publish (ev : Event) (logged : Bool)
  | clearCart (userId : String) (productIds : List String) (oid : String) (d : Delivery)

/-- `POST /payments/charge` with the saga's body reaches payment-service. -/
def arriveCharge (p : Payment.St) (oid : String) (amount : Int) (key : String) : Payment.St :=
  if h : 0 < amount then p.arrive (.charge ⟨oid, amount, "INR", key, h⟩) else p

/-- What an effect does to the stores. -/
def Sys.perform (s : Sys) : Eff → Sys
  | .quiet => s
  | .insert order lines => { s with db := Orders.insert s.db order lines }
  | .write oid w => { s with db := Orders.update s.db oid w s.now }
  | .reserve l oid d =>
    if d.handled then { s with cat := (Catalog.reserve s.cat l.productId l.quantity oid).2 } else s
  | .release l oid d =>
    if d.handled then { s with cat := (Catalog.release s.cat l.productId l.quantity oid).2 } else s
  | .charge oid amount key f =>
    if f = none then { s with pay := arriveCharge s.pay oid amount key } else s
  | .publish ev logged => if logged then { s with topic := s.topic ++ [ev] } else s
  | .clearCart userId productIds _ d =>
    if d.handled then
      { s with carts := fun u =>
          if u = userId then (s.carts u).filter fun l => l.productId ∉ productIds else s.carts u }
    else s

/-- What an effect adds to the log. -/
def Eff.issued (s : Sys) (c : Caller) : Eff → List Issued
  | .quiet => []
  | .insert _ _ => []
  | .write _ _ => []
  | .reserve l oid d =>
    let r := Catalog.reserve s.cat l.productId l.quantity oid
    [⟨c, .reserve l, oid, d.handled && Catalog.succeeds r, (d.seen (wire r.1)).ok⟩]
  | .release l oid d =>
    let r := Catalog.release s.cat l.productId l.quantity oid
    [⟨c, .release l, oid, d.handled && Catalog.succeeds r, (d.seen (wire r.1)).ok⟩]
  | .charge oid amount key f => [⟨c, .charge amount key, oid, f = none && 0 < amount, false⟩]
  | .publish ev logged => [⟨c, .publish ev, ev.orderId, logged, true⟩]
  | .clearCart userId productIds oid d => [⟨c, .clearCart userId productIds, oid, d.handled, true⟩]

def Sys.apply (s : Sys) (c : Caller) (e : Eff) : Sys :=
  { s.perform e with trace := s.trace ++ e.issued s c }

/-! ## create_order -/

/-- What the next step of a process is given from outside: the answer of
cart-service, the fate of a call, whether a publish reached the topic, a fresh
order id. -/
inductive Act
  | select
  | resolve (r : Response)
  | price (d : Delivery)
  | flush (oid : String)
  | commit
  | reserve (d : Delivery)
  | release (d : Delivery)
  /-- the charge is sent, or fails without reaching payment-service -/
  | charge (f : Option Fault)
  /-- payment-service's answer arrives -/
  | settle
  /-- something else than payment-service's answer arrives -/
  | giveUp (f : Fault)
  | load
  | publish (logged : Bool)
  | clear (d : Delivery)
  | next
  deriving DecidableEq, Repr

def missingIdempotencyKey : AppError :=
  ⟨"MISSING_IDEMPOTENCY_KEY", "Idempotency-Key header is required", 400⟩

def emptyCart : AppError := ⟨"EMPTY_CART", "Cart is empty, nothing to check out", 400⟩

/-- Another open transaction has inserted the id or the key. -/
def Sys.locked (s : Sys) (oid key : String) : Bool :=
  s.sagas.any fun g => g.alive && match g.phase with
    | .commit order => order.id = oid || order.idempotencyKey = key
    | _ => false

/-- The replay of an order found by its key. -/
def replay (db : Db) (order : Order) : Phase :=
  .replied (.ok (Orders.toOut order (Orders.loadItems db order.id)))

/-- What a price lookup finds. Redis is left out: it makes no difference to the
price (`Lookup.readPrice_cache`). -/
def Sys.moment (s : Sys) (d : Delivery) : Lookup.Moment := ⟨.empty, s.cat, d⟩

/-- `Order(user_id=…, amount_cents=…, idempotency_key=…)`, with its defaults. -/
def Saga.newOrder (g : Saga) (oid : String) (amountCents : Int) (now : Nat) : Order :=
  ⟨oid, g.req.userId, .pending, amountCents, g.key, false, none, false, now, now⟩

/-- Up to the commit of the PENDING order. Only the `IntegrityError` of the two
INSERTs is handled.
mirrors services/order-service/app/routers/orders.py:52-102 -/
def prelude (cfg : Config) (s : Sys) (g : Saga) (a : Act) : Option (Saga × Eff) :=
  match g.phase, a with
  | .lookup, .select =>
    if g.key = "" then some ({ g with phase := .replied (.error missingIdempotencyKey) }, .quiet)
    else match Orders.byKey s.db g.key with
      | some existing => some ({ g with phase := replay s.db existing }, .quiet)
      | none => some ({ g with phase := .resolve }, .quiet)
  | .resolve, .resolve r =>
    if g.req.lines ≠ [] then
      some ({ g with rawItems := g.req.lines, phase := .price g.req.lines 0 }, .quiet)
    else match getCartItems (s.carts g.req.userId) r with
      | .error e => some ({ g with phase := .replied (.error e) }, .quiet)
      | .ok [] => some ({ g with phase := .replied (.error emptyCart) }, .quiet)
      | .ok lines => some ({ g with rawItems := lines, phase := .price lines 0 }, .quiet)
  | .price (l :: todo) amount, .price d =>
    match Lookup.getPrice cfg.catalogService cfg.elsewhere Lookup.asText (s.moment d) l.productId with
    | .error e => some ({ g with phase := .replied (.error e) }, .quiet)
    | .ok price => some ({ g with phase := .price todo (amount + price.priceCents * l.quantity) }, .quiet)
  | .price [] amount, .flush oid =>
    -- the DataError comes before the row is looked at
    if !(g.newOrder oid amount s.now).fits then
      some ({ g with phase := .replied (.error internalError) }, .quiet)
    else if (Orders.find s.db oid).isSome || (Orders.byKey s.db g.key).isSome then
      some ({ g with phase := .reselect }, .quiet)
    -- the INSERT waits for a transaction that holds the same key
    else if s.locked oid g.key then none
    else some ({ g with phase := .commit (g.newOrder oid amount s.now) }, .quiet)
  | .commit order, .commit =>
    -- flushes the items first
    if g.rawItems.all Line.fits then
      some ({ g with phase := .saga order.id .created }, .insert order g.rawItems)
    else some ({ g with phase := .replied (.error internalError) }, .quiet)
  | .reselect, .select =>
    match Orders.byKey s.db g.key with
    | some existing => some ({ g with phase := replay s.db existing }, .quiet)
    | none => some ({ g with phase := .replied (.error internalError) }, .quiet)
  | _, _ => none

/-- After the answer to the charge. -/
def charged (rawItems : List Line) (r : Response) : Pc :=
  match chargeResult r with
  | .ok () => .pay
  | .error reason => .release .paymentFailed rawItems reason

/-- `order.status = FAILED` with its reason. -/
def failing (reason : String) : Write where
  status := some .failed
  failureReason := some (Orders.normalizeFailureReason reason)

/-- From the commit of the PENDING order to the response.
mirrors services/order-service/app/routers/orders.py:104-207 -/
def saga (s : Sys) (g : Saga) (oid : String) (pc : Pc) (a : Act) : Option (Pc × Eff) :=
  match pc, a with
  | .created, .publish logged =>
    (Orders.find s.db oid).map fun order => (.reserve [] g.rawItems,
      .publish (.created order.id order.userId g.rawItems order.amountCents) logged)
  | .reserve held (l :: todo), .reserve d =>
    match reserveResult (d.seen (wire (Catalog.reserve s.cat l.productId l.quantity oid).1)) with
    | .ok () => some (.reserve (held ++ [l]) todo, .reserve l oid d)
    | .error reason => some (.release .partialRollback held reason, .reserve l oid d)
  | .reserve _ [], .commit => some (.charge, .write oid { stockReserved := some true })
  | .release b (l :: todo) reason, .release d => some (.release b todo reason, .release l oid d)
  | .release _ [] reason, .commit => some (.ended false .refresh, .write oid (failing reason))
  | .charge, .charge f =>
    (Orders.find s.db oid).map fun order =>
      (match f with
        | some f => charged g.rawItems f.response
        | none =>
          if 0 < order.amountCents then .await s.pay.calls.length
          else charged g.rawItems (.status validationError.status (some validationError.code)),
        .charge order.id order.amountCents order.idempotencyKey f)
  | .await j, .settle =>
    match s.pay.calls[j]? with
    | some c =>
      match c.pc with
      | .done answer => some (charged g.rawItems (wire answer), .quiet)
      | _ => none
    | none => none
  | .await _, .giveUp f => some (charged g.rawItems f.response, .quiet)
  | .pay, .commit => some (.ended true .refresh, .write oid { status := some .paid })
  | .ended paid .refresh, .load =>
    (Orders.find s.db oid).map fun order => (.ended paid (.announce order), .quiet)
  | .ended paid (.announce order), .publish logged =>
    some (.ended paid (.clear order),
      .publish (if paid then .paid order.id order.userId order.amountCents s.now
        else .failed order.id order.userId order.failureReason) logged)
  | .ended paid (.clear order), .clear d =>
    some (.ended paid (.done (Orders.toOut order (Orders.loadItems s.db order.id))),
      .clearCart order.userId (g.rawItems.map Line.productId) oid d)
  | _, _ => none

def stepSaga (cfg : Config) (s : Sys) (g : Saga) (a : Act) : Option (Saga × Eff) :=
  match g.phase with
  | .saga oid pc => (saga s g oid pc a).map fun r => ({ g with phase := .saga oid r.1 }, r.2)
  | _ => prelude cfg s g a

/-! ## The background passes -/

/-- The orders a reconciliation pass selects. -/
def stuck (cfg : Settings) (s : Sys) : List Order :=
  s.db.orders.filter fun o => o.status = .pending ∧ o.createdAt + cfg.pendingOrderTimeoutSeconds < s.now

def reconciliationTimeout : String := Orders.normalizeFailureReason "reconciliation_timeout"

/-- `order.status = FAILED` and its reason, as a change of the loaded row. -/
def overdue (order : Order) : Write where
  status := if order.status = .failed then none else some .failed
  failureReason := if order.failureReason = some reconciliationTimeout then none
    else some reconciliationTimeout

/-- The pass turns to an order: its items, and what it will release.
mirrors services/order-service/app/reconciliation.py:38-44 -/
def takeUp (snap : Db) (order : Order) : PassPc :=
  let items := Orders.loadItems snap order.id
  .release order items (if order.stockReserved then items else [])

/-- mirrors services/order-service/app/reconciliation.py:38-60 -/
def stepPass (s : Sys) (p : Pass) (a : Act) : Option (Pass × Eff) :=
  match p.pc, a with
  | .next, .next =>
    match p.todo with
    | [] => none
    | oid :: rest => (Orders.find p.snap oid).map fun order =>
      ({ p with todo := rest, pc := takeUp p.snap order }, .quiet)
  | .release order items (i :: todo), .release d =>
    some ({ p with pc := .release order items todo }, .release i.line order.id d)
  | .release order items [], .commit =>
    some ({ p with pc := .refresh order.id items }, .write order.id (overdue order))
  | .refresh oid items, .load =>
    (Orders.find s.db oid).map fun order => ({ p with snap := s.db, pc := .announce order items }, .quiet)
  | .announce order items, .publish logged =>
    some ({ p with pc := .clear order items },
      .publish (.failed order.id order.userId order.failureReason) logged)
  | .clear order items, .clear d =>
    some ({ p with pc := .next },
      .clearCart order.userId (items.map OrderItem.productId) order.id d)
  | _, _ => none

/-- The orders a delivery pass selects. -/
def due (cfg : Settings) (s : Sys) : List Order :=
  s.db.orders.filter fun o => o.status = .paid ∧ o.delivered = false ∧
    o.updatedAt + cfg.deliverySimulationDelaySeconds < s.now

/-- mirrors services/order-service/app/delivery_simulator.py:36-52 -/
def stepDelivery (s : Sys) (p : DeliveryPass) (a : Act) : Option (DeliveryPass × Eff) :=
  match p.pc, a with
  | .next, .next =>
    match p.todo with
    | [] => none
    | oid :: rest => (Orders.find p.snap oid).map fun order =>
      ({ p with todo := rest, pc := .commit order (Orders.loadItems p.snap oid) s.now }, .quiet)
  | .commit order items at_, .commit =>
    some ({ p with pc := .refresh order.id items at_ },
      .write order.id { delivered := if order.delivered then none else some true })
  | .refresh oid items at_, .load =>
    (Orders.find s.db oid).map fun order =>
      ({ p with snap := s.db, pc := .announce order items at_ }, .quiet)
  | .announce order items at_, .publish logged =>
    some ({ p with pc := .next },
      .publish (.delivered order.id order.userId (items.map OrderItem.productId) at_) logged)
  | _, _ => none

/-! ## The system -/

inductive Lbl
  | request (r : Req)
  | saga (i : Nat) (a : Act)
  | crash (i : Nat)
  /-- a reconciliation pass starts: it selects its orders -/
  | recon
  | pass (j : Nat) (a : Act)
  | crashPass (j : Nat)
  /-- a delivery pass starts: it selects its orders -/
  | deliver
  | delivery (j : Nat) (a : Act)
  | crashDelivery (j : Nat)
  /-- payment-service works, or serves a lookup; charges come from sagas only -/
  | pay (l : Payment.Lbl)
  | cart (userId : String) (lines : List Line)
  | tick

/-- Every step of payment-service but the arrival of a charge. -/
def ofPayment : Payment.Lbl → Bool
  | .arrive (.charge _) => false
  | _ => true

def step (cfg : Config) (s : Sys) : Lbl → Option Sys
  | .request r => some { s with sagas := s.sagas ++ [{ req := r }] }
  | .saga i a =>
    match s.sagas[i]? with
    | some g =>
      if g.alive then
        (stepSaga cfg s g a).map fun r => { s.apply (.saga i) r.2 with sagas := s.sagas.set i r.1 }
      else none
    | none => none
  | .crash i => (s.sagas[i]?).map fun g => { s with sagas := s.sagas.set i { g with alive := false } }
  | .recon => some { s with passes := s.passes ++ [⟨s.db, (stuck cfg.order s).map Order.id, .next, true⟩] }
  | .pass j a =>
    match s.passes[j]? with
    | some p =>
      if p.alive then
        (stepPass s p a).map fun r => { s.apply (.pass j) r.2 with passes := s.passes.set j r.1 }
      else none
    | none => none
  | .crashPass j =>
    (s.passes[j]?).map fun p => { s with passes := s.passes.set j { p with alive := false } }
  | .deliver =>
    some { s with deliveries := s.deliveries ++ [⟨s.db, (due cfg.order s).map Order.id, .next, true⟩] }
  | .delivery j a =>
    match s.deliveries[j]? with
    | some p =>
      if p.alive then
        (stepDelivery s p a).map fun r =>
          { s.apply (.delivery j) r.2 with deliveries := s.deliveries.set j r.1 }
      else none
    | none => none
  | .crashDelivery j =>
    (s.deliveries[j]?).map fun p => { s with deliveries := s.deliveries.set j { p with alive := false } }
  | .pay l =>
    if ofPayment l then (Payment.step cfg.payment s.pay l).map fun p => { s with pay := p } else none
  | .cart userId lines => some { s with carts := fun u => if u = userId then lines else s.carts u }
  | .tick => some { s with now := s.now + 1 }

/-- The system on an initial catalog. -/
def lts (cfg : Config) (cat : Catalog.Products) : LTS Sys Lbl :=
  LTS.ofFn (· = start cat) (step cfg)

end Gestalt.Checkout
