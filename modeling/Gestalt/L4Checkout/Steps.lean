import Gestalt.Core.Procs
import Gestalt.L4Checkout.System

/-!
# What one step can do

The step functions of `System.lean`, inverted once. `PreludeMoves` and
`SagaMoves` list what a step of a `create_order` run does, `PassMoves` and
`DeliveryMoves` what a step of a background pass does; every invariant is a case
analysis over these. `Eff` has its frame lemmas here too: what each effect
leaves alone.
-/
namespace Gestalt.Checkout

open Gestalt.Orders (Db Order OrderItem OrderOut Line Write)

variable {cfg : Config} {s s' : Sys} {c : Caller} {e : Eff}

/-! ## Effects -/

@[simp] theorem apply_sagas (s : Sys) (c : Caller) (e : Eff) : (s.apply c e).sagas = s.sagas := by
  cases e <;> simp only [Sys.apply, Sys.perform] <;> split <;> rfl

@[simp] theorem apply_passes (s : Sys) (c : Caller) (e : Eff) : (s.apply c e).passes = s.passes := by
  cases e <;> simp only [Sys.apply, Sys.perform] <;> split <;> rfl

@[simp] theorem apply_trace (s : Sys) (c : Caller) (e : Eff) :
    (s.apply c e).trace = s.trace ++ e.issued s c := rfl

/-- What an effect does to the orders database. -/
def Eff.onDb (now : Nat) (db : Db) : Eff → Db
  | .insert order lines => Orders.insert db order lines
  | .write oid w => Orders.update db oid w now
  | _ => db

@[simp] theorem apply_db (s : Sys) (c : Caller) (e : Eff) : (s.apply c e).db = e.onDb s.now s.db := by
  cases e <;> simp only [Sys.apply, Sys.perform, Eff.onDb] <;> split <;> rfl

/-- What an effect does to catalog-service. -/
def Eff.onCat (t : Catalog.Products) : Eff → Catalog.Products
  | .reserve l oid d => if d.handled then (Catalog.reserve t l.productId l.quantity oid).2 else t
  | .release l oid d => if d.handled then (Catalog.release t l.productId l.quantity oid).2 else t
  | _ => t

@[simp] theorem apply_cat (s : Sys) (c : Caller) (e : Eff) : (s.apply c e).cat = e.onCat s.cat := by
  cases e <;> simp only [Sys.apply, Sys.perform, Eff.onCat] <;> split <;> rfl

/-- The catalog keeps its products. -/
@[simp] theorem exists_onCat (e : Eff) (t : Catalog.Products) (p : String) :
    Catalog.Exists (e.onCat t) p ↔ Catalog.Exists t p := by
  cases e <;> simp only [Eff.onCat] <;> split <;> simp

/-- What an effect does to payment-service. -/
def Eff.onPay (p : Payment.St) : Eff → Payment.St
  | .charge oid amount key f => if f = none then arriveCharge p oid amount key else p
  | _ => p

@[simp] theorem apply_pay (s : Sys) (c : Caller) (e : Eff) : (s.apply c e).pay = e.onPay s.pay := by
  cases e <;> simp only [Sys.apply, Sys.perform, Eff.onPay] <;> split <;> rfl

/-- Every entry is its caller's. -/
theorem issued_caller {x : Issued} (h : x ∈ e.issued s c) : x.caller = c := by
  cases e <;> simp only [Eff.issued, List.not_mem_nil, List.mem_singleton] at h <;> subst h <;> rfl

/-! ## A step of a `create_order` run -/

/-- What the lookup of a product id reads: the price of the product it asks for. -/
def unitPrice (cfg : Config) (t : Catalog.Products) (p : String) : Int :=
  Catalog.priceOf t (Lookup.named cfg.catalogService p)

/-- Up to the commit of the order. -/
inductive PreludeMoves (cfg : Config) (s : Sys) (g : Saga) : Act → Saga → Eff → Prop
  /-- an order in the response is the one stored under the request's key -/
  | answered (a : Act) (answer : Except AppError OrderOut) :
      (∀ out, answer = .ok out → ∃ order, Orders.byKey s.db g.key = some order ∧
        out = Orders.toOut order (Orders.loadItems s.db order.id)) →
      PreludeMoves cfg s g a { g with phase := .replied answer } .quiet
  | missed : g.phase = .lookup → g.key ≠ "" →
      PreludeMoves cfg s g .select { g with phase := .resolve } .quiet
  | conflict (amount : Int) (oid : String) : g.phase = .price [] amount →
      PreludeMoves cfg s g (.flush oid) { g with phase := .reselect } .quiet
  | resolved (r : Response) (lines : List Line) : g.phase = .resolve →
      (g.req.lines ≠ [] → lines = g.req.lines) →
      PreludeMoves cfg s g (.resolve r) { g with rawItems := lines, phase := .price lines 0 } .quiet
  | priced (l : Line) (todo : List Line) (amount : Int) (d : Delivery) :
      g.phase = .price (l :: todo) amount →
      Catalog.Exists s.cat (Lookup.named cfg.catalogService l.productId) →
      PreludeMoves cfg s g (.price d)
        { g with phase := .price todo (amount + unitPrice cfg s.cat l.productId * l.quantity) } .quiet
  | flushed (amount : Int) (order : Order) : g.phase = .price [] amount →
      order = g.newOrder order.id amount s.now →
      Orders.find s.db order.id = none → Orders.byKey s.db g.key = none →
      s.locked order.id g.key = false → order.fits = true →
      PreludeMoves cfg s g (.flush order.id) { g with phase := .commit order } .quiet
  | committed (order : Order) : g.phase = .commit order → g.rawItems.all Line.fits = true →
      PreludeMoves cfg s g .commit { g with phase := .saga order.id .created } (.insert order g.rawItems)

theorem prelude_moves {g g' : Saga} {a : Act} (h : prelude cfg s g a = some (g', e)) :
    PreludeMoves cfg s g a g' e := by
  have hfound : ∀ order, Orders.byKey s.db g.key = some order →
      PreludeMoves cfg s g a { g with phase := replay s.db order } .quiet := by
    intro order ho
    exact .answered a _ fun out hout => ⟨order, ho, by cases hout; rfl⟩
  have herror : ∀ err, PreludeMoves cfg s g a { g with phase := .replied (.error err) } .quiet :=
    fun err => .answered a _ fun out hout => by cases hout
  unfold prelude at h
  split at h
  · -- the early SELECT
    rename_i hp
    split at h
    · cases h; exact herror _
    · rename_i hk
      split at h
      · rename_i order ho; cases h; exact hfound order ho
      · cases h; exact .missed hp hk
  · -- resolve the items
    rename_i r hp
    split at h
    · cases h; exact .resolved r _ hp fun _ => rfl
    · rename_i hl
      split at h
      · cases h; exact herror _
      · cases h; exact herror _
      · cases h; exact .resolved r _ hp fun hne => absurd hne hl
  · -- one price
    rename_i l todo amount d hp
    split at h
    · cases h; exact herror _
    · rename_i price hprice
      cases h
      obtain ⟨hread, hfound⟩ := Lookup.readPrice_named hprice
      rw [show price.priceCents = unitPrice cfg s.cat l.productId from hread]
      exact .priced l todo amount d hp hfound
  · -- the INSERT
    rename_i amount oid hp
    split at h
    · cases h; exact herror _
    · rename_i hfits
      split at h
      · cases h; exact .conflict amount oid hp
      · rename_i hfree
        split at h
        · cases h
        · rename_i hlock
          cases h
          simp only [Bool.or_eq_true, not_or, Bool.not_eq_true, Option.isSome_eq_false_iff,
            Option.isNone_iff_eq_none] at hfree
          exact .flushed amount (g.newOrder oid amount s.now) hp rfl hfree.1 hfree.2
            (Bool.eq_false_iff.mpr hlock) (by simpa using hfits)
  · -- the commit
    rename_i order hp
    split at h
    · rename_i hfits; cases h; exact .committed order hp hfits
    · cases h; exact herror _
  · -- the SELECT after the conflict
    split at h
    · rename_i order ho; cases h; exact hfound order ho
    · cases h; exact herror _
  · cases h

/-- From the commit of the order on. -/
inductive SagaMoves (s : Sys) (g : Saga) (oid : String) : Pc → Act → Pc → Eff → Prop
  | created (order : Order) (logged : Bool) : Orders.find s.db oid = some order →
      SagaMoves s g oid .created (.publish logged) (.reserve [] g.rawItems)
        (.publish (.created order.id order.userId g.rawItems order.amountCents) logged)
  | reserved (held : List Line) (l : Line) (todo : List Line) (d : Delivery) :
      (d.seen (wire (Catalog.reserve s.cat l.productId l.quantity oid).1)).ok = true →
      SagaMoves s g oid (.reserve held (l :: todo)) (.reserve d) (.reserve (held ++ [l]) todo)
        (.reserve l oid d)
  | refused (held : List Line) (l : Line) (todo : List Line) (d : Delivery) (reason : String) :
      (d.seen (wire (Catalog.reserve s.cat l.productId l.quantity oid).1)).ok = false →
      SagaMoves s g oid (.reserve held (l :: todo)) (.reserve d) (.release .partialRollback held reason)
        (.reserve l oid d)
  | marked (held : List Line) :
      SagaMoves s g oid (.reserve held []) .commit .charge (.write oid { stockReserved := some true })
  | released (b : Branch) (l : Line) (todo : List Line) (reason : String) (d : Delivery) :
      SagaMoves s g oid (.release b (l :: todo) reason) (.release d) (.release b todo reason)
        (.release l oid d)
  | failed (b : Branch) (reason : String) :
      SagaMoves s g oid (.release b [] reason) .commit (.ended false .refresh) (.write oid (failing reason))
  | sent (order : Order) : Orders.find s.db oid = some order → 0 < order.amountCents →
      SagaMoves s g oid .charge (.charge none) (.await s.pay.calls.length)
        (.charge order.id order.amountCents order.idempotencyKey none)
  /-- the request did not reach payment-service, or was not valid -/
  | unsent (order : Order) (f : Option Fault) (reason : String) : Orders.find s.db oid = some order →
      f ≠ none ∨ ¬ 0 < order.amountCents →
      SagaMoves s g oid .charge (.charge f) (.release .paymentFailed g.rawItems reason)
        (.charge order.id order.amountCents order.idempotencyKey f)
  | settled (j : Nat) (call : Payment.Call) (answer : Payment.Answer) :
      s.pay.calls[j]? = some call → call.pc = .done answer → (wire answer).ok = true →
      SagaMoves s g oid (.await j) .settle .pay .quiet
  | declined (j : Nat) (call : Payment.Call) (answer : Payment.Answer) (reason : String) :
      s.pay.calls[j]? = some call → call.pc = .done answer → (wire answer).ok = false →
      SagaMoves s g oid (.await j) .settle (.release .paymentFailed g.rawItems reason) .quiet
  | gaveUp (j : Nat) (f : Fault) (reason : String) :
      SagaMoves s g oid (.await j) (.giveUp f) (.release .paymentFailed g.rawItems reason) .quiet
  | paid : SagaMoves s g oid .pay .commit (.ended true .refresh) (.write oid { status := some .paid })
  | loaded (b : Bool) (order : Order) : Orders.find s.db oid = some order →
      SagaMoves s g oid (.ended b .refresh) .load (.ended b (.announce order)) .quiet
  | announced (b : Bool) (order : Order) (ev : Event) (logged : Bool) : ev.orderId = order.id →
      SagaMoves s g oid (.ended b (.announce order)) (.publish logged) (.ended b (.clear order))
        (.publish ev logged)
  | cleared (b : Bool) (order : Order) (d : Delivery) :
      SagaMoves s g oid (.ended b (.clear order)) (.clear d)
        (.ended b (.done (Orders.toOut order (Orders.loadItems s.db order.id))))
        (.clearCart order.userId (g.rawItems.map Line.productId) oid d)

theorem chargeResult_error {r : Response} {reason : String} (h : chargeResult r = .error reason) :
    r.ok = false := by
  unfold chargeResult at h
  split at h
  · rfl
  · cases h
  · rfl
  · rename_i h200 _
    unfold Response.ok
    split
    · rename_i he; cases he; exact absurd rfl h200
    · rfl

theorem saga_moves {g : Saga} {oid : String} {pc pc' : Pc} {a : Act}
    (h : saga s g oid pc a = some (pc', e)) : SagaMoves s g oid pc a pc' e := by
  unfold saga at h
  split at h
  · obtain ⟨order, ho, he⟩ := Option.map_eq_some_iff.mp h
    cases he; exact .created order _ ho
  · split at h
    · rename_i hr; cases h; exact .reserved _ _ _ _ (reserveResult_ok hr)
    · rename_i hr; cases h; exact .refused _ _ _ _ _ (reserveResult_error hr)
  · cases h; exact .marked _
  · cases h; exact .released _ _ _ _ _
  · cases h; exact .failed _ _
  · -- the charge: refused before it is sent, sent, or refused as invalid
    rename_i f
    obtain ⟨order, ho, he⟩ := Option.map_eq_some_iff.mp h
    cases f with
    | some f =>
      obtain ⟨reason, hr⟩ := chargeResult_fault f
      simp only [charged, hr, Prod.mk.injEq] at he
      obtain ⟨rfl, rfl⟩ := he
      exact .unsent order (some f) reason ho (.inl (by simp))
    | none =>
      by_cases hpos : 0 < order.amountCents
      · simp only [if_pos hpos, Prod.mk.injEq] at he
        obtain ⟨rfl, rfl⟩ := he
        exact .sent order ho hpos
      · simp only [if_neg hpos, Prod.mk.injEq] at he
        obtain ⟨rfl, rfl⟩ := he
        exact .unsent order none _ ho (.inr hpos)
  · -- the answer to the charge
    split at h
    · rename_i call hc
      split at h
      · rename_i answer hpc
        cases h
        cases hr : chargeResult (wire answer) with
        | ok u =>
          simp only [charged, hr]
          exact .settled _ call answer hc hpc (chargeResult_ok hr)
        | error reason =>
          simp only [charged, hr]
          exact .declined _ call answer reason hc hpc (chargeResult_error hr)
      · cases h
    · cases h
  · rename_i f
    cases h
    obtain ⟨reason, hr⟩ := chargeResult_fault f
    simp only [charged, hr]
    exact .gaveUp _ f reason
  · cases h; exact .paid
  · obtain ⟨order, ho, he⟩ := Option.map_eq_some_iff.mp h
    cases he; exact .loaded _ order ho
  · cases h
    refine .announced _ _ _ _ ?_
    split <;> rfl
  · cases h; exact .cleared _ _ _
  · cases h

/-- A step of `create_order` run `i`. -/
inductive RunStep (cfg : Config) (s : Sys) (i : Nat) (a : Act) : Sys → Prop
  | prelude (g g' : Saga) (e : Eff) : s.sagas[i]? = some g → g.alive = true →
      (∀ oid pc, g.phase ≠ .saga oid pc) → PreludeMoves cfg s g a g' e →
      RunStep cfg s i a { s.apply (.saga i) e with sagas := s.sagas.set i g' }
  | saga (g : Saga) (oid : String) (pc pc' : Pc) (e : Eff) : s.sagas[i]? = some g → g.alive = true →
      g.phase = .saga oid pc → SagaMoves s g oid pc a pc' e →
      RunStep cfg s i a { s.apply (.saga i) e with sagas := s.sagas.set i { g with phase := .saga oid pc' } }

theorem step_saga {i : Nat} {a : Act} (h : step cfg s (.saga i a) = some s') : RunStep cfg s i a s' := by
  simp only [step] at h
  split at h
  · rename_i g hg
    split at h
    · rename_i hal
      obtain ⟨⟨g', e⟩, hst, rfl⟩ := Option.map_eq_some_iff.mp h
      unfold stepSaga at hst
      split at hst
      · rename_i oid pc hp
        obtain ⟨⟨pc', e'⟩, hs, he⟩ := Option.map_eq_some_iff.mp hst
        cases he
        exact .saga g oid pc pc' _ hg hal hp (saga_moves hs)
      · rename_i hne; exact .prelude g g' e hg hal hne (prelude_moves hst)
    · cases h
  · cases h

/-! ## A step of a background pass -/

inductive PassMoves (s : Sys) (p : Pass) : Act → Pass → Eff → Prop
  | took (oid : String) (rest : List String) (order : Order) : p.pc = .next → p.todo = oid :: rest →
      Orders.find p.snap oid = some order →
      PassMoves s p .next { p with todo := rest, pc := takeUp p.snap order } .quiet
  | released (order : Order) (items : List OrderItem) (i : OrderItem) (todo : List OrderItem)
      (d : Delivery) : p.pc = .release order items (i :: todo) →
      PassMoves s p (.release d) { p with pc := .release order items todo } (.release i.line order.id d)
  | failed (order : Order) (items : List OrderItem) : p.pc = .release order items [] →
      PassMoves s p .commit { p with pc := .refresh order.id items } (.write order.id (overdue order))
  | loaded (oid : String) (items : List OrderItem) (order : Order) : p.pc = .refresh oid items →
      Orders.find s.db oid = some order →
      PassMoves s p .load { p with snap := s.db, pc := .announce order items } .quiet
  | announced (order : Order) (items : List OrderItem) (logged : Bool) : p.pc = .announce order items →
      PassMoves s p (.publish logged) { p with pc := .clear order items }
        (.publish (.failed order.id order.userId order.failureReason) logged)
  | cleared (order : Order) (items : List OrderItem) (d : Delivery) : p.pc = .clear order items →
      PassMoves s p (.clear d) { p with pc := .next }
        (.clearCart order.userId (items.map OrderItem.productId) order.id d)

theorem stepPass_moves {p p' : Pass} {a : Act} (h : stepPass s p a = some (p', e)) :
    PassMoves s p a p' e := by
  unfold stepPass at h
  split at h
  · rename_i hp
    split at h
    · cases h
    · rename_i oid rest ht
      obtain ⟨order, ho, he⟩ := Option.map_eq_some_iff.mp h
      cases he; exact .took oid rest order hp ht ho
  · rename_i hp; cases h; exact .released _ _ _ _ _ hp
  · rename_i hp; cases h; exact .failed _ _ hp
  · rename_i hp
    obtain ⟨order, ho, he⟩ := Option.map_eq_some_iff.mp h
    cases he; exact .loaded _ _ order hp ho
  · rename_i hp; cases h; exact .announced _ _ _ hp
  · rename_i hp; cases h; exact .cleared _ _ _ hp
  · cases h

theorem step_pass {j : Nat} {a : Act} (h : step cfg s (.pass j a) = some s') :
    ∃ p p' e, s.passes[j]? = some p ∧ p.alive = true ∧ PassMoves s p a p' e ∧
      s' = { s.apply (.pass j) e with passes := s.passes.set j p' } := by
  simp only [step] at h
  split at h
  · rename_i p hp
    split at h
    · rename_i hal
      obtain ⟨⟨p', e⟩, hst, rfl⟩ := Option.map_eq_some_iff.mp h
      exact ⟨p, p', e, hp, hal, stepPass_moves hst, rfl⟩
    · cases h
  · cases h

inductive DeliveryMoves (s : Sys) (p : DeliveryPass) : Act → DeliveryPass → Eff → Prop
  | took (oid : String) (rest : List String) (order : Order) : p.pc = .next → p.todo = oid :: rest →
      Orders.find p.snap oid = some order →
      DeliveryMoves s p .next
        { p with todo := rest, pc := .commit order (Orders.loadItems p.snap oid) s.now } .quiet
  | marked (order : Order) (items : List OrderItem) (at_ : Nat) : p.pc = .commit order items at_ →
      DeliveryMoves s p .commit { p with pc := .refresh order.id items at_ }
        (.write order.id { delivered := if order.delivered then none else some true })
  | loaded (oid : String) (items : List OrderItem) (at_ : Nat) (order : Order) :
      p.pc = .refresh oid items at_ → Orders.find s.db oid = some order →
      DeliveryMoves s p .load { p with snap := s.db, pc := .announce order items at_ } .quiet
  | announced (order : Order) (items : List OrderItem) (at_ : Nat) (logged : Bool) :
      p.pc = .announce order items at_ →
      DeliveryMoves s p (.publish logged) { p with pc := .next }
        (.publish (.delivered order.id order.userId (items.map OrderItem.productId) at_) logged)

theorem stepDelivery_moves {p p' : DeliveryPass} {a : Act} (h : stepDelivery s p a = some (p', e)) :
    DeliveryMoves s p a p' e := by
  unfold stepDelivery at h
  split at h
  · rename_i hp
    split at h
    · cases h
    · rename_i oid rest ht
      obtain ⟨order, ho, he⟩ := Option.map_eq_some_iff.mp h
      cases he; exact .took oid rest order hp ht ho
  · rename_i hp; cases h; exact .marked _ _ _ hp
  · rename_i hp
    obtain ⟨order, ho, he⟩ := Option.map_eq_some_iff.mp h
    cases he; exact .loaded _ _ _ order hp ho
  · rename_i hp; cases h; exact .announced _ _ _ _ hp
  · cases h

theorem step_delivery {j : Nat} {a : Act} (h : step cfg s (.delivery j a) = some s') :
    ∃ p p' e, s.deliveries[j]? = some p ∧ p.alive = true ∧ DeliveryMoves s p a p' e ∧
      s' = { s.apply (.delivery j) e with deliveries := s.deliveries.set j p' } := by
  simp only [step] at h
  split at h
  · rename_i p hp
    split at h
    · rename_i hal
      obtain ⟨⟨p', e⟩, hst, rfl⟩ := Option.map_eq_some_iff.mp h
      exact ⟨p, p', e, hp, hal, stepDelivery_moves hst, rfl⟩
    · cases h
  · cases h

/-! ## A step, seen from the runs -/

/-- What a background pass may do: it never inserts an order, never reserves or
charges, and never writes PAID or `stock_reserved`. -/
def Eff.background : Eff → Bool
  | .quiet => true
  | .write _ w => w.status ≠ some .paid ∧ w.stockReserved = none
  | .release _ _ _ => true
  | .publish _ _ => true
  | .clearCart _ _ _ _ => true
  | _ => false

theorem PassMoves.background {p p' : Pass} {a : Act} (h : PassMoves s p a p' e) :
    e.background = true := by
  cases h with
  | failed order items =>
    simp only [Eff.background, overdue, decide_eq_true_eq]
    refine ⟨?_, trivial⟩
    split <;> simp
  | _ => rfl

theorem DeliveryMoves.background {p p' : DeliveryPass} {a : Act} (h : DeliveryMoves s p a p' e) :
    e.background = true := by
  cases h <;> rfl

/-- A step that leaves the runs and payment-service alone. -/
structure Background (s : Sys) (c : Caller) (e : Eff) (s' : Sys) : Prop where
  sagas : s'.sagas = s.sagas
  db : s'.db = e.onDb s.now s.db
  cat : s'.cat = e.onCat s.cat
  pay : s'.pay = s.pay
  trace : s'.trace = s.trace ++ e.issued s c
  caller : ∀ i, c ≠ .saga i
  eff : e.background = true

/-- Writes no status, and calls no other service. -/
def Eff.silent : Eff → Bool
  | .quiet => true
  | .write _ w => w.status = none ∧ w.stockReserved = none
  | .publish _ _ => true
  | _ => false

theorem DeliveryMoves.silent {p p' : DeliveryPass} {a : Act} (h : DeliveryMoves s p a p' e) :
    e.silent = true := by
  cases h <;> rfl

/-- What such a step does to the reconciliation passes. -/
inductive Passing (cfg : Config) (s : Sys) : Lbl → Caller → Eff → Sys → Prop
  | recon (c : Caller) (s' : Sys) :
      s'.passes = s.passes ++ [⟨s.db, (stuck cfg.order s).map Order.id, .next, true⟩] →
      Passing cfg s .recon c .quiet s'
  | pass (j : Nat) (a : Act) (p p' : Pass) (e : Eff) (s' : Sys) : s.passes[j]? = some p →
      p.alive = true → PassMoves s p a p' e → s'.passes = s.passes.set j p' →
      Passing cfg s (.pass j a) (.pass j) e s'
  | crash (j : Nat) (p : Pass) (c : Caller) (s' : Sys) : s.passes[j]? = some p →
      s'.passes = s.passes.set j { p with alive := false } → Passing cfg s (.crashPass j) c .quiet s'
  | none (l : Lbl) (c : Caller) (e : Eff) (s' : Sys) : e.silent = true → s'.passes = s.passes →
      Passing cfg s l c e s'

/-- The five kinds of step. -/
inductive Shape (cfg : Config) (s : Sys) : Lbl → Sys → Prop
  | spawn (r : Req) : Shape cfg s (.request r) { s with sagas := s.sagas ++ [{ req := r }] }
  | run (i : Nat) (a : Act) (s' : Sys) : RunStep cfg s i a s' → Shape cfg s (.saga i a) s'
  | crash (i : Nat) (g : Saga) : s.sagas[i]? = some g →
      Shape cfg s (.crash i) { s with sagas := s.sagas.set i { g with alive := false } }
  | pay (l : Payment.Lbl) (p : Payment.St) : ofPayment l = true →
      Payment.step cfg.payment s.pay l = some p → Shape cfg s (.pay l) { s with pay := p }
  | other (l : Lbl) (c : Caller) (e : Eff) (s' : Sys) : Background s c e s' →
      Passing cfg s l c e s' → Shape cfg s l s'

theorem step_shape {l : Lbl} (h : step cfg s l = some s') : Shape cfg s l s' := by
  -- a step that changes neither store, log nor run
  have hidle : ∀ t : Sys, t.sagas = s.sagas → t.db = s.db → t.cat = s.cat → t.pay = s.pay →
      t.trace = s.trace → Background s (.pass 0) .quiet t := by
    intro t h1 h2 h3 h4 h5
    refine ⟨h1, h2, h3, h4, ?_, by simp, rfl⟩
    rw [h5]; exact (List.append_nil _).symm
  have hpay : ∀ e : Eff, e.background = true → e.onPay s.pay = s.pay := by
    intro e he
    cases e <;> first | rfl | cases he
  cases l with
  | request r => simp only [step, Option.some.injEq] at h; subst h; exact .spawn r
  | saga i a => exact .run i a s' (step_saga h)
  | crash i =>
    simp only [step, Option.map_eq_some_iff] at h
    obtain ⟨g, hg, rfl⟩ := h
    exact .crash i g hg
  | pay l =>
    simp only [step] at h
    split at h
    · rename_i hl
      obtain ⟨p, hp, rfl⟩ := Option.map_eq_some_iff.mp h
      exact .pay l p hl hp
    · cases h
  | recon =>
    simp only [step, Option.some.injEq] at h; subst h
    exact .other _ _ _ _ (hidle _ rfl rfl rfl rfl rfl) (.recon _ _ rfl)
  | pass j a =>
    obtain ⟨p, p', e, hp, hal, hm, rfl⟩ := step_pass h
    refine .other _ (.pass j) e _ ⟨apply_sagas s (.pass j) e, apply_db s (.pass j) e,
      apply_cat s (.pass j) e, ?_, apply_trace s (.pass j) e, by simp, hm.background⟩
      (.pass j a p p' e _ hp hal hm rfl)
    exact (apply_pay s (.pass j) e).trans (hpay e hm.background)
  | crashPass j =>
    simp only [step, Option.map_eq_some_iff] at h
    obtain ⟨p, hp, rfl⟩ := h
    exact .other _ _ _ _ (hidle _ rfl rfl rfl rfl rfl) (.crash j p _ _ hp rfl)
  | delivery j a =>
    obtain ⟨p, p', e, -, -, hm, rfl⟩ := step_delivery h
    refine .other _ (.delivery j) e _ ⟨apply_sagas s (.delivery j) e, apply_db s (.delivery j) e,
      apply_cat s (.delivery j) e, ?_, apply_trace s (.delivery j) e, by simp, hm.background⟩
      (.none _ _ e _ hm.silent (apply_passes s (.delivery j) e))
    exact (apply_pay s (.delivery j) e).trans (hpay e hm.background)
  | crashDelivery j =>
    simp only [step, Option.map_eq_some_iff] at h
    obtain ⟨p, -, rfl⟩ := h
    exact .other _ _ _ _ (hidle _ rfl rfl rfl rfl rfl) (.none _ _ _ _ rfl rfl)
  | deliver | cart u lines | tick =>
    simp only [step, Option.some.injEq] at h; subst h
    exact .other _ _ _ _ (hidle _ rfl rfl rfl rfl rfl) (.none _ _ _ _ rfl rfl)

/-- Every step performs one effect on the stores and the log. -/
theorem step_effect {l : Lbl} (h : step cfg s l = some s') : ∃ (c : Caller) (e : Eff),
    s'.db = e.onDb s.now s.db ∧ s'.cat = e.onCat s.cat ∧ s'.trace = s.trace ++ e.issued s c := by
  cases step_shape h with
  | run i a s' hrun =>
    cases hrun with
    | prelude g g' e => exact ⟨.saga i, e, apply_db s (.saga i) e, apply_cat s (.saga i) e, rfl⟩
    | saga g oid pc pc' e => exact ⟨.saga i, e, apply_db s (.saga i) e, apply_cat s (.saga i) e, rfl⟩
  | other l c e s' hb _ => exact ⟨c, e, hb.db, hb.cat, hb.trace⟩
  | _ => exact ⟨.pass 0, .quiet, rfl, rfl, (List.append_nil _).symm⟩

end Gestalt.Checkout
