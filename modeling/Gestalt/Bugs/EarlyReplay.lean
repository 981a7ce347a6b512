import Gestalt.L4Checkout.Returns
import Gestalt.L4Checkout.Statuses

/-!
# A retry that overlaps the first call

Status: open.

Behaviour: both replay paths of `create_order` answer with the row as it is
committed at that moment (services/order-service/app/routers/orders.py:62-68 and
95-102). The row is committed PENDING in step 3, long before the saga ends, so a
retry that comes in between is answered 201 with a PENDING order. And a retry
without items that passes the early SELECT before that commit reads the cart
afterwards (orders.py:72-76): once the first call has cleared it, the retry is
answered 400 EMPTY_CART. Besides, every call is answered 500 if the database
refuses the row (models.py:25-30 and 53-54: a key of more than 64 characters, an
amount or a quantity beyond 32 bits, a product id of more than 20 characters),
as only the IntegrityError is handled (orders.py:94).

Documented: API_REFERENCE.md:243-245, "`201`, always [...] the response reflects
its terminal state (`PAID` or `FAILED`), never a pending/async response".

Counterexample: `secondCall`, `secondCart` and `longKey`.

Fix: in the replay paths, wait until the order is PAID or FAILED (as
payment-service does with a charge that is in progress), and look the key up
again before answering EMPTY_CART. Refuse what does not fit with a 422 before
the INSERT.
-/
namespace Gestalt.Checkout

open Gestalt.Orders (Db Order OrderOut Line cores)

/-! ## The calls -/

/-- No crash, no remote failure, no reconciliation pass; every request with the
key `k` is `r`, the carts of its user hold ids that lead to products. -/
def calm (cfg : Config) (k : String) (r : Req) (s : Sys) : Lbl → Bool
  | .request r' => r'.idempotencyKey.getD "" ≠ k || (r'.userId = r.userId && r'.lines = r.lines)
  | .saga _ a => a.answered s
  | .crash _ => false
  | .recon => false
  | .pass _ _ => false
  | .crashPass _ => false
  | .pay (.crash _) => false
  | .cart u lines => u ≠ r.userId || lines.all fun l => Lookup.leads cfg.catalogService s.cat l.productId
  | _ => true

def calmLts (cfg : Config) (cat : Catalog.Products) (k : String) (r : Req) : LTS Sys Lbl :=
  (lts cfg cat).restrict fun s l => calm cfg k r s l = true

/-- The order has reached its terminal state. -/
def terminal (out : OrderOut) : Bool := out.status = "PAID" || out.status = "FAILED"

/-- The calls with the key that have returned have returned 201, all with one
body, that of a finished order. -/
def SeeFinished (k : String) (s : Sys) : Prop :=
  (∀ g ∈ s.sagas, g.key = k → ∀ answer, g.reply = some answer →
    ∃ out, answer = .ok out ∧ terminal out = true) ∧
  ∀ g ∈ s.sagas, ∀ h ∈ s.sagas, g.key = k → h.key = k → ∀ answer answer', g.reply = some answer →
    h.reply = some answer' → answer = answer'

/-! ## The runs that go wrong -/

def early : Except AppError OrderOut → Bool
  | .ok out => !terminal out
  | .error _ => true

/-- A call with the key has returned something else than a finished order. -/
def returnsEarly (k : String) (s : Sys) : Bool :=
  s.sagas.any fun g => g.key = k && g.reply.any early

theorem any_reply {k : String} {gs : List Saga} {test : Except AppError OrderOut → Bool}
    (h : (gs.any fun g => g.key = k && g.reply.any test) = true) :
    ∃ g ∈ gs, g.key = k ∧ ∃ answer, g.reply = some answer ∧ test answer = true := by
  obtain ⟨g, hg, hs⟩ := List.any_eq_true.mp h
  obtain ⟨hk, hs⟩ := Bool.and_eq_true_iff.mp hs
  obtain ⟨answer, hrep, hs⟩ := (Option.any_eq_true _ _).mp hs
  exact ⟨g, hg, of_decide_eq_true hk, answer, hrep, hs⟩

theorem returnsEarly_spec {k : String} {s : Sys} (h : returnsEarly k s = true) : ¬ SeeFinished k s := by
  obtain ⟨g, hg, hk, answer, hrep, hs⟩ := any_reply h
  intro h
  obtain ⟨out, rfl, hout⟩ := h.1 g hg hk answer hrep
  simp [early, hout] at hs

def penRequest : Req := ⟨"u1", some "k1", some [onePen]⟩

/-- The second call comes while the first one is about to reserve. -/
def secondCall : List Lbl :=
  [.request penRequest, .saga 0 .select, .saga 0 (.resolve (.status 200 none)), .saga 0 (.price .answered),
    .saga 0 (.flush "o1"), .saga 0 .commit, .saga 0 (.publish true), .request penRequest, .saga 1 .select]

/-- **Counterexample.** The second call is answered with a PENDING order. -/
theorem retry_sees_pending : ¬ ∀ s, (calmLts {} shop "k1" penRequest).Reachable s → SeeFinished "k1" s := by
  have hrun : ∃ s, (calmLts {} shop "k1" penRequest).Reachable s ∧ returnsEarly "k1" s = true :=
    LTS.reachable_of_execG secondCall rfl (by decide +kernel)
  obtain ⟨s, hr, hs⟩ := hrun
  exact fun h => returnsEarly_spec hs (h s hr)

def cartRequest : Req := ⟨"u1", some "k1", none⟩

/-- From the prices of one line to the response. -/
def payOne (i : Nat) (oid : String) : List Lbl :=
  [.saga i (.price .answered), .saga i (.flush oid), .saga i .commit, .saga i (.publish true),
    .saga i (.reserve .answered), .saga i .commit, .saga i (.charge none)] ++ serveCharge 0 (some 1) ++
    [.saga i .settle, .saga i .commit, .saga i .load, .saga i (.publish true), .saga i (.clear .answered)]

/-- The second call has passed the early SELECT when the first one clears the cart. -/
def secondCart : List Lbl :=
  [.cart "u1" [⟨"p1", 1⟩], .request cartRequest, .request cartRequest, .saga 0 .select, .saga 1 .select,
    .saga 0 (.resolve (.status 200 none))] ++ payOne 0 "o1" ++ [.saga 1 (.resolve (.status 200 none))]

def refuses (e : AppError) : Except AppError OrderOut → Bool
  | .ok _ => false
  | .error e' => e' = e

theorem refuses_iff {e : AppError} {answer : Except AppError OrderOut} :
    refuses e answer = true ↔ answer = .error e := by
  cases answer <;> simp [refuses]

/-- The other way to fail: the order is PAID, and the retry is answered EMPTY_CART. -/
theorem retry_sees_empty_cart : ∃ s, (calmLts {} shop "k1" cartRequest).Reachable s ∧
    (∃ o ∈ s.db.orders, o.status = .paid) ∧ ∃ g ∈ s.sagas, g.key = "k1" ∧
      g.reply = some (.error emptyCart) := by
  have hrun : ∃ s, (calmLts {} shop "k1" cartRequest).Reachable s ∧
      ((s.db.orders.any fun o => o.status = .paid) &&
        s.sagas.any fun g => g.key = "k1" && g.reply.any (refuses emptyCart)) = true :=
    LTS.reachable_of_execG secondCart rfl (by decide +kernel)
  obtain ⟨s, hr, hs⟩ := hrun
  obtain ⟨hpaid, hs⟩ := Bool.and_eq_true_iff.mp hs
  obtain ⟨o, ho, hst⟩ := List.any_eq_true.mp hpaid
  obtain ⟨g, hg, hk, answer, hrep, htest⟩ := any_reply hs
  exact ⟨s, hr, ⟨o, ho, of_decide_eq_true hst⟩, g, hg, hk, refuses_iff.mp htest ▸ hrep⟩

/-- One character too long. -/
def tooLong : String := "".pushn 'k' 65

def longKeyRequest : Req := ⟨"u1", some tooLong, some [onePen]⟩

/-- A call whose key does not fit its column. -/
def longKey : List Lbl :=
  [.request longKeyRequest, .saga 0 .select, .saga 0 (.resolve (.status 200 none)), .saga 0 (.price .answered),
    .saga 0 (.flush "o1")]

/-- A third way: nothing is stored, and the call is answered 500. -/
theorem long_key_is_refused : ∃ s, (calmLts {} shop tooLong longKeyRequest).Reachable s ∧
    s.db.orders = [] ∧ ∃ g ∈ s.sagas, g.key = tooLong ∧ g.reply = some (.error internalError) := by
  have hrun : ∃ s, (calmLts {} shop tooLong longKeyRequest).Reachable s ∧
      (s.db.orders.isEmpty &&
        s.sagas.any fun g => g.key = tooLong && g.reply.any (refuses internalError)) = true :=
    LTS.reachable_of_execG longKey rfl (by decide +kernel)
  obtain ⟨s, hr, hs⟩ := hrun
  obtain ⟨hnone, hs⟩ := Bool.and_eq_true_iff.mp hs
  obtain ⟨g, hg, hk, answer, hrep, htest⟩ := any_reply hs
  exact ⟨s, hr, List.isEmpty_iff.mp hnone, g, hg, hk, refuses_iff.mp htest ▸ hrep⟩

/-! ## When no read comes too early or too late -/

/-- The INSERTs that a step sends fit their columns. -/
def fitting (s : Sys) (g : Saga) : Act → Bool
  | .flush oid =>
    match g.phase with
    | .price [] amount => (g.newOrder oid amount s.now).fits
    | _ => true
  | .commit =>
    match g.phase with
    | .commit _ => g.rawItems.all Line.fits
    | _ => true
  | _ => true

/-- A call with the key looks the key up only before the order is committed or
after it is finished, reads the cart only before it is cleared, and inserts what
fits the columns. -/
def timely (k : String) (s : Sys) : Lbl → Bool
  | .saga i .select =>
    (s.sagas[i]?).all fun g => g.key ≠ k || (Orders.byKey s.db k).all fun o => o.status ≠ .pending
  | .saga i (.resolve _) =>
    (s.sagas[i]?).all fun g => g.key ≠ k || g.req.lines ≠ [] || s.carts g.req.userId ≠ []
  | .saga i a => (s.sagas[i]?).all fun g => g.key ≠ k || fitting s g a
  | _ => true

def timelyLts (cfg : Config) (cat : Catalog.Products) (k : String) (r : Req) : LTS Sys Lbl :=
  (lts cfg cat).restrict fun s l => calm cfg k r s l = true ∧ timely k s l = true

variable {cfg : Config} {cat : Catalog.Products} {k : String} {r : Req} {s s' : Sys}

/-! ### Finished orders stay -/

/-- `o'` is the row `o` is after a step, which shows nothing of it. -/
structure Kept (db db' : Db) (o o' : Order) : Prop where
  mem : o' ∈ db'.orders
  core : o'.core = o.core
  status : o'.status = o.status
  reason : o'.failureReason = o.failureReason
  lines : Orders.linesOf db' o.id = Orders.linesOf db o.id

theorem SagaMoves.onRow_decided {g : Saga} {oid : String} {pc pc' : Pc} {a : Act} {e : Eff}
    (h : SagaMoves s g oid pc a pc' e) (hout : pc.outcome ≠ none) (now : Nat) (o : Order) :
    e.onRow now o = o := by
  cases h <;> first | rfl | exact absurd rfl hout

theorem set_delivered (d : Option Bool) (now : Nat) (o : Order) :
    (o.set { delivered := d } now).core = o.core ∧ (o.set { delivered := d } now).status = o.status ∧
      (o.set { delivered := d } now).failureReason = o.failureReason := by
  refine ⟨Orders.core_set _ now o, by simp, ?_⟩
  unfold Order.set
  split <;> simp

/-- A finished order is shown as before by any step of calm runs. -/
theorem kept_step {l : Lbl} (K : Keys s.db s.sagas) (I : AtRow StatusOk s) (hl : calm cfg k r s l = true)
    (h : step cfg s l = some s') {o : Order} (ho : o ∈ s.db.orders) (hst : o.status ≠ .pending) :
    ∃ o', Kept s.db s'.db o o' := by
  have hlines := lines_step K h o.core (Orders.mem_core ho)
  -- the row itself is still there
  have hsame : (∀ o ∈ s.db.orders, o ∈ s'.db.orders) → ∃ o', Kept s.db s'.db o o' :=
    fun hm => ⟨o, hm o ho, rfl, rfl, rfl, hlines⟩
  cases l with
  | request r =>
    cases h
    exact hsame fun _ h => h
  | saga i a =>
    cases step_saga h with
    | prelude g g' e hg hal hne hm =>
      refine hsame fun x hx => ?_
      simp only [apply_db]
      cases hm with
      | committed order hp => exact List.mem_append_left _ hx
      | _ => exact hx
    | saga g oid pc pc' e hg hal hp hm =>
      have hrow : e.onRow s.now o = o := by
        by_cases hid : o.id = oid
        · refine hm.onRow_decided ?_ s.now o
          intro hout
          have hok := I i g oid pc hg hp o ho hid
          rw [hal] at hok
          exact hst (hok.pending hout)
        · exact hm.onRow_other hid s.now
      refine ⟨o, ?_, rfl, rfl, rfl, hlines⟩
      simp only [apply_db]
      rw [onDb_orders hm.inserts, List.mem_map]
      exact ⟨o, ho, hrow⟩
  | pay l =>
    simp only [step] at h
    split at h
    · obtain ⟨p, -, rfl⟩ := Option.map_eq_some_iff.mp h
      exact hsame fun _ h => h
    · cases h
  | delivery j a =>
    obtain ⟨p, p', e, -, -, hm, rfl⟩ := step_delivery h
    cases hm with
    | marked order items at_ hp =>
      by_cases hid : o.id = order.id
      · obtain ⟨hc, hs, hf⟩ := set_delivered (if order.delivered then none else some true) s.now o
        refine ⟨_, ?_, hc, hs, hf, hlines⟩
        simp only [apply_db, Eff.onDb, Orders.update]
        exact Table.mem_modify.mpr ⟨o, ho, by rw [if_pos hid]⟩
      · refine ⟨o, ?_, rfl, rfl, rfl, hlines⟩
        simp only [apply_db, Eff.onDb, Orders.update]
        exact Table.mem_modify.mpr ⟨o, ho, by rw [if_neg hid]⟩
    | _ =>
      refine hsame fun x hx => ?_
      simp only [apply_db]
      exact hx
  | crashDelivery j =>
    simp only [step, Option.map_eq_some_iff] at h
    obtain ⟨p, -, rfl⟩ := h
    exact hsame fun _ h => h
  | deliver | cart u lines | tick =>
    cases h
    exact hsame fun _ h => h
  | crash i => cases hl
  | recon => cases hl
  | pass j a => cases hl
  | crashPass j => cases hl

/-! ### The calls of the key -/

/-- Shows a finished order with the key, as a response or as a loaded row does. -/
def ShowsFinished (db : Db) (k : String) (out : OrderOut) : Prop :=
  ∃ o ∈ db.orders, o.idempotencyKey = k ∧ o.status ≠ .pending ∧
    out = Orders.toOut o (Orders.loadItems db o.id)

/-- The order a run has loaded after its last commit. -/
def Phase.loaded : Phase → Option Order
  | .saga _ (.ended _ (.announce order)) => some order
  | .saga _ (.ended _ (.clear order)) => some order
  | _ => none

/-- What is known of a call with the key. -/
structure CallOk (cfg : Config) (r : Req) (s : Sys) (g : Saga) : Prop where
  alive : g.alive = true
  user : g.req.userId = r.userId
  lines : g.req.lines = r.lines
  todo : ∀ todo amount, g.phase = .price todo amount →
    ∀ l ∈ todo, Lookup.leads cfg.catalogService s.cat l.productId = true
  conflict : g.phase = .reselect → ∃ c ∈ cores s.db, c.idempotencyKey = g.key
  loaded : ∀ order, g.phase.loaded = some order →
    ShowsFinished s.db g.key (Orders.toOut order (Orders.loadItems s.db order.id))
  answer : ∀ answer, g.reply = some answer → ∃ out, answer = .ok out ∧ ShowsFinished s.db g.key out

theorem toOut_congr {db db' : Db} {o o' : Order} (hc : o'.core = o.core) (hs : o'.status = o.status)
    (hf : o'.failureReason = o.failureReason) (hl : Orders.linesOf db' o.id = Orders.linesOf db o.id) :
    Orders.toOut o' (Orders.loadItems db' o'.id) = Orders.toOut o (Orders.loadItems db o.id) := by
  simp only [Order.core, Orders.Core.mk.injEq] at hc
  obtain ⟨hid, hu, ha, -, ht⟩ := hc
  have hl' : (Orders.loadItems db' o.id).map Orders.OrderItem.line =
      (Orders.loadItems db o.id).map Orders.OrderItem.line := hl
  simp only [Orders.toOut, hid, hu, ha, ht, hs, hf, hl']

/-- What a step may change of the stores without a call noticing. -/
structure Grown (s s' : Sys) : Prop where
  cat : ∀ p, Catalog.Exists s.cat p → Catalog.Exists s'.cat p
  cores : ∀ c ∈ cores s.db, c ∈ Orders.cores s'.db
  lines : ∀ c ∈ Orders.cores s.db, Orders.linesOf s'.db c.id = Orders.linesOf s.db c.id
  kept : ∀ o ∈ s.db.orders, o.status ≠ .pending → ∃ o', Kept s.db s'.db o o'

theorem Grown.leads (hg : Grown s s') {o : Url.Origin} {p : String} (h : Lookup.leads o s.cat p = true) :
    Lookup.leads o s'.cat p = true := by
  obtain ⟨e, he, hx⟩ := (Option.any_eq_true _ _).mp h
  exact (Option.any_eq_true _ _).mpr ⟨e, he, hg.cat _ hx⟩

theorem ShowsFinished.mono {out : OrderOut} (h : ShowsFinished s.db k out) (hg : Grown s s') :
    ShowsFinished s'.db k out := by
  obtain ⟨o, ho, hk, hst, rfl⟩ := h
  obtain ⟨o', hm⟩ := hg.kept o ho hst
  refine ⟨o', hm.mem, ?_, by rw [hm.status]; exact hst, ?_⟩
  · exact (congrArg Orders.Core.idempotencyKey hm.core).trans hk
  · exact (toOut_congr hm.core hm.status hm.reason hm.lines).symm

theorem CallOk.mono {g : Saga} (h : CallOk cfg r s g) (hg : Grown s s') : CallOk cfg r s' g where
  alive := h.alive
  user := h.user
  lines := h.lines
  todo todo amount hp l hl := hg.leads (h.todo todo amount hp l hl)
  conflict hp := by
    obtain ⟨c, hc, hk⟩ := h.conflict hp
    exact ⟨c, hg.cores c hc, hk⟩
  loaded order hp := by
    have hold := h.loaded order hp
    obtain ⟨o, ho, -, -, he⟩ := id hold
    -- the loaded row's items are those of the row
    have hid : order.id = o.id := congrArg OrderOut.id he
    have hl := hg.lines o.core (Orders.mem_core ho)
    have hout : Orders.toOut order (Orders.loadItems s'.db order.id) =
        Orders.toOut order (Orders.loadItems s.db order.id) := toOut_congr rfl rfl rfl (hid ▸ hl)
    rw [hout]
    exact hold.mono hg
  answer answer hp := by
    obtain ⟨out, he, hout⟩ := h.answer answer hp
    exact ⟨out, he, hout.mono hg⟩

theorem grown_step {l : Lbl} (K : Keys s.db s.sagas) (I : AtRow StatusOk s) (hl : calm cfg k r s l = true)
    (h : step cfg s l = some s') : Grown s s' where
  cat p hp := by
    obtain ⟨-, e, -, hcat, -⟩ := step_effect h
    rw [hcat]
    exact (exists_onCat e s.cat p).mpr hp
  cores := cores_step h
  lines := lines_step K h
  kept o ho hst := kept_step K I hl h ho hst

/-- A call before its commit, which has not answered. -/
theorem CallOk.next {g : Saga} (h : CallOk cfg r s g) {lines : List Line} {p : Phase}
    (htodo : ∀ todo amount, p = .price todo amount →
      ∀ l ∈ todo, Lookup.leads cfg.catalogService s.cat l.productId = true)
    (hconf : p = .reselect → ∃ c ∈ cores s.db, c.idempotencyKey = g.key)
    (hload : p.loaded = none) (hrep : ({ g with rawItems := lines, phase := p } : Saga).reply = none) :
    CallOk cfg r s { g with rawItems := lines, phase := p } where
  alive := h.alive
  user := h.user
  lines := h.lines
  todo := htodo
  conflict := hconf
  loaded order ho := by rw [hload] at ho; cases ho
  answer answer ha := by rw [hrep] at ha; cases ha

/-- The replay of a finished order. -/
theorem CallOk.replayed {g : Saga} (h : CallOk cfg r s g) {order : Order}
    (ho : Orders.byKey s.db g.key = some order) (hst : order.status ≠ .pending) :
    CallOk cfg r s { g with phase := replay s.db order } where
  alive := h.alive
  user := h.user
  lines := h.lines
  todo _ _ hp := by cases hp
  conflict hp := by cases hp
  loaded _ hp := by cases hp
  answer answer ha := by
    cases ha
    obtain ⟨hm, hk⟩ := Orders.byKey_some ho
    exact ⟨_, rfl, order, hm, hk, hst, rfl⟩

theorem getCartItems_ok {cart : List Line} {x : Response} (h : x.ok = true) :
    getCartItems cart x = .ok cart := by
  unfold Response.ok at h
  split at h
  · rfl
  · cases h

/-- The items are resolved. -/
theorem CallOk.resolved {g : Saga} (h : CallOk cfg r s g) {lines : List Line}
    (hleads : ∀ l ∈ lines, Lookup.leads cfg.catalogService s.cat l.productId = true) :
    CallOk cfg r s { g with rawItems := lines, phase := .price lines 0 } := by
  refine h.next ?_ (by simp) rfl rfl
  intro todo amount he
  cases he
  exact hleads

/-- A price is answered. -/
theorem CallOk.priced {g : Saga} {l : Line} {todo : List Line} {amount : Int} (h : CallOk cfg r s g)
    (hp : g.phase = .price (l :: todo) amount) :
    ∃ price, Lookup.getPrice cfg.catalogService cfg.elsewhere Lookup.asText (s.moment .answered) l.productId =
        .ok price ∧
      ∀ total, CallOk cfg r s { g with phase := .price todo total } := by
  obtain ⟨price, hprice⟩ := Lookup.readPrice_leads (h.todo _ amount hp l List.mem_cons_self)
  refine ⟨price, hprice, fun total => h.next ?_ (by simp) rfl rfl⟩
  intro todo' total' he
  cases he
  intro l' hl'
  exact h.todo _ amount hp l' (List.mem_cons_of_mem l hl')

/-- The INSERT fails: a committed row has the key. -/
theorem CallOk.conflicted {g : Saga} {oid : String} (h : CallOk cfg r s g)
    (hfresh : (Act.flush oid).answered s = true)
    (hconf : ((Orders.find s.db oid).isSome || (Orders.byKey s.db g.key).isSome) = true) :
    CallOk cfg r s { g with phase := .reselect } := by
  refine h.next (by simp) ?_ rfl rfl
  intro _
  have hnone : (Orders.find s.db oid).isSome = false := by
    simpa [Act.answered, Option.isSome_eq_false_iff] using hfresh
  rw [hnone, Bool.false_or] at hconf
  obtain ⟨order, ho⟩ := Option.isSome_iff_exists.mp hconf
  obtain ⟨hm, hkey⟩ := Orders.byKey_some ho
  exact ⟨order.core, Orders.mem_core hm, hkey⟩

/-- **Step lemma**, up to the commit of the order. -/
theorem CallOk.prelude {g g' : Saga} {a : Act} {e : Eff} (h : CallOk cfg r s g) (hk : g.key ≠ "")
    (hst : prelude cfg s g a = some (g', e)) (ha : a.answered s = true)
    (hcarts : ∀ l ∈ s.carts r.userId, Lookup.leads cfg.catalogService s.cat l.productId = true)
    (hbody : ∀ l ∈ r.lines, Lookup.leads cfg.catalogService s.cat l.productId = true)
    (hselect : a = .select → ∀ o, Orders.byKey s.db g.key = some o → o.status ≠ .pending)
    (hresolve : ∀ x, a = .resolve x → g.req.lines = [] → s.carts g.req.userId ≠ [])
    (hfits : fitting s g a = true) : CallOk cfg r s g' := by
  unfold Checkout.prelude at hst
  split at hst
  · -- the early SELECT
    split at hst
    · contradiction
    · split at hst
      · rename_i order ho
        cases hst
        exact h.replayed ho (hselect rfl order ho)
      · cases hst
        exact h.next (by simp) (by simp) rfl rfl
  · -- resolve the items
    rename_i x hp
    split at hst
    · cases hst
      exact h.resolved (h.lines ▸ hbody)
    · rename_i hne
      have hempty := Decidable.not_not.mp hne
      have hcart := hresolve x rfl hempty
      rw [getCartItems_ok ha] at hst
      cases hc : s.carts g.req.userId with
      | nil => exact absurd hc hcart
      | cons l ls =>
        rw [hc] at hst
        cases hst
        refine h.resolved ?_
        rw [← hc, h.user]
        exact hcarts
  · -- one price
    rename_i l todo amount d hp
    have hd : d = .answered := of_decide_eq_true ha
    subst hd
    obtain ⟨price, hprice, hnext⟩ := h.priced hp
    rw [hprice] at hst
    cases hst
    exact hnext _
  · -- the INSERT
    rename_i amount oid hp
    simp only [fitting, hp] at hfits
    rw [hfits] at hst
    simp only [Bool.not_true, Bool.false_eq_true, if_false] at hst
    split at hst
    · rename_i hconf
      cases hst
      exact h.conflicted ha hconf
    · split at hst
      · cases hst
      · cases hst
        exact h.next (by simp) (by simp) rfl rfl
  · -- the commit
    rename_i order hp
    simp only [fitting, hp] at hfits
    rw [if_pos hfits] at hst
    cases hst
    exact h.next (by simp) (by simp) rfl rfl
  · -- the SELECT after the conflict
    rename_i hp
    split at hst
    · rename_i order ho
      cases hst
      exact h.replayed ho (hselect rfl order ho)
    · rename_i hnone
      obtain ⟨c, hc, hkey⟩ := h.conflict hp
      exact absurd hkey (Orders.byKey_none hnone c hc)
  · cases hst

/-- **Step lemma**, from the commit on. -/
theorem CallOk.saga {i : Nat} {g : Saga} {oid : String} {pc pc' : Pc} {a : Act} {e : Eff}
    (h : CallOk cfg r s g) (K : Keys s.db s.sagas) (I : AtRow StatusOk s) (hg : s.sagas[i]? = some g)
    (hp : g.phase = .saga oid pc) (hm : SagaMoves s g oid pc a pc' e) :
    CallOk cfg r s { g with phase := .saga oid pc' } := by
  cases hm with
  | loaded b order hf =>
    obtain ⟨ho, hid⟩ := Orders.find_some hf
    have hkey := K.key hg hp (Orders.mem_core ho) hid
    have hst : order.status ≠ .pending := by
      have hok := I i g oid _ hg hp order ho hid
      cases b with
      | true => rw [hok.decided .paid rfl]; simp
      | false => rw [hok.decided .failed rfl]; simp
    refine ⟨h.alive, h.user, h.lines, by simp, by simp, ?_, fun answer ha => by cases ha⟩
    intro order' he
    cases he
    exact ⟨order, ho, hkey, hst, rfl⟩
  | announced b order ev logged hev =>
    refine ⟨h.alive, h.user, h.lines, by simp, by simp, ?_, fun answer ha => by cases ha⟩
    intro order' he
    cases he
    exact h.loaded order (by rw [hp]; rfl)
  | cleared b order d =>
    refine ⟨h.alive, h.user, h.lines, by simp, by simp, by simp [Phase.loaded], ?_⟩
    intro answer ha
    cases ha
    exact ⟨_, rfl, h.loaded order (by rw [hp]; rfl)⟩
  | _ => exact h.next (by simp) (by simp) rfl rfl

theorem apply_carts (c : Caller) (e : Eff) (u : String) : (s.apply c e).carts u ⊆ s.carts u := by
  intro l hl
  cases e with
  | clearCart userId productIds oid d =>
    simp only [Sys.apply, Sys.perform] at hl
    split at hl
    · simp only at hl
      split at hl
      · exact List.mem_of_mem_filter hl
      · exact hl
    · exact hl
  | _ => simp only [Sys.apply, Sys.perform] at hl; (try split at hl) <;> exact hl

/-- All there is to know of the calls with the key, between steps. -/
structure Retrying (cfg : Config) (k : String) (r : Req) (s : Sys) : Prop where
  call : ∀ (i : Nat) (g : Saga), s.sagas[i]? = some g → g.key = k → CallOk cfg r s g
  carts : ∀ l ∈ s.carts r.userId, Lookup.leads cfg.catalogService s.cat l.productId = true
  body : ∀ l ∈ r.lines, Lookup.leads cfg.catalogService s.cat l.productId = true

/-- No call moves, and no cart gets another product. -/
theorem Retrying.frame (h : Retrying cfg k r s) (hg : Grown s s') (hs : s'.sagas = s.sagas)
    (hc : s'.carts r.userId ⊆ s.carts r.userId) : Retrying cfg k r s' where
  call i g hi hk := (h.call i g (hs ▸ hi) hk).mono hg
  carts l hl := hg.leads (h.carts l (hc hl))
  body l hl := hg.leads (h.body l hl)

theorem PreludeMoves.req {g g' : Saga} {a : Act} {e : Eff} (h : PreludeMoves cfg s g a g' e) :
    g'.req = g.req := by
  cases h <;> rfl

theorem step_saga_eq {i : Nat} {a : Act} (h : step cfg s (.saga i a) = some s') : ∃ g g' e,
    s.sagas[i]? = some g ∧ stepSaga cfg s g a = some (g', e) ∧
      s' = { s.apply (.saga i) e with sagas := s.sagas.set i g' } := by
  simp only [step] at h
  split at h
  · rename_i g hg
    split at h
    · obtain ⟨⟨g', e⟩, hst, rfl⟩ := Option.map_eq_some_iff.mp h
      exact ⟨g, g', e, hg, hst, rfl⟩
    · cases h
  · cases h

/-- One call moves. -/
theorem Retrying.saga {i : Nat} {a : Act} (hr : (lts cfg cat).Reachable s) (R : Retrying cfg k r s)
    (hk : k ≠ "") (I : AtRow StatusOk s) (hg : Grown s s') (hl : calm cfg k r s (.saga i a) = true)
    (ht : timely k s (.saga i a) = true) (h : step cfg s (.saga i a) = some s') : Retrying cfg k r s' := by
  obtain ⟨g, g', e, hi, hst, rfl⟩ := step_saga_eq h
  have hok : g'.key = k → CallOk cfg r s g' := by
    intro hkey'
    simp only [stepSaga] at hst
    split at hst
    · rename_i oid pc hp
      obtain ⟨⟨pc', e'⟩, hsaga, he⟩ := Option.map_eq_some_iff.mp hst
      cases he
      exact (R.call i g hi hkey').saga (keys_reachable hr) I hi hp (saga_moves hsaga)
    · have hreq : g'.req = g.req := (prelude_moves hst).req
      have hkey : g.key = k := by
        rw [Saga.key, ← hreq]
        exact hkey'
      refine (R.call i g hi hkey).prelude (by rw [hkey]; exact hk) hst hl R.carts R.body ?_ ?_ ?_
      · rintro rfl o ho
        rw [hkey] at ho
        simpa [timely, hi, hkey, ho] using ht
      · rintro x rfl hlines
        simpa [timely, hi, hkey, hlines] using ht
      · cases a <;> first | rfl | simpa [timely, hi, hkey] using ht
  refine ⟨?_, ?_, ?_⟩
  · intro j d hj hkey
    rcases Procs.set_cases hi hj with ⟨-, rfl⟩ | ⟨-, hold⟩
    · exact (hok hkey).mono hg
    · exact (R.call j d hold hkey).mono hg
  · intro l hl'
    exact hg.leads (R.carts l (apply_carts (.saga i) e r.userId hl'))
  · intro l hl'
    exact hg.leads (R.body l hl')

/-- **Step lemma.** -/
theorem retrying_step {l : Lbl} (hr : (lts cfg cat).Reachable s) (R : Retrying cfg k r s) (hk : k ≠ "")
    (I : AtRow StatusOk s) (hl : calm cfg k r s l = true) (ht : timely k s l = true)
    (h : step cfg s l = some s') : Retrying cfg k r s' := by
  have hg := grown_step (keys_reachable hr) I hl h
  cases l with
  | request r' =>
    cases h
    refine ⟨?_, fun l hl' => hg.leads (R.carts l hl'), fun l hl' => hg.leads (R.body l hl')⟩
    intro i g hi hkey
    rcases Procs.spawn_cases hi with hold | ⟨-, rfl⟩
    · exact (R.call i g hold hkey).mono hg
    · -- a new call has the key's user and items
      have hreq : r'.userId = r.userId ∧ r'.lines = r.lines := by
        simpa [calm, show r'.idempotencyKey.getD "" = k from hkey] using hl
      exact ⟨rfl, hreq.1, hreq.2, by simp, by simp, by simp [Phase.loaded], by simp [Saga.reply]⟩
  | saga i a => exact R.saga hr hk I hg hl ht h
  | cart u lines =>
    cases h
    refine ⟨fun i g hi hkey => (R.call i g hi hkey).mono hg, ?_, fun l hl' => hg.leads (R.body l hl')⟩
    intro l hl'
    simp only at hl'
    split at hl'
    · rename_i hu
      simp only [calm, ← hu, ne_eq, not_true_eq_false, decide_false, Bool.false_or, List.all_eq_true] at hl
      exact hl l hl'
    · exact R.carts l hl'
  | pay l =>
    simp only [step] at h
    split at h
    · obtain ⟨p, -, rfl⟩ := Option.map_eq_some_iff.mp h
      exact R.frame hg rfl (List.Subset.refl _)
    · cases h
  | delivery j a =>
    obtain ⟨p, p', e, -, -, -, rfl⟩ := step_delivery h
    exact R.frame hg (apply_sagas s (.delivery j) e) (apply_carts (.delivery j) e r.userId)
  | crashDelivery j =>
    simp only [step, Option.map_eq_some_iff] at h
    obtain ⟨p, -, rfl⟩ := h
    exact R.frame hg rfl (List.Subset.refl _)
  | deliver | tick =>
    cases h
    exact R.frame hg rfl (List.Subset.refl _)
  | crash i => cases hl
  | recon => cases hl
  | pass j a => cases hl
  | crashPass j => cases hl

theorem calm_settledPass {l : Lbl} (h : calm cfg k r s l = true) : settledPass s l = true := by
  cases l with
  | pass j a => cases h
  | _ => rfl

theorem retrying_reachable (hk : k ≠ "")
    (hbody : ∀ l ∈ r.lines, Lookup.leads cfg.catalogService cat l.productId = true)
    (h : (timelyLts cfg cat k r).Reachable s) : Retrying cfg k r s := by
  refine LTS.reachable_induct ?_ ?_ h
  · rintro s rfl
    exact ⟨by simp [start], by simp [start], hbody⟩
  · intro s l s' hr R hst
    have hsettled : (settledLts cfg cat).Reachable s := hr.mono fun _ _ hc => calm_settledPass hc.1
    exact retrying_step hr.unrestrict R hk (statuses_reachable hsettled) hst.2.1 hst.2.2 hst.1

theorem terminal_toOut {o : Order} (h : o.status ≠ .pending) (items : List Orders.OrderItem) :
    terminal (Orders.toOut o items) = true := by
  cases hst : o.status with
  | pending => exact absurd hst h
  | paid => simp [terminal, Orders.toOut, hst, Orders.OrderStatus.value]
  | failed => simp [terminal, Orders.toOut, hst, Orders.OrderStatus.value]

theorem calm_alive (h : (calmLts cfg cat k r).Reachable s) : Alive s := by
  refine LTS.reachable_induct ?_ ?_ h
  · rintro s rfl
    exact ⟨by simp [start], by simp [start, Payment.init]⟩
  · intro s l s' _ hA hst
    refine alive_step hA ?_ hst.1
    have hl := hst.2
    cases l with
    | crash i => cases hl
    | pay l => cases l <;> first | rfl | cases hl
    | _ => rfl

theorem calm_of_works {l : Lbl} (hl : works l = true) (ha : answered s l = true) : calm cfg k r s l = true := by
  cases l with
  | saga i a => exact ha
  | pay l => cases l <;> first | rfl | cases hl
  | _ => cases hl

theorem seeFinished (hk : k ≠ "")
    (hbody : ∀ l ∈ r.lines, Lookup.leads cfg.catalogService cat l.productId = true)
    (h : (timelyLts cfg cat k r).Reachable s) : SeeFinished k s := by
  have R := retrying_reachable hk hbody h
  have K := keys_reachable h.unrestrict
  have hshown : ∀ g ∈ s.sagas, g.key = k → ∀ answer, g.reply = some answer →
      ∃ out, answer = .ok out ∧ ShowsFinished s.db k out := by
    intro g hg hkey answer hrep
    obtain ⟨i, hi⟩ := List.mem_iff_getElem?.mp hg
    exact hkey ▸ (R.call i g hi hkey).answer answer hrep
  constructor
  · intro g hg hkey answer hrep
    obtain ⟨out, rfl, o, -, -, hst, rfl⟩ := hshown g hg hkey answer hrep
    exact ⟨_, rfl, terminal_toOut hst _⟩
  · intro g hg d hd hkey hkey' answer answer' hrep hrep'
    obtain ⟨out, rfl, o, ho, hok, -, rfl⟩ := hshown g hg hkey answer hrep
    obtain ⟨out', rfl, o', ho', hok', -, rfl⟩ := hshown d hd hkey' answer' hrep'
    -- one row has the key
    have hcore := K.keys.eq (Orders.mem_core ho) (Orders.mem_core ho') (hok.trans hok'.symm)
    have hoo : o = o' := (Orders.unique_ids K.ids).eq ho ho' (congrArg Orders.Core.id hcore)
    rw [hoo]

/-- **Every retry sees the finished order**, in every run whose reads are timely
and whose INSERTs fit. A call that has not returned can go on, or another one or payment-service can,
and there is no going on for ever. -/
theorem retries_see_finished (cfg : Config) (cat : Catalog.Products) (k : String) (hk : k ≠ "") (r : Req)
    (hbody : ∀ l ∈ r.lines, Lookup.leads cfg.catalogService cat l.productId = true) {s : Sys}
    (h : (timelyLts cfg cat k r).Reachable s) : SeeFinished k s ∧ Acc (Work cfg) s ∧
      ((∃ g ∈ s.sagas, g.key = k ∧ g.reply = none) →
        ∃ l s', works l = true ∧ calm cfg k r s l = true ∧ step cfg s l = some s') := by
  refine ⟨seeFinished hk hbody h, (work_ends cfg).apply s, ?_⟩
  rintro ⟨g, hg, -, hrep⟩
  obtain ⟨i, hi⟩ := List.mem_iff_getElem?.mp hg
  have hA : Alive s := calm_alive (h.mono fun _ _ hc => hc.1)
  obtain ⟨l, s', hl, ha, hst⟩ := unblocked h.unrestrict hA.sagas hA.calls hi hrep
  exact ⟨l, s', hl, calm_of_works hl ha, hst⟩

/-- The order that the key is looked up for is PENDING. -/
theorem select_early {g g' : Saga} {e : Eff} {o : Order} (hk : g.key ≠ "") (ho : Orders.byKey s.db g.key = some o)
    (hpend : o.status = .pending) (hst : stepSaga cfg s g .select = some (g', e)) :
    g'.key = g.key ∧ g'.reply.any early = true := by
  have hearly : early (.ok (Orders.toOut o (Orders.loadItems s.db o.id))) = true := by
    simp [early, terminal, Orders.toOut, hpend, Orders.OrderStatus.value]
  cases hp : g.phase with
  | lookup =>
    simp only [stepSaga, hp, prelude, hk, if_false, ho] at hst
    cases hst
    exact ⟨rfl, hearly⟩
  | reselect =>
    simp only [stepSaga, hp, prelude, ho] at hst
    cases hst
    exact ⟨rfl, hearly⟩
  | saga oid pc => cases pc <;> simp [stepSaga, hp, saga] at hst
  | _ => simp [stepSaga, hp, prelude] at hst

/-- The cart that is read is empty. -/
theorem resolve_early {g g' : Saga} {e : Eff} {x : Response} (hlines : g.req.lines = [])
    (hcart : s.carts g.req.userId = []) (hx : x.ok = true)
    (hst : stepSaga cfg s g (.resolve x) = some (g', e)) :
    g'.key = g.key ∧ g'.reply.any early = true := by
  cases hp : g.phase with
  | resolve =>
    have hempty : getCartItems (s.carts g.req.userId) x = .ok [] := hcart ▸ getCartItems_ok hx
    simp only [stepSaga, hp, prelude, hlines, ne_eq, not_true_eq_false, if_false, hempty] at hst
    cases hst
    exact ⟨rfl, rfl⟩
  | saga oid pc => cases pc <;> simp [stepSaga, hp, saga] at hst
  | _ => simp [stepSaga, hp, prelude] at hst

/-- An INSERT does not fit. -/
theorem insert_early {g g' : Saga} {a : Act} {e : Eff} (hfits : fitting s g a = false)
    (hst : stepSaga cfg s g a = some (g', e)) : g'.key = g.key ∧ g'.reply.any early = true := by
  unfold fitting at hfits
  split at hfits
  · split at hfits
    · rename_i amount hp
      simp only [stepSaga, hp, prelude, hfits, Bool.not_false, if_true] at hst
      cases hst
      exact ⟨rfl, rfl⟩
    · cases hfits
  · split at hfits
    · rename_i order hp
      simp only [stepSaga, hp, prelude, hfits, Bool.false_eq_true, if_false] at hst
      cases hst
      exact ⟨rfl, rfl⟩
    · cases hfits
  · cases hfits

/-- Nothing less will do: a step whose read is not timely, or whose INSERT does not
fit, ends its call early. -/
theorem untimely_returns_early {l : Lbl} (hk : k ≠ "") (h : (calmLts cfg cat k r).step s l s')
    (ht : timely k s l = false) : returnsEarly k s' = true := by
  obtain ⟨hst, hcalm⟩ := h
  cases l with
  | saga i a =>
    obtain ⟨g, g', e, hg, hstep, rfl⟩ := step_saga_eq hst
    have hmoved : g.key = k ∧ g'.key = g.key ∧ g'.reply.any early = true := by
      cases a with
      | select =>
        simp only [timely, hg, Option.all_some, Bool.or_eq_false_iff, decide_eq_false_iff_not, ne_eq,
          Decidable.not_not] at ht
        obtain ⟨rfl, hrow⟩ := ht
        cases hby : Orders.byKey s.db g.key with
        | none => simp [hby] at hrow
        | some o => exact ⟨rfl, select_early hk hby (by simpa [hby] using hrow) hstep⟩
      | resolve x =>
        simp only [timely, hg, Option.all_some, Bool.or_eq_false_iff, decide_eq_false_iff_not, ne_eq,
          Decidable.not_not] at ht
        obtain ⟨⟨hkey, hlines⟩, hcart⟩ := ht
        exact ⟨hkey, resolve_early hlines hcart hcalm hstep⟩
      | _ =>
        simp only [timely, hg, Option.all_some, Bool.or_eq_false_iff, decide_eq_false_iff_not, ne_eq,
          Decidable.not_not] at ht
        exact ⟨ht.1, insert_early ht.2 hstep⟩
    obtain ⟨hkey, hsame, hearly⟩ := hmoved
    exact List.any_eq_true.mpr ⟨g', List.mem_of_getElem? (Procs.set_self hg), by simp [hsame, hkey, hearly]⟩
  | _ => cases ht

/-- Two calls at once, the second one's INSERT failing once the first is done,
and a third one afterwards. -/
def inTime : List Lbl :=
  [.request penRequest, .request penRequest, .saga 0 .select, .saga 1 .select,
    .saga 0 (.resolve (.status 200 none)), .saga 1 (.resolve (.status 200 none)),
    .saga 1 (.price .answered)] ++ payOne 0 "o1" ++
    [.saga 1 (.flush "o2"), .saga 1 .select, .request penRequest, .saga 2 .select]

theorem retries_see_finished_inTime : ∃ s, (timelyLts {} shop "k1" penRequest).Reachable s ∧
    (s.sagas.length = 3 ∧ ∀ g ∈ s.sagas, g.reply.isSome = true) ∧ SeeFinished "k1" s := by
  have hrun : ∃ s, (timelyLts {} shop "k1" penRequest).Reachable s ∧
      decide (s.sagas.length = 3 ∧ ∀ g ∈ s.sagas, g.reply.isSome = true) = true :=
    LTS.reachable_of_execG inTime rfl (by decide +kernel)
  obtain ⟨s, hr, hs⟩ := hrun
  exact ⟨s, hr, of_decide_eq_true hs,
    (retries_see_finished {} shop "k1" (by decide) penRequest (by decide +kernel) hr).1⟩

end Gestalt.Checkout
