import Mathlib.Algebra.Ring.Int.Defs
import Gestalt.L3Payment.Calls
import Gestalt.L4Checkout.Accounts

/-!
# PAID means charged, once, for the right amount

order-service is payment-service's only caller, and one run per key gets as far
as its one charge call. `Charges` follows that call: every charge there is was
made by the run that owns the order it names, for that order's amount
(`call`), no two share a key (`once`), and a run that goes on to commit PAID has
seen a 200, which says its key is charged (`paying`).

The amount is the other half: prices never change, so `amount_cents`, summed
up line by line before the INSERT, stays the sum of what the lookups of the
order's line items read (`Priced`). A line that is charged has been reserved
(`Shelved`), so it names a product of the catalog, and if the products have
their prices at the URLs of their ids, as the seeded ones do (no endpoint adds
another), its lookup has read that product's price: the amount is the cost of the
line items (`quote_eq_cost`).
-/
namespace Gestalt.Checkout

open Gestalt.Orders (Db Order OrderItem OrderOut Line Core cores linesOf)
open Gestalt.Payment (Charged)

variable {cfg : Config} {cat : Catalog.Products} {s s' : Sys}

/-! ## Amounts -/

/-- What a list of lines costs. -/
def cost (cat : Catalog.Products) (lines : List Line) : Int :=
  (lines.map fun l => Catalog.priceOf cat l.productId * l.quantity).sum

/-- What the price lookups of a list of lines come to. -/
def quote (cfg : Config) (cat : Catalog.Products) (lines : List Line) : Int :=
  (lines.map fun l => unitPrice cfg cat l.productId * l.quantity).sum

theorem quote_snoc (cfg : Config) (cat : Catalog.Products) (ls : List Line) (l : Line) :
    quote cfg cat (ls ++ [l]) = quote cfg cat ls + unitPrice cfg cat l.productId * l.quantity := by
  simp [quote]

theorem quote_congr {t t' : Catalog.Products} (h : ∀ p, Catalog.priceOf t' p = Catalog.priceOf t p)
    (ls : List Line) : quote cfg t' ls = quote cfg t ls := by
  simp only [quote, unitPrice, h]

/-- Each of the lookups finds a product. -/
def Found (cfg : Config) (cat : Catalog.Products) (lines : List Line) : Prop :=
  ∀ l ∈ lines, Catalog.Exists cat (Lookup.named cfg.catalogService l.productId)

/-- Of products with their prices at the URLs of their ids, it is what they cost. -/
theorem quote_eq_cost (ha : Lookup.Addressable cfg.catalogService cat) {ls : List Line}
    (h : ∀ l ∈ ls, Catalog.Exists cat l.productId) : quote cfg cat ls = cost cat ls := by
  unfold quote cost
  refine congrArg List.sum (List.map_congr_left fun l hl => ?_)
  rw [unitPrice, ha.named (h l hl)]

/-- The running sum of the price loop, and the order it becomes. -/
structure PriceOk (cfg : Config) (cat : Catalog.Products) (g : Saga) : Prop where
  sum : ∀ todo amount, g.phase = .price todo amount →
    ∃ read, read ++ todo = g.rawItems ∧ amount = quote cfg cat read ∧ Found cfg cat read
  order : ∀ o, g.phase = .commit o → o.amountCents = quote cfg cat g.rawItems ∧ Found cfg cat g.rawItems

structure Priced (cfg : Config) (cat : Catalog.Products) (s : Sys) : Prop where
  prices : ∀ p, Catalog.priceOf s.cat p = Catalog.priceOf cat p
  known : ∀ p, Catalog.Exists s.cat p ↔ Catalog.Exists cat p
  saga : ∀ (i : Nat) (g : Saga), s.sagas[i]? = some g → PriceOk cfg cat g
  row : ∀ c ∈ cores s.db, c.amountCents = quote cfg cat (linesOf s.db c.id)

@[simp] theorem priceOf_onCat (e : Eff) (t : Catalog.Products) (p : String) :
    Catalog.priceOf (e.onCat t) p = Catalog.priceOf t p := by
  cases e <;> simp only [Eff.onCat] <;> split <;> simp

theorem PriceOk.plain {g : Saga} (h1 : ∀ todo amount, g.phase ≠ .price todo amount)
    (h2 : ∀ o, g.phase ≠ .commit o) : PriceOk cfg cat g where
  sum todo amount hp := absurd hp (h1 todo amount)
  order o hp := absurd hp (h2 o)

theorem PriceOk.prelude {g g' : Saga} {a : Act} {e : Eff} (P : Priced cfg cat s) (hg : PriceOk cfg cat g)
    (h : PreludeMoves cfg s g a g' e) : PriceOk cfg cat g' := by
  cases h with
  | answered a answer => exact .plain (by simp) (by simp)
  | missed => exact .plain (by simp) (by simp)
  | conflict => exact .plain (by simp) (by simp)
  | committed => exact .plain (by simp) (by simp)
  | resolved r lines =>
    refine ⟨?_, fun o hp => by cases hp⟩
    intro todo amount hp
    cases hp
    exact ⟨[], rfl, rfl, fun l hl => by cases hl⟩
  | priced l todo amount d hp hfound =>
    refine ⟨?_, fun o hp => by cases hp⟩
    intro todo' amount' hp'
    cases hp'
    obtain ⟨read, hsplit, hsum, hread⟩ := hg.sum _ _ hp
    have hunit : unitPrice cfg s.cat l.productId = unitPrice cfg cat l.productId := P.prices _
    refine ⟨read ++ [l], ?_, ?_, ?_⟩
    · rw [List.append_assoc]
      exact hsplit
    · rw [quote_snoc, hsum, hunit]
    · intro x hx
      rcases List.mem_append.mp hx with hx | hx
      · exact hread x hx
      · rw [List.mem_singleton.mp hx]
        exact (P.known _).mp hfound
  | flushed amount order hp ho =>
    refine ⟨by simp, ?_⟩
    intro o hp'
    cases hp'
    obtain ⟨read, hsplit, hsum, hread⟩ := hg.sum _ _ hp
    rw [List.append_nil] at hsplit
    subst hsplit
    exact ⟨(congrArg Order.amountCents ho).trans hsum, hread⟩

theorem priced_step {l : Lbl} (K : Keys s.db s.sagas) (P : Priced cfg cat s) (h : step cfg s l = some s') :
    Priced cfg cat s' := by
  -- a step that inserts no order
  have hrow : ∀ db : Db, cores db = cores s.db → db.items = s.db.items →
      ∀ c ∈ cores db, c.amountCents = quote cfg cat (linesOf db c.id) := by
    intro db hc hi c hmem
    rw [hc] at hmem
    rw [Orders.linesOf_congr hi]
    exact P.row c hmem
  have hset : ∀ {i : Nat} {g g' : Saga}, s.sagas[i]? = some g → PriceOk cfg cat g' →
      ∀ (j : Nat) (h : Saga), (s.sagas.set i g')[j]? = some h → PriceOk cfg cat h := by
    intro i g g' hg hok j h hj
    rcases Procs.set_cases hg hj with ⟨-, rfl⟩ | ⟨-, hj⟩
    · exact hok
    · exact P.saga j h hj
  cases step_shape h with
  | spawn r =>
    refine ⟨P.prices, P.known, ?_, P.row⟩
    intro j h hj
    rcases Procs.spawn_cases hj with hj | ⟨-, rfl⟩
    · exact P.saga j h hj
    · exact .plain (by simp) (by simp)
  | run i a s' hrun =>
    cases hrun with
    | prelude g g' e hg hal hne hm =>
      refine ⟨fun p => ?_, fun p => ?_, hset hg ((P.saga i g hg).prelude P hm), ?_⟩
      · simp only [apply_cat, priceOf_onCat]; exact P.prices p
      · simp only [apply_cat, exists_onCat]; exact P.known p
      · simp only [apply_db]
        cases hm with
        | committed order hp =>
          obtain ⟨-, -, -, hnew⟩ := (K.saga i g hg).lock order hp hal
          intro c hc
          simp only [Eff.onDb, Orders.cores_insert, List.mem_append, List.mem_singleton] at hc
          simp only [Eff.onDb, Orders.linesOf_insert]
          rcases hc with hc | rfl
          · rw [if_neg (Ne.symm (hnew c hc).1), List.append_nil]
            exact P.row c hc
          · have hnil := K.no_lines fun c hc => (hnew c hc).1
            rw [show order.core.id = order.id from rfl, if_pos rfl, hnil, List.nil_append]
            exact ((P.saga i g hg).order order hp).1
        | _ => exact P.row
    | saga g oid pc pc' e hg hal hp hm =>
      obtain ⟨hc, hi⟩ := cores_onDb hm.inserts s.now s.db
      refine ⟨fun p => ?_, fun p => ?_, hset hg (.plain (by simp) (by simp)), ?_⟩
      · simp only [apply_cat, priceOf_onCat]; exact P.prices p
      · simp only [apply_cat, exists_onCat]; exact P.known p
      · simp only [apply_db]; exact hrow _ hc hi
  | crash i g hg =>
    exact ⟨P.prices, P.known, hset hg ⟨(P.saga i g hg).sum, (P.saga i g hg).order⟩, P.row⟩
  | pay l p hl hp => exact ⟨P.prices, P.known, P.saga, P.row⟩
  | other l c e s' hb _ =>
    obtain ⟨hc, hi⟩ := hb.frame
    refine ⟨fun p => ?_, fun p => ?_, ?_, hrow _ hc hi⟩
    · rw [hb.cat, priceOf_onCat]; exact P.prices p
    · rw [hb.cat, exists_onCat]; exact P.known p
    · rw [hb.sagas]; exact P.saga

theorem priced_run {ls : List Lbl} (hr : (lts cfg cat).Run (start cat) ls s) : Priced cfg cat s := by
  have h0 : Priced cfg cat (start cat) := by
    refine ⟨fun p => rfl, fun p => Iff.rfl, ?_, ?_⟩
    · intro i g hg; simp [start] at hg
    · intro c hc; cases hc
  refine (hr.keeps (P := fun s => Keys s.db s.sagas ∧ Priced cfg cat s) ?_ ⟨keys_init, h0⟩).2
  rintro s l s' hst ⟨K, P⟩
  exact ⟨keys_step K hst, priced_step K P hst⟩

theorem priced_reachable (h : (lts cfg cat).Reachable s) : Priced cfg cat s := by
  obtain ⟨s₀, ls, rfl, hr⟩ := h
  exact priced_run hr

/-! ## The one charge call of an order -/

/-- Has not called payment-service, but may. -/
def Pc.uncharged : Pc → Bool
  | .created => true
  | .reserve _ _ => true
  | .charge => true
  | _ => false

/-- Was told that the charge succeeded. -/
def Pc.paying : Pc → Bool
  | .pay => true
  | .ended true _ => true
  | _ => false

structure Charges (s : Sys) : Prop where
  call : ∀ c ∈ s.pay.calls, ∀ body, c.req = .charge body → ∃ row ∈ cores s.db,
    row.id = body.orderId ∧ row.idempotencyKey = body.idempotencyKey ∧ row.amountCents = body.amount ∧
    ∃ (i : Nat) (g : Saga) (pc : Pc), s.sagas[i]? = some g ∧ g.phase = .saga row.id pc ∧
      pc.uncharged = false
  once : ∀ (j j' : Nat) (c c' : Payment.Call) (body body' : Payment.ChargeRequest),
    s.pay.calls[j]? = some c → s.pay.calls[j']? = some c' → c.req = .charge body →
    c'.req = .charge body' → body.idempotencyKey = body'.idempotencyKey → j = j'
  await : ∀ (i : Nat) (g : Saga) (oid : String) (j : Nat), s.sagas[i]? = some g →
    g.phase = .saga oid (.await j) →
    ∃ c body, s.pay.calls[j]? = some c ∧ c.req = .charge body ∧ body.idempotencyKey = g.key
  paying : ∀ (i : Nat) (g : Saga) (oid : String) (pc : Pc), s.sagas[i]? = some g →
    g.phase = .saga oid pc → pc.paying = true → Charged s.pay g.key
  paid : ∀ o ∈ s.db.orders, o.status = .paid → Charged s.pay o.idempotencyKey

theorem SagaMoves.uncharged {g : Saga} {oid : String} {pc pc' : Pc} {a : Act} {e : Eff}
    (h : SagaMoves s g oid pc a pc' e) (hpc : pc.uncharged = false) : pc'.uncharged = false := by
  cases h <;> first | rfl | cases hpc

/-- The key of a run that has not charged yet is in no charge call. -/
theorem Charges.fresh (K : Keys s.db s.sagas) (C : Charges s) {i : Nat} {g : Saga} {oid : String}
    {pc : Pc} (hg : s.sagas[i]? = some g) (hp : g.phase = .saga oid pc) (hpc : pc.uncharged = true) :
    ∀ c ∈ s.pay.calls, ∀ body, c.req = .charge body → body.idempotencyKey ≠ g.key := by
  intro c hc body hreq hk
  obtain ⟨row, hrow, hid, hrk, -, j, h, pc', hj, hp', hpc'⟩ := C.call c hc body hreq
  have hkey : h.key = g.key := (K.key hj hp' hrow rfl).symm.trans (hrk.trans hk)
  obtain ⟨-, -, he⟩ := K.run_eq_of_key hj hg hp' hp hkey
  rw [he, hpc] at hpc'
  cases hpc'

/-- Only the charge itself reaches payment-service; then the run waits. -/
theorem SagaMoves.onPay {g : Saga} {oid : String} {pc pc' : Pc} {a : Act} {e : Eff}
    (h : SagaMoves s g oid pc a pc' e) : (e.onPay s.pay = s.pay ∧ ∀ j, pc' ≠ .await j) ∨
      ∃ order, ∃ hpos : 0 < order.amountCents, Orders.find s.db oid = some order ∧ pc = .charge ∧
        pc' = .await s.pay.calls.length ∧ e.onPay s.pay =
          s.pay.arrive (.charge ⟨order.id, order.amountCents, "INR", order.idempotencyKey, hpos⟩) := by
  cases h with
  | sent order ho hpos => exact .inr ⟨order, hpos, ho, rfl, rfl, by simp [Eff.onPay, arriveCharge, hpos]⟩
  | unsent order f reason ho hno =>
    refine .inl ⟨?_, by simp⟩
    simp only [Eff.onPay]
    split
    · rename_i hf
      have hpos : ¬ 0 < order.amountCents := hno.resolve_left (fun h => h hf)
      simp [arriveCharge, hpos]
    · rfl
  | _ => exact .inl ⟨rfl, by simp⟩

/-- A charge call stays a charge call of an order, as a run moves on. -/
theorem Charges.keepCall (C : Charges s) {i : Nat} {g g' : Saga} (hg : s.sagas[i]? = some g)
    (hkeep : ∀ oid pc, g.phase = .saga oid pc → pc.uncharged = false →
      ∃ pc', g'.phase = .saga oid pc' ∧ pc'.uncharged = false)
    {rows : List Core} (hrows : ∀ c ∈ cores s.db, c ∈ rows) :
    ∀ c ∈ s.pay.calls, ∀ body, c.req = .charge body → ∃ row ∈ rows,
      row.id = body.orderId ∧ row.idempotencyKey = body.idempotencyKey ∧ row.amountCents = body.amount ∧
      ∃ (j : Nat) (h : Saga) (pc : Pc), (s.sagas.set i g')[j]? = some h ∧ h.phase = .saga row.id pc ∧
        pc.uncharged = false := by
  intro c hc body hreq
  obtain ⟨row, hrow, h1, h2, h3, j, h, pc, hj, hp, hpc⟩ := C.call c hc body hreq
  refine ⟨row, hrows row hrow, h1, h2, h3, ?_⟩
  by_cases he : j = i
  · subst he
    rw [hg, Option.some.injEq] at hj; subst hj
    obtain ⟨pc', hp', hpc'⟩ := hkeep _ pc hp hpc
    exact ⟨j, g', pc', Procs.set_self hg, hp', hpc'⟩
  · exact ⟨j, h, pc, by rw [List.getElem?_set_ne (Ne.symm he)]; exact hj, hp, hpc⟩

theorem charges_prelude {i : Nat} {g g' : Saga} {a : Act} {e : Eff} (K : Keys s.db s.sagas)
    (C : Charges s) (hg : s.sagas[i]? = some g) (hal : g.alive = true)
    (hne : ∀ oid pc, g.phase ≠ .saga oid pc) (hm : PreludeMoves cfg s g a g' e) :
    Charges { s.apply (.saga i) e with sagas := s.sagas.set i g' } := by
  have hpay : (s.apply (.saga i) e).pay = s.pay := by
    rw [apply_pay]; cases hm <;> rfl
  -- past its commit the run stands at `created`
  have hpc : ∀ oid pc, g'.phase = .saga oid pc → pc = .created := by
    intro oid pc hp
    cases hm <;> cases hp
    rfl
  have hsagas : ∀ (j : Nat) (h : Saga) (oid : String) (pc : Pc), (s.sagas.set i g')[j]? = some h →
      h.phase = .saga oid pc → pc = .created ∨ s.sagas[j]? = some h := by
    intro j h oid pc hj hp
    rcases Procs.set_cases hg hj with ⟨-, rfl⟩ | ⟨-, hj⟩
    · exact .inl (hpc oid pc hp)
    · exact .inr hj
  refine ⟨?_, ?_, ?_, ?_, ?_⟩
  · simp only [hpay]
    refine C.keepCall hg (fun oid pc hp => absurd hp (hne oid pc)) ?_
    intro c hc
    simp only [apply_db]
    cases hm with
    | committed order hp =>
      simp only [Eff.onDb, Orders.cores_insert]; exact List.mem_append_left _ hc
    | _ => exact hc
  · simp only [hpay]; exact C.once
  · simp only [hpay]
    intro j h oid k hj hp
    rcases hsagas j h oid _ hj hp with hcr | hj
    · cases hcr
    · exact C.await j h oid k hj hp
  · simp only [hpay]
    intro j h oid pc hj hp hpaying
    rcases hsagas j h oid _ hj hp with hcr | hj
    · rw [hcr] at hpaying; cases hpaying
    · exact C.paying j h oid pc hj hp hpaying
  · simp only [hpay, apply_db]
    intro o ho hst
    cases hm with
    | committed order hp =>
      obtain ⟨-, -, ⟨hpend, -⟩, -⟩ := (K.saga i g hg).lock order hp hal
      rcases List.mem_append.mp ho with ho | ho
      · exact C.paid o ho hst
      · rw [List.mem_singleton.mp ho, hpend] at hst; cases hst
    | _ => exact C.paid o ho hst

theorem SagaMoves.charged {g : Saga} {oid : String} {pc pc' : Pc} {a : Act} {e : Eff} {k : String}
    (h : SagaMoves s g oid pc a pc' e) (hk : Charged s.pay k) : Charged (e.onPay s.pay) k := by
  rcases h.onPay with ⟨he, -⟩ | ⟨order, hpos, -, -, -, he⟩ <;> rw [he] <;> exact hk

/-- Only the commit of PAID writes PAID. -/
theorem Charges.paid_moves {i : Nat} {g : Saga} {oid : String} {pc pc' : Pc} {a : Act} {e : Eff}
    (K : Keys s.db s.sagas) (C : Charges s) (hg : s.sagas[i]? = some g) (hp : g.phase = .saga oid pc)
    (hm : SagaMoves s g oid pc a pc' e) :
    ∀ o ∈ (e.onDb s.now s.db).orders, o.status = .paid → Charged (e.onPay s.pay) o.idempotencyKey := by
  intro o' ho' hst
  obtain ⟨o, ho, hco, hst'⟩ := onDb_status hm.inserts ho'
  have hk : o'.idempotencyKey = o.idempotencyKey := congrArg Core.idempotencyKey hco
  rw [hk]
  rcases hst' with hst' | ⟨w, he, hw⟩
  · exact hm.charged (C.paid o ho (hst'.symm.trans hst))
  · have hpc : pc = .pay ∧ o.id = oid := by
      rw [hst] at hw
      cases hm <;> cases he <;> first | exact ⟨rfl, rfl⟩ | cases hw
    have hok : o.idempotencyKey = g.key := K.key hg hp (Orders.mem_core ho) hpc.2
    rw [hok]
    exact hm.charged (C.paying i g oid pc hg hp (by rw [hpc.1]; rfl))

/-- A run is told of a charge by payment-service's answer, and later stays told. -/
theorem Charges.paying_moves {i : Nat} {g : Saga} {oid : String} {pc pc' : Pc} {a : Act} {e : Eff}
    (J : Payment.Inv cfg.payment s.pay) (C : Charges s) (hg : s.sagas[i]? = some g)
    (hp : g.phase = .saga oid pc) (hm : SagaMoves s g oid pc a pc' e) (hpaying : pc'.paying = true) :
    Charged (e.onPay s.pay) g.key := by
  by_cases hwas : pc.paying = true
  · exact hm.charged (C.paying i g oid pc hg hp hwas)
  · cases hm with
    | settled k call answer hcall hdone hok =>
      obtain ⟨c, body, hc, hreq, hbk⟩ := C.await i g oid k hg hp
      rw [hcall, Option.some.injEq] at hc; subst hc
      have hck : call.key = g.key := by simp [Payment.Call.key, Payment.Req.key, hreq, hbk]
      exact hck ▸ Payment.answer_charged J hcall hdone hok
    | paid => exact absurd rfl hwas
    | loaded b => cases b <;> first | exact absurd rfl hwas | cases hpaying
    | announced b => cases b <;> first | exact absurd rfl hwas | cases hpaying
    | cleared b => cases b <;> first | exact absurd rfl hwas | cases hpaying
    | _ => cases hpaying

/-- A key's first charge call is its only one. -/
theorem Charges.arrive_once (C : Charges s) {body : Payment.ChargeRequest}
    (hfresh : ∀ c ∈ s.pay.calls, ∀ b, c.req = .charge b → b.idempotencyKey ≠ body.idempotencyKey) :
    ∀ (j j' : Nat) (c c' : Payment.Call) (b b' : Payment.ChargeRequest),
      (s.pay.arrive (.charge body)).calls[j]? = some c → (s.pay.arrive (.charge body)).calls[j']? = some c' →
      c.req = .charge b → c'.req = .charge b' → b.idempotencyKey = b'.idempotencyKey → j = j' := by
  intro j j' c c' b b' hj hj' hreq hreq' hk
  rcases Procs.spawn_cases hj with hj0 | ⟨rfl, rfl⟩
  · rcases Procs.spawn_cases hj' with hj0' | ⟨rfl, rfl⟩
    · exact C.once j j' c c' b b' hj0 hj0' hreq hreq' hk
    · cases hreq'
      exact absurd hk (hfresh c (List.mem_of_getElem? hj0) b hreq)
  · rcases Procs.spawn_cases hj' with hj0' | ⟨rfl, rfl⟩
    · cases hreq
      exact absurd hk.symm (hfresh c' (List.mem_of_getElem? hj0') b' hreq')
    · rfl

theorem charges_saga {i : Nat} {g : Saga} {oid : String} {pc pc' : Pc} {a : Act} {e : Eff}
    (K : Keys s.db s.sagas) (J : Payment.Inv cfg.payment s.pay) (C : Charges s)
    (hg : s.sagas[i]? = some g) (hp : g.phase = .saga oid pc) (hm : SagaMoves s g oid pc a pc' e) :
    Charges { s.apply (.saga i) e with sagas := s.sagas.set i { g with phase := .saga oid pc' } } := by
  obtain ⟨hcores, -⟩ := cores_onDb hm.inserts s.now s.db
  have hkeep : ∀ oid' pc0, g.phase = .saga oid' pc0 → pc0.uncharged = false →
      ∃ pc1, ({ g with phase := .saga oid pc' } : Saga).phase = .saga oid' pc1 ∧
        pc1.uncharged = false := by
    intro oid' pc0 hp0 hpc0
    rw [hp] at hp0; cases hp0
    exact ⟨pc', rfl, hm.uncharged hpc0⟩
  have hrows : ∀ c ∈ cores s.db, c ∈ cores (e.onDb s.now s.db) := by
    intro c hc; rw [hcores]; exact hc
  have hpaid := C.paid_moves K hg hp hm
  have hpaying : ∀ (j : Nat) (h : Saga) (oid' : String) (pc0 : Pc),
      (s.sagas.set i { g with phase := .saga oid pc' })[j]? = some h → h.phase = .saga oid' pc0 →
      pc0.paying = true → Charged (e.onPay s.pay) h.key := by
    intro j h oid' pc0 hj hp0 hpc0
    rcases Procs.set_cases hg hj with ⟨rfl, rfl⟩ | ⟨-, hj⟩
    · cases hp0
      have hkey : Charged (e.onPay s.pay) g.key := C.paying_moves J hg hp hm hpc0
      exact hkey
    · exact hm.charged (C.paying j h oid' pc0 hj hp0 hpc0)
  rcases hm.onPay with ⟨he, hnot⟩ | ⟨order, hpos, hfind, hpc, hpc', he⟩
  · refine ⟨?_, ?_, ?_, by simpa only [apply_pay] using hpaying, by simpa only [apply_pay, apply_db] using hpaid⟩
    · simp only [apply_pay, apply_db, he]; exact C.keepCall hg hkeep hrows
    · simp only [apply_pay, he]; exact C.once
    · simp only [apply_pay, he]
      intro j h oid' k hj hp0
      rcases Procs.set_cases hg hj with ⟨rfl, rfl⟩ | ⟨-, hj⟩
      · cases hp0; exact absurd rfl (hnot k)
      · exact C.await j h oid' k hj hp0
  · -- the charge: the first call with this key
    obtain ⟨hom, hoid⟩ := Orders.core_mem hfind
    have hok : order.idempotencyKey = g.key := K.key hg hp hom hoid
    have hfresh := C.fresh K hg hp (by rw [hpc]; rfl)
    refine ⟨?_, ?_, ?_, by simpa only [apply_pay] using hpaying, by simpa only [apply_pay, apply_db] using hpaid⟩
    · simp only [apply_pay, apply_db, he]
      intro c hc body hreq
      rcases List.mem_append.mp hc with hc | hc
      · exact C.keepCall hg hkeep hrows c hc body hreq
      · rw [List.mem_singleton.mp hc] at hreq
        cases hreq
        refine ⟨order.core, hrows _ hom, rfl, rfl, rfl, i, _, pc', Procs.set_self hg, ?_,
          by rw [hpc']; rfl⟩
        rw [hoid]
    · simp only [apply_pay, he]
      exact C.arrive_once fun c hc b hreq => hok ▸ hfresh c hc b hreq
    · simp only [apply_pay, he]
      intro j h oid' k hj hp0
      rcases Procs.set_cases hg hj with ⟨rfl, rfl⟩ | ⟨-, hj⟩
      · rw [hpc'] at hp0
        cases hp0
        exact ⟨_, _, Procs.spawn_new, rfl, hok⟩
      · obtain ⟨c, body, hc, hrest⟩ := C.await j h oid' k hj hp0
        exact ⟨c, body, Procs.spawn_old hc, hrest⟩

theorem charges_pay {l : Payment.Lbl} {p : Payment.St} (C : Charges s) (hl : ofPayment l = true)
    (h : Payment.step cfg.payment s.pay l = some p) : Charges { s with pay := p } := by
  -- a charge call among the service's calls is one of the old ones
  have hback : ∀ (j : Nat) (c : Payment.Call) (body : Payment.ChargeRequest), p.calls[j]? = some c →
      c.req = .charge body → ∃ c0, s.pay.calls[j]? = some c0 ∧ c0.req = .charge body := by
    intro j c body hj hreq
    rcases Payment.step_call h hj with ⟨r, rfl, rfl, -⟩ | ⟨c0, h0, hr, -⟩
    · have hreq : r = .charge body := hreq
      subst hreq; cases hl
    · exact ⟨c0, h0, hr ▸ hreq⟩
  refine ⟨?_, ?_, ?_, ?_, ?_⟩
  · intro c hc body hreq
    obtain ⟨j, hj⟩ := List.mem_iff_getElem?.mp hc
    obtain ⟨c0, h0, hr0⟩ := hback j c body hj hreq
    exact C.call c0 (List.mem_of_getElem? h0) body hr0
  · intro j j' c c' body body' hj hj' hreq hreq' hk
    obtain ⟨c0, h0, hr0⟩ := hback j c body hj hreq
    obtain ⟨c1, h1, hr1⟩ := hback j' c' body' hj' hreq'
    exact C.once j j' c0 c1 body body' h0 h1 hr0 hr1 hk
  · intro i g oid j hg hp
    obtain ⟨c, body, hc, hreq, hk⟩ := C.await i g oid j hg hp
    obtain ⟨c', hc', hr'⟩ := Payment.step_call_old h hc
    exact ⟨c', body, hc', hr'.trans hreq, hk⟩
  · intro i g oid pc hg hp hpc
    exact (C.paying i g oid pc hg hp hpc).step h
  · intro o ho hst
    exact (C.paid o ho hst).step h

theorem charges_step {l : Lbl} (K : Keys s.db s.sagas) (J : Payment.Inv cfg.payment s.pay)
    (C : Charges s) (h : step cfg s l = some s') : Charges s' := by
  cases step_shape h with
  | spawn r =>
    have fresh : ∀ (i : Nat) (g : Saga) (oid : String) (pc : Pc),
        (s.sagas ++ [{ req := r }])[i]? = some g → g.phase = .saga oid pc → s.sagas[i]? = some g := by
      intro i g oid pc hg hp
      rcases Procs.spawn_cases hg with hg | ⟨-, rfl⟩
      · exact hg
      · cases hp
    refine ⟨?_, C.once, ?_, ?_, C.paid⟩
    · intro c hc body hreq
      obtain ⟨row, hrow, h1, h2, h3, i, g, pc, hg, hrest⟩ := C.call c hc body hreq
      exact ⟨row, hrow, h1, h2, h3, i, g, pc, Procs.spawn_old hg, hrest⟩
    · intro i g oid j hg hp
      exact C.await i g oid j (fresh i g oid _ hg hp) hp
    · intro i g oid pc hg hp
      exact C.paying i g oid pc (fresh i g oid pc hg hp) hp
  | run i a s' hrun =>
    cases hrun with
    | prelude g g' e hg hal hne hm => exact charges_prelude K C hg hal hne hm
    | saga g oid pc pc' e hg hal hp hm => exact charges_saga K J C hg hp hm
  | crash i g hg =>
    have back : ∀ (j : Nat) (h : Saga), (s.sagas.set i { g with alive := false })[j]? = some h →
        ∃ h0, s.sagas[j]? = some h0 ∧ h0.phase = h.phase ∧ h0.key = h.key := by
      intro j h hj
      rcases Procs.set_cases hg hj with ⟨rfl, rfl⟩ | ⟨-, hj⟩
      · exact ⟨g, hg, rfl, rfl⟩
      · exact ⟨h, hj, rfl, rfl⟩
    refine ⟨?_, C.once, ?_, ?_, C.paid⟩
    · have hkeep : ∀ oid pc, g.phase = .saga oid pc → pc.uncharged = false →
          ∃ pc', ({ g with alive := false } : Saga).phase = .saga oid pc' ∧ pc'.uncharged = false :=
        fun oid pc hp hpc => ⟨pc, hp, hpc⟩
      exact C.keepCall hg hkeep fun c hc => hc
    · intro j h oid k hj hp
      obtain ⟨h0, hj0, hp0, hk0⟩ := back j h hj
      rw [← hk0]; exact C.await j h0 oid k hj0 (hp0.trans hp)
    · intro j h oid pc hj hp hpc
      obtain ⟨h0, hj0, hp0, hk0⟩ := back j h hj
      rw [← hk0]; exact C.paying j h0 oid pc hj0 (hp0.trans hp) hpc
  | pay l p hl hp => exact charges_pay C hl hp
  | other l c e s' hb _ =>
    obtain ⟨hc, -⟩ := hb.frame
    refine ⟨?_, ?_, ?_, ?_, ?_⟩
    · rw [hb.pay, hb.sagas, hc]; exact C.call
    · rw [hb.pay]; exact C.once
    · rw [hb.pay, hb.sagas]; exact C.await
    · rw [hb.pay, hb.sagas]; exact C.paying
    · -- a background pass never writes PAID
      rw [hb.pay, hb.db]
      intro o' ho' hst
      obtain ⟨o, ho, hco, hst'⟩ := onDb_status hb.inserts ho'
      have hk : o'.idempotencyKey = o.idempotencyKey := congrArg Core.idempotencyKey hco
      rw [hk]
      rcases hst' with hst' | ⟨w, rfl, hw⟩
      · exact C.paid o ho (hst'.symm.trans hst)
      · have he := hb.eff
        simp only [Eff.background, decide_eq_true_eq] at he
        rw [hst] at hw
        exact absurd hw he.1

theorem payment_inv_step {l : Lbl} (J : Payment.Inv cfg.payment s.pay) (h : step cfg s l = some s') :
    Payment.Inv cfg.payment s'.pay := by
  have harrive : ∀ r, Payment.Inv cfg.payment (s.pay.arrive r) := fun r =>
    Payment.inv_step (l := .arrive r) J rfl
  cases step_shape h with
  | run i a s' hrun =>
    cases hrun with
    | prelude g g' e hg hal hne hm =>
      simp only [apply_pay]
      cases hm <;> exact J
    | saga g oid pc pc' e hg hal hp hm =>
      simp only [apply_pay]
      rcases hm.onPay with ⟨he, -⟩ | ⟨order, hpos, -, -, -, he⟩
      · rw [he]; exact J
      · rw [he]; exact harrive _
  | pay l p hl hp => exact Payment.inv_step J hp
  | other l c e s' hb _ => rw [hb.pay]; exact J
  | _ => exact J

theorem payment_inductive : (lts cfg cat).Inductive fun s => Payment.Inv cfg.payment s.pay where
  init := by intro s hs; subst hs; exact Payment.inv_init cfg.payment
  step _ _ _ J hst := payment_inv_step J hst

theorem payment_inv_reachable (h : (lts cfg cat).Reachable s) : Payment.Inv cfg.payment s.pay :=
  payment_inductive.reachable s h

theorem charges_reachable (h : (lts cfg cat).Reachable s) : Charges s := by
  have h0 : Charges (start cat) := by
    constructor <;> simp [start, Payment.init]
  refine LTS.reachable_induct (fun s hs => hs ▸ h0) ?_ h
  intro s l s' hr C hst
  exact charges_step (keys_reachable hr) (payment_inv_reachable hr) C hst

/-! ## What is charged is in the catalog -/

/-- The catalog keeps its products. -/
theorem exists_step {l : Lbl} (h : step cfg s l = some s') (p : String) :
    Catalog.Exists s'.cat p ↔ Catalog.Exists s.cat p := by
  obtain ⟨-, e, -, hcat, -⟩ := step_effect h
  rw [hcat, exists_onCat]

/-- The lines of an order that payment-service is asked to charge. -/
def Shelved (s : Sys) : Prop := ∀ c ∈ s.pay.calls, ∀ body, c.req = .charge body →
  ∀ l ∈ linesOf s.db body.orderId, Catalog.Exists s.cat l.productId

/-- **Step lemma.** A run has reserved every line when it sends the charge. -/
theorem shelved_step {l : Lbl} (K : Keys s.db s.sagas) (A : Accounts s) (C : Charges s) (I : Shelved s)
    (h : step cfg s l = some s') : Shelved s' := by
  -- an order that is charged already
  have hold : ∀ c ∈ s.pay.calls, ∀ body, c.req = .charge body →
      ∀ x ∈ linesOf s'.db body.orderId, Catalog.Exists s'.cat x.productId := by
    intro c hc body hreq x hx
    obtain ⟨row, hrow, hid, -⟩ := C.call c hc body hreq
    rw [← hid, lines_step K h row hrow, hid] at hx
    exact (exists_step h _).mpr (I c hc body hreq x hx)
  have hsame : s'.pay = s.pay → Shelved s' := fun hp c hc => hold c (hp ▸ hc)
  cases step_shape h with
  | spawn r => exact hsame rfl
  | crash i g hg => exact hsame rfl
  | other l c e s' hb _ => exact hsame hb.pay
  | pay l p hl hp =>
    intro c hc body hreq
    obtain ⟨j, hj⟩ := List.mem_iff_getElem?.mp hc
    rcases Payment.step_call hp hj with ⟨r, rfl, rfl, -⟩ | ⟨c₀, h₀, hr, -⟩
    · obtain rfl : r = .charge body := hreq
      cases hl
    · exact hold c₀ (List.mem_of_getElem? h₀) body (hr ▸ hreq)
  | run i a s' hrun =>
    cases hrun with
    | prelude g g' e hg hal hne hm =>
      refine hsame ((apply_pay s (.saga i) e).trans ?_)
      cases hm <;> rfl
    | saga g oid pc pc' e hg hal hp hm =>
      rcases hm.onPay with ⟨he, -⟩ | ⟨order, hpos, hfind, rfl, -, he⟩
      · exact hsame ((apply_pay s (.saga i) e).trans he)
      · intro c hc body hreq
        simp only [apply_pay, he] at hc
        rcases List.mem_append.mp hc with hc | hc
        · exact hold c hc body hreq
        · -- the charge of this run, which holds all its lines
          obtain rfl := List.mem_singleton.mp hc
          cases hreq
          obtain ⟨row, hrow, hid, -, -, hlines, -⟩ := (K.saga i g hg).own oid .charge hp
          obtain ⟨-, hoid⟩ := Orders.find_some hfind
          intro x hx
          simp only [hoid] at hx
          rw [← hid, lines_step K h row hrow, hid, hlines] at hx
          exact (exists_step h _).mpr ((A i g oid .charge hg hp).known x hx).2

theorem shelved_reachable (h : (lts cfg cat).Reachable s) : Shelved s := by
  refine LTS.reachable_induct ?_ ?_ h
  · rintro s rfl c hc
    simp [start, Payment.init] at hc
  · intro s l s' hr I hst
    exact shelved_step (keys_reachable hr) (accounts_reachable hr) (charges_reachable hr) I hst

/-! ## PAID means charged -/

/-- Two executions of `_process_charge` under one key are the same one. -/
theorem exec_unique (J : Payment.Inv cfg.payment s.pay) (C : Charges s) {e e' : Payment.Exec}
    (he : e ∈ s.pay.execs) (he' : e' ∈ s.pay.execs)
    (hk : e.body.idempotencyKey = e'.body.idempotencyKey) : e = e' := by
  obtain ⟨c, hc, -, hreq, -⟩ := J.exec e he
  obtain ⟨c', hc', -, hreq', -⟩ := J.exec e' he'
  exact J.exec_one he he' (C.once _ _ c c' e.body e'.body hc hc' hreq hreq' hk)

/-- An execution is for the order stored under its key, and for its amount. -/
theorem exec_order (h : (lts cfg cat).Reachable s) {e : Payment.Exec} (he : e ∈ s.pay.execs) {o : Order}
    (ho : o ∈ s.db.orders) (hk : e.body.idempotencyKey = o.idempotencyKey) :
    e.body.orderId = o.id ∧ e.body.amount = o.amountCents ∧
      ∀ l ∈ linesOf s.db o.id, Catalog.Exists s.cat l.productId := by
  obtain ⟨c, hc, -, hreq, -⟩ := (payment_inv_reachable h).exec e he
  have hmem := List.mem_of_getElem? hc
  obtain ⟨row, hrow, hid, hkey, hamount, -⟩ := (charges_reachable h).call c hmem e.body hreq
  obtain rfl : row = o.core := (keys_reachable h).keys.eq hrow (Orders.mem_core ho) (hkey.trans hk)
  have hid : o.id = e.body.orderId := hid
  exact ⟨hid.symm, hamount.symm, fun l hl => shelved_reachable h c hmem e.body hreq l (hid ▸ hl)⟩

/-- The amount of an order is what the lookups of its line items come to. -/
theorem amount_quote (h : (lts cfg cat).Reachable s) {o : Order} (ho : o ∈ s.db.orders) :
    o.amountCents = quote cfg s.cat (linesOf s.db o.id) := by
  have P := priced_reachable h
  rw [quote_congr P.prices]
  exact P.row o.core (Orders.mem_core ho)

theorem addressable_reachable (h : (lts cfg cat).Reachable s) (ha : Lookup.Addressable cfg.catalogService cat) :
    Lookup.Addressable cfg.catalogService s.cat := by
  intro r hr
  have hex : Catalog.Exists s.cat r.id := Option.isSome_iff_exists.mpr (Table.get_isSome hr)
  exact ha.endpoint (((priced_reachable h).known r.id).mp hex)

/-- It is the cost of the products that they name, if the ids lead to these. -/
theorem amount_cost (h : (lts cfg cat).Reachable s) (ha : Lookup.Addressable cfg.catalogService cat) {o : Order}
    (ho : o ∈ s.db.orders) (hlines : ∀ l ∈ linesOf s.db o.id, Catalog.Exists s.cat l.productId) :
    o.amountCents = cost s.cat (linesOf s.db o.id) :=
  (amount_quote h ho).trans (quote_eq_cost (addressable_reachable h ha) hlines)

/-- A successful execution under the key. -/
def successUnder (k : String) (e : Payment.Exec) : Bool :=
  e.result.isSuccess ∧ e.body.idempotencyKey = k

/-- **PAID means charged exactly once for the right amount.** A PAID order has
exactly one successful execution of `_process_charge` under its key, which
carries its id and what its line items come to at prices that never change, the
cost of the products that they name if the ids lead to these; no two PAID orders
share one. -/
theorem paid_charged_once (cfg : Config) (cat : Catalog.Products) (s : Sys)
    (hr : (lts cfg cat).Reachable s) :
    (∀ o ∈ s.db.orders, o.status = .paid →
      ∃ e, s.pay.execs.filter (successUnder o.idempotencyKey) = [e] ∧ e.body.orderId = o.id ∧
        e.body.amount = quote cfg s.cat (linesOf s.db o.id) ∧
        (Lookup.Addressable cfg.catalogService cat → e.body.amount = cost s.cat (linesOf s.db o.id))) ∧
    (∀ p, Catalog.priceOf s.cat p = Catalog.priceOf cat p) ∧
    ∀ o ∈ s.db.orders, ∀ o' ∈ s.db.orders, o.status = .paid → o'.status = .paid →
      ∀ e ∈ s.pay.execs, (e.body.idempotencyKey = o.idempotencyKey ∨ e.body.orderId = o.id) →
        (e.body.idempotencyKey = o'.idempotencyKey ∨ e.body.orderId = o'.id) → o = o' := by
  have K := keys_reachable hr
  have J := payment_inv_reachable hr
  have C := charges_reachable hr
  refine ⟨?_, (priced_reachable hr).prices, ?_⟩
  · intro o ho hst
    obtain ⟨e, he, hk, hs⟩ := C.paid o ho hst
    obtain ⟨hid, hamt, hlines⟩ := exec_order hr he ho hk
    refine ⟨e, ?_, hid, hamt.trans (amount_quote hr ho), fun ha => hamt.trans (amount_cost hr ha ho hlines)⟩
    refine Table.filter_eq_singleton (List.Nodup.of_map _ J.once) he (by simp [successUnder, hs, hk]) ?_
    intro e' he' hsu
    simp only [successUnder, decide_eq_true_eq] at hsu
    exact exec_unique J C he' he (hsu.2.trans hk.symm)
  · intro o ho o' ho' _ _ e he h h'
    -- the order an execution belongs to is the one its call named
    obtain ⟨c, hc, -, hreq, -⟩ := J.exec e he
    obtain ⟨row, hrow, h1, h2, -⟩ := C.call c (List.mem_of_getElem? hc) e.body hreq
    have same : ∀ o ∈ s.db.orders, (e.body.idempotencyKey = o.idempotencyKey ∨ e.body.orderId = o.id) →
        o.core = row := by
      intro o ho h
      have hm := Orders.mem_core ho
      rcases h with h | h
      · exact K.keys.eq hm hrow (h.symm.trans h2.symm)
      · exact K.ids.eq hm hrow (h.symm.trans h1.symm)
    have heq : o.core = o'.core := (same o ho h).trans (same o' ho' h').symm
    exact (Orders.unique_ids K.ids).eq ho ho' (congrArg Core.id heq)

/-- Run `i` up to its reservations, over two lines. -/
def upToReserve (i : Nat) (oid : String) : List Lbl :=
  [.saga i .select, .saga i (.resolve (.status 200 none)), .saga i (.price .answered),
    .saga i (.price .answered), .saga i (.flush oid), .saga i .commit, .saga i (.publish true)]

/-- Run `i` up to its charge, over two lines. -/
def upToCharge (i : Nat) (oid : String) : List Lbl :=
  upToReserve i oid ++
    [.saga i (.reserve .answered), .saga i (.reserve .answered), .saga i .commit, .saga i (.charge none)]

/-- payment-service serves its call `j`; `o` is the outcome. -/
def serveCharge (j : Nat) (o : Option Nat) : List Lbl :=
  [.pay (.run j none), .pay (.run j o), .pay (.run j none)]

/-- An order of two lines, three units of `p1`. -/
def pens : List Lbl := [.request ⟨"u1", some "k1", some [twoPens, onePen]⟩]

/-- An order of `p1` and `p2`. -/
def penAndInk (key : String) : List Lbl := [.request ⟨"u1", some key, some [onePen, oneInk]⟩]

/-- Two orders of one user; the charge of the second one is declined. -/
def twoOrders : List Lbl :=
  pens ++ penAndInk "k2" ++ upToCharge 0 "o1" ++ upToCharge 1 "o2" ++ serveCharge 0 (some 7) ++ serveCharge 1 none ++
    [.saga 0 .settle, .saga 0 .commit, .saga 1 .settle, .saga 1 (.release .answered),
      .saga 1 (.release .answered), .saga 1 .commit]

/-- The products of the examples. -/
def shop : Catalog.Products := [⟨"p1", "pen", 10, 5⟩, ⟨"p2", "ink", 30, 1⟩]

def paidAndFailed (s : Sys) : Bool :=
  s.db.orders.map (fun o => (o.id, o.status, o.amountCents)) = [("o1", .paid, 30), ("o2", .failed, 40)]

/-- `paid_charged_once` after `twoOrders`. -/
theorem paid_charged_once_twoOrders : ∃ s : Sys, paidAndFailed s = true ∧
    ∀ o ∈ s.db.orders, o.status = .paid →
      ∃ e, s.pay.execs.filter (successUnder o.idempotencyKey) = [e] ∧ e.body.orderId = o.id ∧
        e.body.amount = cost s.cat (linesOf s.db o.id) := by
  have hrun : ∃ s, (lts {} shop).Reachable s ∧ paidAndFailed s = true :=
    LTS.reachable_of_exec twoOrders rfl (by decide +kernel)
  obtain ⟨s, hr, hs⟩ := hrun
  refine ⟨s, hs, fun o ho hst => ?_⟩
  obtain ⟨e, he, hid, -, hcost⟩ := (paid_charged_once {} shop s hr).1 o ho hst
  exact ⟨e, he, hid, hcost (by decide +kernel)⟩

end Gestalt.Checkout
