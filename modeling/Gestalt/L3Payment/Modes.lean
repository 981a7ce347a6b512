import Gestalt.Core.Json
import Gestalt.L3Payment.Charge

/-!
# Safe and unsafe mode, one request after another

`charge` as a whole, with the JSON text that Redis holds: nothing comes between its
commands. `unsafe_idempotency_mode` is there to bring a race back; without a race
the two modes cannot be told apart (`modes_agree`): the marker `IN_PROGRESS` is
overwritten by the call that has set it, so between two calls Redis holds results only
(`Results`), and `_wait_for_result` returns with its first `GET`. `run_matches`: these
are runs of `Payment`'s single commands, in which no call overlaps another.

The outcome of the `n`-th `_process_charge`, its latency included, is `outcomes n`.
Redis commands take no time; times are in microseconds. A key may expire between two
requests, at its deadline or later. `isoformat` is the text of a time.
-/
namespace Gestalt.Payment.Modes

def microseconds : Nat := 1000000

/-- What Redis holds under a key, and until when. -/
structure Cell where
  text : Text
  expiresAt : Nat
  deriving DecidableEq, Repr

/-- What `_process_charge` draws: how long it takes, and the time of the charge or a synthetic decline. -/
structure Outcome where
  latency : Nat
  chargedAt : Option Nat
  deriving DecidableEq, Repr

/-- mirrors services/payment-service/app/schemas.py:11-17 -/
structure ChargeOut where
  orderId : String
  amount : Int
  currency : String
  idempotencyKey : String
  status : String
  chargedAt : String
  deriving DecidableEq, Repr

structure State where
  redis : String → Option Cell
  /-- executions of `_process_charge` -/
  execs : Nat
  /-- `PAYMENT_FAILURES_TOTAL` -/
  failures : Nat
  /-- `PAYMENT_IDEMPOTENT_REPLAYS_TOTAL` -/
  replays : Nat
  clock : Nat

def State.start : State := ⟨fun _ => none, 0, 0, 0, 0⟩

/-- mirrors services/payment-service/app/routers/payments.py:35-36 -/
def redisKey (idempotencyKey : String) : String := "idempotency:" ++ idempotencyKey

/-- `bool(x)` -/
def truthy : Json → Bool
  | .null => false
  | .bool b => b
  | .num n => decide (n ≠ 0)
  | .str s => decide (s ≠ "")
  | .arr xs => !xs.isEmpty
  | .obj ms => !ms.isEmpty

/-- `{"status": "IN_PROGRESS"}` -/
def inProgress : List (String × Json) := [("status", .str "IN_PROGRESS")]

section
variable (cfg : Settings) (isoformat : Nat → String) (outcomes : Nat → Outcome)

/-- The dict of a result.
mirrors services/payment-service/app/routers/payments.py:46-58 -/
def dict : Result → List (String × Json)
  | .success orderId amount currency chargedAt =>
    [("success", .bool true), ("orderId", .str orderId), ("amount", .num amount),
      ("currency", .str currency), ("chargedAt", .str (isoformat chargedAt))]
  | .failure code message => [("success", .bool false), ("code", .str code), ("message", .str message)]

/-- mirrors services/payment-service/app/routers/payments.py:39-58 -/
def State.process (s : State) (body : ChargeRequest) : State × List (String × Json) :=
  let o := outcomes s.execs
  ({ s with
      execs := s.execs + 1
      failures := if o.chargedAt.isNone then s.failures + 1 else s.failures
      clock := s.clock + o.latency },
    dict isoformat (processCharge body o.chargedAt))

/-- `SET key value EX ttl` -/
def State.set (s : State) (key : String) (value : List (String × Json)) : State :=
  { s with redis := fun k =>
      if k = key then some ⟨(Json.obj value).dumps, s.clock + cfg.idempotencyTtlSeconds * microseconds⟩
      else s.redis k }

/-- `GET key` -/
def State.get (s : State) (key : String) : Option Text := (s.redis key).map Cell.text

/-- A text of `result.get(key, default)`; none where `AppError` would not be given a text. -/
def textOr (result : List (String × Json)) (key default : String) : Option String :=
  match Json.lookup result key with
  | none => some default
  | some (.str s) => some s
  | some _ => none

/-- `ChargeResponse` refuses a member that is missing or not of its type.
mirrors services/payment-service/app/routers/payments.py:61-71 -/
def respond (idempotencyKey : String) (result : List (String × Json)) : Except AppError ChargeOut :=
  if truthy (Json.get result "success") then
    match Json.lookup result "orderId", Json.lookup result "amount", Json.lookup result "currency",
      Json.lookup result "chargedAt" with
    | some (.str orderId), some (.num amount), some (.str currency), some (.str chargedAt) =>
      .ok ⟨orderId, amount, currency, idempotencyKey, "CHARGED", chargedAt⟩
    | _, _, _, _ => .error internalError
  else
    match textOr result "code" "PAYMENT_DECLINED", textOr result "message" "Payment declined" with
    | some code, some message => .error ⟨code, message, 402⟩
    | _, _ => .error internalError

/-- The default of `interval_s`, in microseconds. -/
def interval : Nat := 200000

/-- With the clock after its sleeps. A text that is no JSON object raises.
mirrors services/payment-service/app/routers/payments.py:74-84 -/
def waitForResult (get : Option Text) : Nat → Nat → Nat × Except AppError (List (String × Json))
  | 0, clock => (clock, .error chargeInProgress)
  | left + 1, clock =>
    match get with
    | none | some [] => waitForResult get left (clock + interval)
    | some raw =>
      match Json.loads raw with
      | some (.obj stored) =>
        if (Json.get stored "status").isStr "IN_PROGRESS" then waitForResult get left (clock + interval)
        else (clock, .ok stored)
      | _ => (clock, .error internalError)

/-- `_process_charge`, the `SET` and the response. -/
def State.chargeFresh (s : State) (body : ChargeRequest) : State × Except AppError ChargeOut :=
  let (s, result) := s.process isoformat outcomes body
  (s.set cfg (redisKey body.idempotencyKey) result, respond body.idempotencyKey result)

/-- mirrors services/payment-service/app/routers/payments.py:91-105 -/
def State.chargeUnsafe (s : State) (body : ChargeRequest) : State × Except AppError ChargeOut :=
  match s.get (redisKey body.idempotencyKey) with
  | none | some [] => s.chargeFresh cfg isoformat outcomes body
  | some existing =>
    let s := { s with replays := s.replays + 1 }
    match Json.loads existing with
    | some (.obj result) => (s, respond body.idempotencyKey result)
    | _ => (s, .error internalError)

/-- mirrors services/payment-service/app/routers/payments.py:107-122 -/
def State.chargeSafe (s : State) (body : ChargeRequest) : State × Except AppError ChargeOut :=
  let key := redisKey body.idempotencyKey
  match s.redis key with
  | none => (s.set cfg key inProgress).chargeFresh cfg isoformat outcomes body
  | some _ =>
    let (clock, waited) := waitForResult (s.get key) attempts s.clock
    let s := { s with clock }
    match waited with
    | .ok result => ({ s with replays := s.replays + 1 }, respond body.idempotencyKey result)
    | .error e => (s, .error e)

/-- mirrors services/payment-service/app/routers/payments.py:87-122 -/
def State.charge (s : State) (body : ChargeRequest) : State × Except AppError ChargeOut :=
  if cfg.unsafeIdempotencyMode then s.chargeUnsafe cfg isoformat outcomes body
  else s.chargeSafe cfg isoformat outcomes body

inductive Event
  | charge (body : ChargeRequest)
  | expire (key : String)
  | tick (d : Nat)

/-- A key goes if its time has come. -/
def State.expire (s : State) (key : String) : State :=
  match s.redis key with
  | some cell =>
    if cell.expiresAt ≤ s.clock then { s with redis := fun k => if k = key then none else s.redis k } else s
  | none => s

/-- One event after another, with the responses to the charges. -/
def State.run (s : State) : List Event → State × List (Except AppError ChargeOut)
  | [] => (s, [])
  | .charge body :: events =>
    let (s, answer) := s.charge cfg isoformat outcomes body
    let (s, answers) := s.run events
    (s, answer :: answers)
  | .expire key :: events => (s.expire key).run events
  | .tick d :: events => { s with clock := s.clock + d }.run events

/-- Redis holds results only. -/
def State.Results (s : State) : Prop :=
  ∀ key cell, s.redis key = some cell → ∃ r, cell.text = (Json.obj (dict isoformat r)).dumps

end

variable {cfg : Settings} {isoformat : Nat → String} {outcomes : Nat → Outcome} {s : State}

/-! ## The text of a result -/

/-- A result is not taken for the marker. -/
theorem status_dict (r : Result) : (Json.get (dict isoformat r) "status").isStr "IN_PROGRESS" = false := by
  cases r <;> rfl

theorem dumps_ne_nil (x : Json) : x.dumps ≠ [] := by
  obtain ⟨c, s, h, -⟩ := Json.dumps_head x
  rw [h]
  exact List.cons_ne_nil c s

/-- A stored result is read by the first `GET`. -/
theorem wait_dict (r : Result) (clock : Nat) :
    waitForResult (some (Json.obj (dict isoformat r)).dumps) attempts clock =
      (clock, .ok (dict isoformat r)) := by
  rw [attempts, waitForResult]
  · simp [Json.loads_dumps, status_dict]
  · exact fun h => dumps_ne_nil _ h

/-! ## One charge -/

/-- The marker leaves no trace. -/
theorem chargeFresh_set (body : ChargeRequest) (v : List (String × Json)) :
    (s.set cfg (redisKey body.idempotencyKey) v).chargeFresh cfg isoformat outcomes body =
      s.chargeFresh cfg isoformat outcomes body := by
  have hredis :
      ((s.set cfg (redisKey body.idempotencyKey) v).chargeFresh cfg isoformat outcomes body).1.redis =
        (s.chargeFresh cfg isoformat outcomes body).1.redis := by
    funext k
    simp only [State.chargeFresh, State.process, State.set]
    split <;> rfl
  -- the other fields are those of `s`
  refine Prod.ext ?_ rfl
  exact congrArg (fun r => ({ (s.chargeFresh cfg isoformat outcomes body).1 with redis := r } : State)) hredis

theorem chargeUnsafe_some {body : ChargeRequest} {r : Result} {d : Nat}
    (hc : s.redis (redisKey body.idempotencyKey) = some ⟨(Json.obj (dict isoformat r)).dumps, d⟩) :
    s.chargeUnsafe cfg isoformat outcomes body =
      ({ s with replays := s.replays + 1 }, respond body.idempotencyKey (dict isoformat r)) := by
  have hget : s.get (redisKey body.idempotencyKey) = some (Json.obj (dict isoformat r)).dumps := by
    rw [State.get, hc, Option.map_some]
  rw [State.chargeUnsafe, hget]
  split
  · rename_i hn
    cases hn
  · rename_i hn
    exact absurd (Option.some.inj hn) (dumps_ne_nil _)
  · rename_i he
    obtain rfl := Option.some.inj he
    simp only [Json.loads_dumps]

/-- Where Redis holds results only, the modes do the same. -/
theorem charge_agree (h : s.Results isoformat) (body : ChargeRequest) :
    s.chargeSafe cfg isoformat outcomes body = s.chargeUnsafe cfg isoformat outcomes body := by
  cases hc : s.redis (redisKey body.idempotencyKey) with
  | none =>
    simp only [State.chargeSafe, State.chargeUnsafe, State.get, hc, Option.map_none]
    exact chargeFresh_set body inProgress
  | some cell =>
    obtain ⟨text, d⟩ := cell
    obtain ⟨r, rfl⟩ := h _ _ hc
    rw [chargeUnsafe_some hc]
    simp only [State.chargeSafe, State.get, hc, Option.map_some, wait_dict]

theorem charge_eq (h : s.Results isoformat) (body : ChargeRequest) :
    s.charge cfg isoformat outcomes body = s.chargeUnsafe cfg isoformat outcomes body := by
  unfold State.charge
  split
  · rfl
  · exact charge_agree h body

theorem results_chargeFresh (h : s.Results isoformat) (body : ChargeRequest) :
    (s.chargeFresh cfg isoformat outcomes body).1.Results isoformat := by
  intro key cell hk
  simp only [State.chargeFresh, State.process, State.set] at hk
  split at hk
  · cases hk
    exact ⟨_, rfl⟩
  · exact h key cell hk

theorem results_chargeUnsafe (h : s.Results isoformat) (body : ChargeRequest) :
    (s.chargeUnsafe cfg isoformat outcomes body).1.Results isoformat := by
  unfold State.chargeUnsafe
  split
  · exact results_chargeFresh h body
  · exact results_chargeFresh h body
  · split <;> exact h

theorem results_expire (h : s.Results isoformat) (key : String) : (s.expire key).Results isoformat := by
  intro k cell hk
  unfold State.expire at hk
  split at hk
  · split at hk
    · simp only at hk
      split at hk
      · cases hk
      · exact h k cell hk
    · exact h k cell hk
  · exact h k cell hk

/-! ## A sequence of charges -/

theorem run_agree (events : List Event) (h : s.Results isoformat) :
    s.run { cfg with unsafeIdempotencyMode := false } isoformat outcomes events =
      s.run { cfg with unsafeIdempotencyMode := true } isoformat outcomes events := by
  induction events generalizing s with
  | nil => rfl
  | cons e events ih =>
    cases e with
    | charge body =>
      have hcharge : s.charge { cfg with unsafeIdempotencyMode := false } isoformat outcomes body =
          s.charge { cfg with unsafeIdempotencyMode := true } isoformat outcomes body := charge_agree h body
      have hresults : (s.charge { cfg with unsafeIdempotencyMode := true } isoformat outcomes body).1.Results
          isoformat := results_chargeUnsafe h body
      simp only [State.run, hcharge, ih hresults]
    | expire key => exact ih (results_expire h key)
    | tick d => exact ih (s := { s with clock := s.clock + d }) h

/-- **The modes agree.** One charge after another, from an empty store, the safe and the unsafe mode give
the same responses and leave the same state: the same Redis contents and expiries, executions of
`_process_charge` and replays. -/
theorem modes_agree (cfg : Settings) (isoformat : Nat → String) (outcomes : Nat → Outcome)
    (events : List Event) :
    State.start.run { cfg with unsafeIdempotencyMode := false } isoformat outcomes events =
      State.start.run { cfg with unsafeIdempotencyMode := true } isoformat outcomes events :=
  run_agree events fun _ _ hk => by cases hk

/-! ## As runs of single commands -/

/-- A response of `Payment`, its time as a text. -/
def out (isoformat : Nat → String) (a : Answer) : Except AppError ChargeOut :=
  a.map fun r => ⟨r.orderId, r.amount, r.currency, r.idempotencyKey, r.status, isoformat r.chargedAt⟩

theorem respond_dict (idempotencyKey : String) (r : Result) :
    respond idempotencyKey (dict isoformat r) =
      out isoformat (Payment.respond idempotencyKey (.result r)) := by
  cases r <;> rfl

/-- What Redis holds here and there: a result, its expiry in whole seconds there. -/
def Held (isoformat : Nat → String) (c : Option Cell) (e : Option Entry) : Prop :=
  (c = none ∧ e = none) ∨ ∃ r d, c = some ⟨(Json.obj (dict isoformat r)).dumps, d⟩ ∧
    e = some ⟨.result r, d / microseconds⟩

/-- `t` is between two calls, in the state `s`. -/
structure Matches (isoformat : Nat → String) (s : State) (t : St) : Prop where
  results : s.Results isoformat
  redis : ∀ k, Held isoformat (s.redis (redisKey k)) (t.redis k)
  execs : t.execs.length = s.execs
  failures : t.execs.countP (fun e => !e.result.isSuccess) = s.failures
  replays : t.replays = s.replays
  now : t.now = s.clock / microseconds

theorem redisKey_inj {k k' : String} (h : redisKey k = redisKey k') : k = k' := by
  simpa [redisKey] using h

theorem ticks (cfg : Settings) (t : St) (n : Nat) :
    (Payment.lts cfg).Run t (List.replicate n .tick) { t with now := t.now + n } := by
  induction n generalizing t with
  | zero => exact .nil t
  | succ n ih =>
    have hrest := ih { t with now := t.now + 1 }
    rw [Nat.add_assoc, Nat.add_comm 1 n] at hrest
    exact .cons rfl hrest

section
variable (cfg : Settings) (t : St) (body : ChargeRequest)

/-- A call has been answered from the store. -/
def replayed (r : Result) : St :=
  { t with
    calls := t.calls ++ [{
      req := .charge body
      pc := .done (Payment.respond body.idempotencyKey (.result r)) }]
    replays := t.replays + 1 }

/-- A call has charged, `_process_charge` taking `n` seconds. -/
def charged (r : Result) (n : Nat) : St :=
  { t with
    redis := fun k =>
      if k = body.idempotencyKey then some ⟨.result r, t.now + n + cfg.idempotencyTtlSeconds⟩ else t.redis k
    calls := t.calls ++ [{
      req := .charge body
      pc := .done (Payment.respond body.idempotencyKey (.result r))
      claimed := true }]
    execs := t.execs ++ [⟨t.calls.length, body, r⟩]
    now := t.now + n }

theorem run_replayed {r : Result} {d : Nat} (hk : t.redis body.idempotencyKey = some ⟨.result r, d⟩) :
    ∃ ls, (Payment.lts cfg).Run t ls (replayed t body r) := by
  have harrive : Payment.step cfg t (.arrive (.charge body)) = some (t.arrive (.charge body)) := rfl
  cases hm : cfg.unsafeIdempotencyMode with
  | true =>
    have hstart : Payment.step cfg (t.arrive (.charge body)) (.run t.calls.length none) =
        some (replayed t body r) := by
      simp [Payment.step, stepCall, St.arrive, St.get, St.put, hk, hm, replayed]
    exact ⟨_, .cons harrive (.cons hstart (.nil _))⟩
  | false =>
    let waiting : St := { t with calls := t.calls ++ [{ req := .charge body, pc := .poll attempts }] }
    have hstart : Payment.step cfg (t.arrive (.charge body)) (.run t.calls.length none) = some waiting := by
      simp [Payment.step, stepCall, St.arrive, St.get, St.put, hk, hm, waiting]
    have hpoll : Payment.step cfg waiting (.run t.calls.length none) = some (replayed t body r) := by
      simp [Payment.step, stepCall, St.get, St.put, attempts, hk, waiting, replayed]
    exact ⟨_, .cons harrive (.cons hstart (.cons hpoll (.nil _)))⟩

/-- From the claim to the end of the call. -/
theorem run_process (o : Option Nat) (n : Nat) :
    ∃ ls, (Payment.lts cfg).Run
      { t with calls := t.calls ++ [{ req := .charge body, pc := .process, claimed := true }] } ls
      (charged cfg t body (processCharge body o) n) := by
  let r := processCharge body o
  let drawn : St := { t with
    calls := t.calls ++ [{ req := .charge body, pc := .store r, claimed := true }]
    execs := t.execs ++ [⟨t.calls.length, body, r⟩] }
  have hdraw : Payment.step cfg
      { t with calls := t.calls ++ [{ req := .charge body, pc := .process, claimed := true }] }
      (.run t.calls.length o) = some drawn := by
    simp [Payment.step, stepCall, St.put, drawn, r]
  have hstore : Payment.step cfg { drawn with now := drawn.now + n } (.run t.calls.length none) =
      some (charged cfg t body r n) := by
    simp [Payment.step, stepCall, St.set, St.put, drawn, charged]
  exact ⟨_, .cons hdraw ((ticks cfg drawn n).append (.cons hstore (.nil _)))⟩

theorem charged_set (r : Result) (n : Nat) :
    charged cfg (t.set cfg body.idempotencyKey .inProgress) body r n = charged cfg t body r n := by
  have hredis : (charged cfg (t.set cfg body.idempotencyKey .inProgress) body r n).redis =
      (charged cfg t body r n).redis := by
    funext k
    simp only [charged, St.set]
    split <;> rfl
  exact congrArg (fun redis => ({ charged cfg t body r n with redis } : St)) hredis

theorem run_charged (hk : t.redis body.idempotencyKey = none) (o : Option Nat) (n : Nat) :
    ∃ ls, (Payment.lts cfg).Run t ls (charged cfg t body (processCharge body o) n) := by
  have harrive : Payment.step cfg t (.arrive (.charge body)) = some (t.arrive (.charge body)) := rfl
  cases hm : cfg.unsafeIdempotencyMode with
  | true =>
    obtain ⟨ls, hrun⟩ := run_process cfg t body o n
    refine ⟨_, .cons harrive (.cons (l := .run t.calls.length none) ?_ hrun)⟩
    simp [Payment.lts, LTS.ofFn, Payment.step, stepCall, St.arrive, St.get, St.put, hk, hm]
  | false =>
    obtain ⟨ls, hrun⟩ := run_process cfg (t.set cfg body.idempotencyKey .inProgress) body o n
    rw [charged_set] at hrun
    refine ⟨_, .cons harrive (.cons (l := .run t.calls.length none) ?_ hrun)⟩
    simp [Payment.lts, LTS.ofFn, Payment.step, stepCall, St.arrive, St.get, St.put, St.set, hk, hm]

end

/-- What a finished call has answered. -/
def answerOf (isoformat : Nat → String) (c : Call) : Option (Except AppError ChargeOut) :=
  match c.pc with
  | .done a => some (out isoformat a)
  | _ => none

variable {t : St}

/-- Whole seconds go by, and a rest that does not show. -/
theorem div_add (clock d : Nat) :
    clock / microseconds + ((clock + d) / microseconds - clock / microseconds) = (clock + d) / microseconds :=
  Nat.add_sub_of_le (Nat.div_le_div_right (Nat.le_add_right clock d))

theorem Matches.charged (h : Matches isoformat s t) (body : ChargeRequest) (o : Outcome)
    (ho : outcomes s.execs = o) :
    Matches isoformat (s.chargeFresh cfg isoformat outcomes body).1
      (charged cfg t body (processCharge body o.chargedAt)
        ((s.clock + o.latency) / microseconds - s.clock / microseconds)) where
  results := results_chargeFresh h.results body
  redis k := by
    simp only [State.chargeFresh, State.process, State.set, Modes.charged, ho]
    by_cases hk : k = body.idempotencyKey
    · refine .inr ⟨_, _, if_pos (congrArg redisKey hk), ?_⟩
      rw [if_pos hk, h.now, div_add, Nat.add_mul_div_right _ _ (by decide)]
    · rw [if_neg hk, if_neg fun he => hk (redisKey_inj he)]
      exact h.redis k
  execs := by
    simp only [State.chargeFresh, State.process, State.set, Modes.charged, List.length_append,
      List.length_singleton, h.execs]
  failures := by
    simp only [State.chargeFresh, State.process, State.set, Modes.charged, List.countP_append, h.failures, ho]
    cases o.chargedAt <;> simp [processCharge, Result.isSuccess]
  replays := h.replays
  now := by
    simp only [State.chargeFresh, State.process, State.set, Modes.charged, ho, h.now, div_add]

/-- **One charge.** The commands of one call, with nothing between them, do what `charge` does. -/
theorem charge_matches (cfg : Settings) (outcomes : Nat → Outcome) (h : Matches isoformat s t)
    (body : ChargeRequest) :
    ∃ ls t' c, (Payment.lts cfg).Run t ls t' ∧ Matches isoformat (s.charge cfg isoformat outcomes body).1 t' ∧
      t'.calls = t.calls ++ [c] ∧
      answerOf isoformat c = some (s.charge cfg isoformat outcomes body).2 := by
  rw [charge_eq h.results]
  rcases h.redis body.idempotencyKey with ⟨hc, hk⟩ | ⟨r, d, hc, hk⟩
  · have hfresh : s.chargeUnsafe cfg isoformat outcomes body = s.chargeFresh cfg isoformat outcomes body := by
      simp only [State.chargeUnsafe, State.get, hc, Option.map_none]
    rw [hfresh]
    obtain ⟨ls, hrun⟩ := run_charged cfg t body hk (outcomes s.execs).chargedAt
      ((s.clock + (outcomes s.execs).latency) / microseconds - s.clock / microseconds)
    refine ⟨ls, _, _, hrun, h.charged body _ rfl, rfl, ?_⟩
    simp only [answerOf, State.chargeFresh, State.process, respond_dict]
  · rw [chargeUnsafe_some hc]
    obtain ⟨ls, hrun⟩ := run_replayed cfg t body hk
    refine ⟨ls, _, _, hrun, ⟨h.results, h.redis, h.execs, h.failures, ?_, h.now⟩, rfl, ?_⟩
    · simp only [replayed, h.replays]
    · simp only [answerOf, respond_dict]

theorem Matches.withRedis {f : String → Option Cell} {g : String → Option Entry} (h : Matches isoformat s t)
    (hf : ({ s with redis := f } : State).Results isoformat)
    (hfg : ∀ k, Held isoformat (f (redisKey k)) (g k)) :
    Matches isoformat { s with redis := f } { t with redis := g } :=
  ⟨hf, hfg, h.execs, h.failures, h.replays, h.now⟩

theorem expire_matches (cfg : Settings) (h : Matches isoformat s t) (key : String) :
    ∃ ls t', (Payment.lts cfg).Run t ls t' ∧ Matches isoformat (s.expire key) t' ∧ t'.calls = t.calls := by
  have hresults := results_expire h.results key
  cases hc : s.redis key with
  | none =>
    have hkeep : s.expire key = s := by simp only [State.expire, hc]
    exact ⟨[], t, .nil t, by rwa [hkeep], rfl⟩
  | some cell =>
    by_cases hdue : cell.expiresAt ≤ s.clock
    · have hgone : s.expire key = { s with redis := fun k => if k = key then none else s.redis k } := by
        simp only [State.expire, hc, if_pos hdue]
      rw [hgone] at hresults ⊢
      by_cases hkey : ∃ k, redisKey k = key
      · obtain ⟨k, rfl⟩ := hkey
        obtain ⟨r, d, hcell, hk⟩ := (h.redis k).resolve_left fun hnone => by
          rw [hc] at hnone
          cases hnone.1
        rw [hc] at hcell
        obtain rfl := Option.some.inj hcell
        have hle : d / microseconds ≤ t.now := h.now ▸ Nat.div_le_div_right hdue
        have hexpire : Payment.step cfg t (.expire k) =
            some { t with redis := fun k' => if k' = k then none else t.redis k' } := by
          simp only [Payment.step, hk, if_pos hle]
        refine ⟨_, _, .cons hexpire (.nil _), h.withRedis hresults ?_, rfl⟩
        intro k'
        by_cases hk' : k' = k
        · exact .inl ⟨if_pos (congrArg redisKey hk'), if_pos hk'⟩
        · simp only [if_neg hk', if_neg fun he => hk' (redisKey_inj he)]
          exact h.redis k'
      · -- no idempotency key: `Payment` does not see it
        refine ⟨[], t, .nil t, h.withRedis hresults ?_, rfl⟩
        intro k'
        simp only [if_neg fun he => hkey ⟨k', he⟩]
        exact h.redis k'
    · have hkeep : s.expire key = s := by simp only [State.expire, hc, if_neg hdue]
      exact ⟨[], t, .nil t, by rwa [hkeep], rfl⟩

/-- **One request after another** is one way for the commands of `Payment` to come: the same answers and
the same executions. -/
theorem run_matches (events : List Event) (h : Matches isoformat s t) :
    ∃ ls t' cs, (Payment.lts cfg).Run t ls t' ∧ Matches isoformat (s.run cfg isoformat outcomes events).1 t' ∧
      t'.calls = t.calls ++ cs ∧
      cs.map (answerOf isoformat) = (s.run cfg isoformat outcomes events).2.map some := by
  induction events generalizing s t with
  | nil => exact ⟨[], t, [], .nil t, h, (List.append_nil _).symm, rfl⟩
  | cons e events ih =>
    cases e with
    | charge body =>
      obtain ⟨ls, t₁, c, hrun, h₁, hcalls, hc⟩ := charge_matches cfg outcomes h body
      obtain ⟨ls', t', cs, hrun', h', hcalls', hcs⟩ := ih h₁
      refine ⟨ls ++ ls', t', c :: cs, hrun.append hrun', h', ?_, ?_⟩
      · rw [hcalls', hcalls, List.append_assoc, List.singleton_append]
      · simp only [List.map_cons, hc, hcs, State.run]
    | expire key =>
      obtain ⟨ls, t₁, hrun, h₁, hcalls⟩ := expire_matches cfg h key
      obtain ⟨ls', t', cs, hrun', h', hcalls', hcs⟩ := ih h₁
      exact ⟨ls ++ ls', t', cs, hrun.append hrun', h', hcalls ▸ hcalls', hcs⟩
    | tick d =>
      let n := (s.clock + d) / microseconds - s.clock / microseconds
      have h₁ : Matches isoformat { s with clock := s.clock + d } { t with now := t.now + n } := by
        refine ⟨h.results, h.redis, h.execs, h.failures, h.replays, ?_⟩
        simp only [n, h.now, div_add]
      obtain ⟨ls', t', cs, hrun', h', hcalls', hcs⟩ := ih h₁
      exact ⟨_, t', cs, (ticks cfg t n).append hrun', h', hcalls', hcs⟩

end Gestalt.Payment.Modes
