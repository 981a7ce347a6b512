import Gestalt.Core.LTS
import Mathlib.Control.Monad.Basic
import Gestalt.L1Shared.Http

/-!
# payment-service: idempotent charges

Redis holds, under each idempotency key, either the claim
`{"status": "IN_PROGRESS"}` or the result of `_process_charge`. A `charge` call
is a sequence of single Redis commands with `_process_charge` in between, and
any number of calls interleave:

* safe mode: `start` (`SET key IN_PROGRESS NX EX ttl`); the winner goes on to
  `process`, then `store` (`SET key result EX ttl`); a loser `poll`s with `GET`
  up to ten times and gives up with 409;
* `unsafe_idempotency_mode`: `start` is a `GET`, and a miss goes on to
  `process`.

`get_result` is one `GET`. A call may crash between any two commands; the rest
of the service goes on. `execs` is a ghost list: the executions of
`_process_charge`, in order, with the call that made each.
-/
namespace Gestalt.Payment

/-- mirrors services/payment-service/app/config.py:4-23 -/
structure Settings where
  idempotencyTtlSeconds : Nat := 86400
  unsafeIdempotencyMode : Bool := false
  deriving DecidableEq, Repr

/-- `amount` is `Field(gt=0)`.
mirrors services/payment-service/app/schemas.py:4-8 -/
structure ChargeRequest where
  orderId : String
  amount : Int
  currency : String
  idempotencyKey : String
  amount_pos : 0 < amount
  deriving DecidableEq, Repr

/-- mirrors services/payment-service/app/schemas.py:11-17 -/
structure ChargeResponse where
  orderId : String
  amount : Int
  currency : String
  idempotencyKey : String
  status : String
  chargedAt : Nat
  deriving DecidableEq, Repr

/-- The dict `_process_charge` returns. -/
inductive Result
  | success (orderId : String) (amount : Int) (currency : String) (chargedAt : Nat)
  | failure (code message : String)
  deriving DecidableEq, Repr

def Result.isSuccess : Result → Bool
  | .success .. => true
  | .failure .. => false

/-- What Redis holds under a key. -/
inductive Stored
  | inProgress
  | result (r : Result)
  deriving DecidableEq, Repr

structure Entry where
  value : Stored
  expiresAt : Nat
  deriving DecidableEq, Repr

abbrev Answer := Except AppError ChargeResponse

/-- `_process_charge`: charged at the given time, or the synthetic decline.
mirrors services/payment-service/app/routers/payments.py:39-58 -/
def processCharge (body : ChargeRequest) : Option Nat → Result
  | some chargedAt => .success body.orderId body.amount body.currency chargedAt
  | none => .failure "PAYMENT_DECLINED" "Synthetic payment failure (chaos testing)"

/-- `_respond`. The claim has no `success`, `code` or `message`, so it reads as
a decline with the default texts.
mirrors services/payment-service/app/routers/payments.py:61-71 -/
def respond (idempotencyKey : String) : Stored → Answer
  | .result (.success orderId amount currency chargedAt) =>
    .ok ⟨orderId, amount, currency, idempotencyKey, "CHARGED", chargedAt⟩
  | .result (.failure code message) => .error ⟨code, message, 402⟩
  | .inProgress => .error ⟨"PAYMENT_DECLINED", "Payment declined", 402⟩

def chargeInProgress : AppError :=
  ⟨"CHARGE_IN_PROGRESS", "Charge for this idempotency key is still processing", 409⟩

def notFound : AppError := ⟨"NOT_FOUND", "No charge found for this idempotency key", 404⟩

/-- The default of `_wait_for_result`'s `attempts`. -/
def attempts : Nat := 10

inductive Req
  | charge (body : ChargeRequest)
  | getResult (idempotencyKey : String)
  deriving DecidableEq, Repr

def Req.key : Req → String
  | .charge body => body.idempotencyKey
  | .getResult k => k

inductive Pc
  | start
  | poll (left : Nat)
  | process
  | store (r : Result)
  | done (a : Answer)
  deriving DecidableEq, Repr

/-- One request being served. `claimed` is a ghost: it found the key absent, by a
winning `SET NX` or, in unsafe mode, by its `GET`. -/
structure Call where
  req : Req
  pc : Pc := .start
  claimed : Bool := false
  alive : Bool := true
  deriving DecidableEq, Repr

def Call.key (c : Call) : String := c.req.key

/-- One execution of `_process_charge`. -/
structure Exec where
  call : Nat
  body : ChargeRequest
  result : Result
  deriving DecidableEq, Repr

structure St where
  /-- keyed by the idempotency key (`_key` prefixes it with `idempotency:`) -/
  redis : String → Option Entry
  calls : List Call
  /-- ghost: the executions of `_process_charge` -/
  execs : List Exec
  /-- `payment_idempotent_replays_total` -/
  replays : Nat
  now : Nat

def init : St := ⟨fun _ => none, [], [], 0, 0⟩

/-- `GET key`. -/
def St.get (s : St) (k : String) : Option Stored := (s.redis k).map Entry.value

/-- `SET key value EX ttl`. -/
def St.set (cfg : Settings) (s : St) (k : String) (v : Stored) : St :=
  { s with redis := fun k' =>
      if k' = k then some ⟨v, s.now + cfg.idempotencyTtlSeconds⟩ else s.redis k' }

def St.put (s : St) (j : Nat) (c : Call) : St := { s with calls := s.calls.set j c }

/-- A request arrives. -/
def St.arrive (s : St) (r : Req) : St := { s with calls := s.calls ++ [{ req := r }] }

/-- The next command of call `j`; `o` is the outcome if it is `_process_charge`.
mirrors services/payment-service/app/routers/payments.py:74-133 -/
def stepCall (cfg : Settings) (s : St) (j : Nat) (c : Call) (o : Option Nat) : Option St :=
  match c.req, c.pc with
  | .charge body, .start =>
    match cfg.unsafeIdempotencyMode, s.get body.idempotencyKey with
    | true, some v =>
      some { s.put j { c with pc := .done (respond body.idempotencyKey v) } with
        replays := s.replays + 1 }
    | true, none => some (s.put j { c with pc := .process, claimed := true })
    | false, some _ => some (s.put j { c with pc := .poll attempts })
    | false, none =>
      some ((s.set cfg body.idempotencyKey .inProgress).put j { c with pc := .process, claimed := true })
  | .charge _, .poll 0 => some (s.put j { c with pc := .done (.error chargeInProgress) })
  | .charge body, .poll (left + 1) =>
    match s.get body.idempotencyKey with
    | some (.result r) =>
      some { s.put j { c with pc := .done (respond body.idempotencyKey (.result r)) } with
        replays := s.replays + 1 }
    | _ => some (s.put j { c with pc := .poll left })
  | .charge body, .process =>
    some { s.put j { c with pc := .store (processCharge body o) } with
      execs := s.execs ++ [⟨j, body, processCharge body o⟩] }
  | .charge body, .store r =>
    some ((s.set cfg body.idempotencyKey (.result r)).put j
      { c with pc := .done (respond body.idempotencyKey (.result r)) })
  | .getResult k, .start =>
    match s.get k with
    | none => some (s.put j { c with pc := .done (.error notFound) })
    | some .inProgress => some (s.put j { c with pc := .done (.error chargeInProgress) })
    | some (.result r) => some (s.put j { c with pc := .done (respond k (.result r)) })
  | _, _ => none

inductive Lbl
  | arrive (r : Req)
  | run (j : Nat) (o : Option Nat)
  | crash (j : Nat)
  | expire (k : String)
  | tick
  deriving DecidableEq, Repr

def step (cfg : Settings) (s : St) : Lbl → Option St
  | .arrive r => some (s.arrive r)
  | .run j o =>
    match s.calls[j]? with
    | some c => if c.alive then stepCall cfg s j c o else none
    | none => none
  | .crash j => (s.calls[j]?).map fun c => s.put j { c with alive := false }
  | .expire k =>
    match s.redis k with
    | some e =>
      if e.expiresAt ≤ s.now then
        some { s with redis := fun k' => if k' = k then none else s.redis k' }
      else none
    | none => none
  | .tick => some { s with now := s.now + 1 }

def lts (cfg : Settings) : LTS St Lbl := LTS.ofFn (fun s => s = init) (step cfg)

end Gestalt.Payment
