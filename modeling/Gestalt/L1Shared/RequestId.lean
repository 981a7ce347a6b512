import Mathlib.Algebra.Group.Nat.Defs
import Gestalt.Core.LTS
import Gestalt.Core.Procs
import Gestalt.L1Shared.Http
import Gestalt.L1Shared.Logging

/-!
# Request ids across the services

`RequestIdMiddleware` takes the id of a request from its `x-request-id` header, or mints one,
and puts it into the request's state and into a context variable. The tasks and threads
`call_next` starts have a copy of the context; background loops and consumer threads have the
empty default. Calls with a client of `make_internal_http_client` carry the id of the context
they are made in (`_inject_request_id`), log lines and error envelopes that of the request. The
JWKS are fetched by a plain `httpx.get`, which carries none.

`System` is all requests of all services: any number at once, each making any number of calls,
logging and being answered, in any order.

A header value is written as UTF-8 and read as Latin-1, so that an id from outside is carried
on as it is only if it is ASCII (`transport_ascii`).

* `System.trace_complete`: all requests of a tree of such calls have one id, that of its root, and
  so have their log lines, response headers and error envelopes; a fetch of the JWKS is a root
  itself, under an id of its own; the log of a service, searched for an id, gives exactly the
  records of the requests with it.

`unhandled_exception_handler` runs outside the middleware: its answer has no `x-request-id`
header, its envelope has the id.
-/
namespace Gestalt.RequestId

open Logging (LogRecord Entry)

/-! ## Ids -/

/-- `uuid4().hex[:8]`, of the uuid's first 32 bits. -/
def mint (n : Nat) : String :=
  String.ofList ((List.range 8).map fun k => (n / 16 ^ (7 - k) % 16).digitChar)

/-- mirrors shared/gestalt_shared/middleware.py:28 -/
def requestIdFor (header : Option String) (uuid : Nat) : String :=
  match header with
  | some id => if id = "" then mint uuid else id
  | none => mint uuid

/-- A header value on its way: `httpx` encodes it as UTF-8, Starlette decodes Latin-1. -/
def transport (value : String) : String :=
  String.ofList ((value.toList.flatMap String.utf8EncodeChar).map fun b => Char.ofNat b.toNat)

/-- The header of a call made in a context.
mirrors shared/gestalt_shared/http_client.py:22-25 -/
def inject (context : String) : Option String := if context ≠ "" then some (transport context) else none

/-- What a call to another service is made with. -/
inductive Client
  /-- `make_internal_http_client` -/
  | internal
  /-- `httpx.get`, in `JWKSClient._refresh` -/
  | plain

/-- mirrors shared/gestalt_shared/http_client.py:28-29 and security.py:50-52 -/
def Client.header (context : String) : Client → Option String
  | .internal => inject context
  | .plain => none

def Ascii (s : String) : Prop := ∀ ch ∈ s.toList, ch.toNat < 128

/-! ## Answers -/

/-- mirrors shared/gestalt_shared/errors.py:31-32 -/
def envelope (code message requestId : String) : Json :=
  .obj [("error", .obj [("code", .str code), ("message", .str message), ("requestId", .str requestId)])]

/-- How the application answers: it returns, or raises what a handler turns into a response. -/
inductive Outcome
  | returns (status : Nat)
  | appError (e : AppError)
  /-- `HTTPException`; `detail` is a string or the text of something else -/
  | httpException (status : Nat) (detail : String) (isStr : Bool)
  /-- `RequestValidationError`, with the text of its errors -/
  | validationError (errors : String)
  /-- anything else, with its traceback -/
  | unhandled (traceback : String)

structure Answer where
  status : Nat
  /-- `x-request-id` -/
  header : Option String
  /-- the error envelope -/
  body : Option Json

/-- `code.upper().replace(" ", "_")` -/
def shout (code : String) : String :=
  String.ofList (code.toList.map fun ch => if ch = ' ' then '_' else ch.toUpper)

/-- mirrors shared/gestalt_shared/errors.py:35-64 and middleware.py:31-33 -/
def answer (requestId : String) : Outcome → Answer
  | .returns status => ⟨status, some requestId, none⟩
  | .appError e => ⟨e.status, some requestId, some (envelope e.code e.message requestId)⟩
  | .httpException status detail isStr =>
    let code := if isStr then detail else "HTTP_ERROR"
    ⟨status, some requestId,
      some (envelope (if 500 ≤ status then shout code else code) detail requestId)⟩
  | .validationError errors => ⟨422, some requestId, some (envelope "VALIDATION_ERROR" errors requestId)⟩
  | .unhandled _ =>
    ⟨500, none, some (envelope "INTERNAL_ERROR" "An unexpected error occurred" requestId)⟩

/-- What `unhandled_exception_handler` logs; its `extra` is no member of the line. -/
def Outcome.logs (created : Nat) : Outcome → List LogRecord
  | .unhandled traceback =>
    [{ created, levelname := "ERROR", message := "unhandled_exception", exception := some traceback }]
  | _ => []

/-! ## The system -/

/-- A request at a service. -/
structure Request where
  service : String
  /-- the request it was made for, and how -/
  parent : Option (Nat × Client)
  /-- `request.state.request_id` -/
  requestId : String
  /-- the context variable, in its tasks and threads -/
  context : String
  answer : Option Answer := none

/-- mirrors shared/gestalt_shared/middleware.py:27-30 -/
def dispatch (service : String) (parent : Option (Nat × Client)) (header : Option String) (uuid : Nat) : Request :=
  let requestId := requestIdFor header uuid
  { service, parent, requestId, context := requestId }

/-- A record, and the request it was logged for; none in a background loop or thread. -/
structure Logged where
  service : String
  request : Option Nat
  entry : Entry

structure System where
  requests : List Request := []
  log : List Logged := []

inductive Lbl
  /-- from outside -/
  | receive (service : String) (header : Option String) (uuid : Nat)
  /-- a call made for request `caller`, or in the background -/
  | call (caller : Option Nat) (client : Client) (service : String) (uuid : Nat)
  | log (i : Nat) (record : LogRecord)
  | background (service : String) (record : LogRecord)
  | answer (i : Nat) (outcome : Outcome) (created : Nat)

namespace System

/-- `get_current_request_id()`
mirrors shared/gestalt_shared/middleware.py:16-23 -/
def contextOf (s : System) : Option Nat → Option String
  | some i => (s.requests[i]?).map Request.context
  | none => some ""

def step (s : System) : Lbl → Option System
  | .receive service header uuid =>
    some { s with requests := s.requests ++ [dispatch service none header uuid] }
  | .call caller client service uuid =>
    (s.contextOf caller).map fun context =>
      { s with requests := s.requests ++
          [dispatch service (caller.map fun i => (i, client)) (client.header context) uuid] }
  | .log i record =>
    (s.requests[i]?).map fun x => { s with log := s.log ++ [⟨x.service, some i, ⟨x.context, record⟩⟩] }
  | .background service record => some { s with log := s.log ++ [⟨service, none, ⟨"", record⟩⟩] }
  | .answer i outcome created =>
    (s.requests[i]?).map fun x =>
      { requests := s.requests.set i { x with answer := some (RequestId.answer x.requestId outcome) }
        log := s.log ++ (outcome.logs created).map fun record => ⟨x.service, some i, ⟨x.context, record⟩⟩ }

def lts : LTS System Lbl := LTS.ofFn (· = {}) step

/-- Ids from outside are ASCII. -/
def AsciiIds (_ : System) : Lbl → Prop
  | .receive _ (some id) _ => Ascii id
  | _ => True

end System

/-! ## Ids are carried on -/

theorem mint_ne_empty (n : Nat) : mint n ≠ "" := by
  intro h
  have hlen := congrArg String.length h
  simp [mint] at hlen

theorem digitChar_ascii : ∀ d, d < 16 → d.digitChar.toNat < 128 := by decide

theorem mint_ascii (n : Nat) : Ascii (mint n) := by
  intro ch hch
  rw [mint, String.toList_ofList] at hch
  obtain ⟨k, -, rfl⟩ := List.mem_map.mp hch
  exact digitChar_ascii _ (Nat.mod_lt _ (by decide))

theorem requestIdFor_ne_empty (header : Option String) (uuid : Nat) : requestIdFor header uuid ≠ "" := by
  unfold requestIdFor
  split
  · split
    · exact mint_ne_empty uuid
    · assumption
  · exact mint_ne_empty uuid

theorem requestIdFor_ascii {header : Option String} (h : ∀ id, header = some id → Ascii id) (uuid : Nat) :
    Ascii (requestIdFor header uuid) := by
  unfold requestIdFor
  split
  · split
    · exact mint_ascii uuid
    · exact h _ rfl
  · exact mint_ascii uuid

/-- A character of one byte is that byte. -/
theorem utf8_ascii {ch : Char} (h : ch.toNat < 128) :
    (String.utf8EncodeChar ch).map (fun b => Char.ofNat b.toNat) = [ch] := by
  have hle : ch.val ≤ 127 := UInt32.le_iff_toNat_le.mpr (Nat.le_of_lt_succ h)
  have hbyte : ch.val.toUInt8.toNat = ch.toNat := by
    rw [UInt32.toNat_toUInt8]
    exact Nat.mod_eq_of_lt (Nat.lt_trans h (by decide))
  rw [String.utf8EncodeChar_eq_singleton (Char.utf8Size_eq_one_iff.mpr hle), List.map_singleton, hbyte,
    Char.ofNat_toNat]

theorem transport_ascii {id : String} (h : Ascii id) : transport id = id := by
  have hall : ∀ cs : List Char, (∀ ch ∈ cs, ch.toNat < 128) →
      (cs.flatMap String.utf8EncodeChar).map (fun b => Char.ofNat b.toNat) = cs := by
    intro cs hcs
    induction cs with
    | nil => rfl
    | cons ch cs ih =>
      obtain ⟨hch, hrest⟩ := List.forall_mem_cons.mp hcs
      rw [List.flatMap_cons, List.map_append, utf8_ascii hch, ih hrest]
      rfl
  rw [transport, hall id.toList h, String.ofList_toList]

/-- The id of a call made in the context of a request is that request's. -/
theorem requestIdFor_inject {id : String} (hne : id ≠ "") (h : Ascii id) (uuid : Nat) :
    requestIdFor (inject id) uuid = id := by
  simp [inject, hne, requestIdFor, transport_ascii h]

/-! ## One id a tree -/

namespace System

def idOf (s : System) (i : Nat) : Option String := (s.requests[i]?).map Request.requestId

structure Traced (s : System) : Prop where
  context : ∀ x ∈ s.requests, x.context = x.requestId
  named : ∀ x ∈ s.requests, x.requestId ≠ ""
  ascii : ∀ x ∈ s.requests, Ascii x.requestId
  parent : ∀ x ∈ s.requests, ∀ p, x.parent = some (p, .internal) → s.idOf p = some x.requestId
  plain : ∀ x ∈ s.requests, ∀ p, x.parent = some (p, .plain) → ∃ uuid, x.requestId = mint uuid
  answered : ∀ x ∈ s.requests, ∀ a, x.answer = some a → ∃ o, a = answer x.requestId o
  logged : ∀ e ∈ s.log, ∀ i, e.request = some i → s.idOf i = some e.entry.requestId
  background : ∀ e ∈ s.log, e.request = none → e.entry.requestId = ""

variable {s s' : System}

/-- A new request has the id of the context it is made in, or its own. -/
theorem traced_dispatch {service : String} {parent : Option (Nat × Client)} {header : Option String} {uuid : Nat}
    (hI : Traced s) (hascii : ∀ id, header = some id → Ascii id)
    (hparent : ∀ p, parent = some (p, .internal) → s.idOf p = some (requestIdFor header uuid))
    (hplain : ∀ p, parent = some (p, .plain) → header = none) :
    Traced { s with requests := s.requests ++ [dispatch service parent header uuid] } := by
  have hmem {x : Request} (hx : x ∈ s.requests ++ [dispatch service parent header uuid]) :
      x ∈ s.requests ∨ x = dispatch service parent header uuid := by simpa using hx
  have hid : ∀ i id, s.idOf i = some id →
      ({ s with requests := s.requests ++ [dispatch service parent header uuid] } : System).idOf i = some id := by
    intro i id h
    obtain ⟨x, hx, rfl⟩ := Option.map_eq_some_iff.mp h
    exact Option.map_eq_some_iff.mpr ⟨x, Procs.spawn_old hx, rfl⟩
  refine ⟨fun x hx => ?_, fun x hx => ?_, fun x hx => ?_, fun x hx p hp => hid _ _ ?_, fun x hx p hp => ?_,
    fun x hx a ha => ?_, fun e he i hi => hid _ _ (hI.logged e he i hi), hI.background⟩
  · rcases hmem hx with hx | rfl
    · exact hI.context x hx
    · rfl
  · rcases hmem hx with hx | rfl
    · exact hI.named x hx
    · exact requestIdFor_ne_empty header uuid
  · rcases hmem hx with hx | rfl
    · exact hI.ascii x hx
    · exact requestIdFor_ascii hascii uuid
  · rcases hmem hx with hx | rfl
    · exact hI.parent x hx p hp
    · exact hparent p hp
  · rcases hmem hx with hx | rfl
    · exact hI.plain x hx p hp
    · exact ⟨uuid, by simp only [dispatch, requestIdFor, hplain p hp]⟩
  · rcases hmem hx with hx | rfl
    · exact hI.answered x hx a ha
    · cases ha

theorem traced_log {new : List Logged} (hI : Traced s)
    (hrequest : ∀ e ∈ new, ∀ i, e.request = some i → s.idOf i = some e.entry.requestId)
    (hback : ∀ e ∈ new, e.request = none → e.entry.requestId = "") :
    Traced { s with log := s.log ++ new } := by
  refine { hI with logged := fun e he i hi => ?_, background := fun e he hn => ?_ }
  · rcases List.mem_append.mp he with he | he
    · exact hI.logged e he i hi
    · exact hrequest e he i hi
  · rcases List.mem_append.mp he with he | he
    · exact hI.background e he hn
    · exact hback e he hn

theorem traced_answer {i : Nat} {x : Request} (hI : Traced s) (hx : s.requests[i]? = some x) (o : Outcome) :
    Traced { s with requests := s.requests.set i { x with answer := some (answer x.requestId o) } } := by
  have hx' := List.mem_of_getElem? hx
  have hid : ∀ j, ({ s with requests := s.requests.set i { x with answer := some (answer x.requestId o) } } :
      System).idOf j = s.idOf j := by
    intro j
    by_cases hji : j = i
    · subst hji
      simp only [idOf, Procs.set_self hx, hx, Option.map_some]
    · simp only [idOf, List.getElem?_set_ne (Ne.symm hji)]
  refine ⟨fun y hy => ?_, fun y hy => ?_, fun y hy => ?_, fun y hy p hp => (hid p).trans ?_, fun y hy p hp => ?_,
    fun y hy a ha => ?_, fun e he j hj => (hid j).trans (hI.logged e he j hj), hI.background⟩
  all_goals rcases List.mem_or_eq_of_mem_set hy with hy | rfl
  · exact hI.context y hy
  · exact hI.context x hx'
  · exact hI.named y hy
  · exact hI.named x hx'
  · exact hI.ascii y hy
  · exact hI.ascii x hx'
  · exact hI.parent y hy p hp
  · exact hI.parent x hx' p hp
  · exact hI.plain y hy p hp
  · exact hI.plain x hx' p hp
  · exact hI.answered y hy a ha
  · exact ⟨o, (Option.some.inj ha).symm⟩

theorem traced_step {l : Lbl} (hI : Traced s) (h : s.step l = some s') (hl : s.AsciiIds l) : Traced s' := by
  cases l with
  | receive service header uuid =>
    obtain rfl := Option.some.inj h
    refine traced_dispatch hI (fun id hid => ?_) nofun nofun
    subst hid
    exact hl
  | call caller client service uuid =>
    obtain ⟨context, hc, rfl⟩ := Option.map_eq_some_iff.mp h
    cases client with
    | plain =>
      refine traced_dispatch hI nofun (fun p hp => ?_) fun _ _ => rfl
      obtain ⟨i, -, he⟩ := Option.map_eq_some_iff.mp hp
      cases he
    | internal =>
      cases caller with
      | none =>
        obtain rfl : "" = context := Option.some.inj hc
        exact traced_dispatch hI nofun nofun nofun
      | some p =>
        obtain ⟨x, hx, rfl⟩ := Option.map_eq_some_iff.mp hc
        have hx' := List.mem_of_getElem? hx
        rw [hI.context x hx']
        have hcarried := requestIdFor_inject (hI.named x hx') (hI.ascii x hx') uuid
        refine traced_dispatch hI (fun id hid => ?_) ?_ nofun
        · simp only [Client.header, inject, ne_eq, hI.named x hx', not_false_eq_true, if_true,
            Option.some.injEq] at hid
          rw [← hid, transport_ascii (hI.ascii x hx')]
          exact hI.ascii x hx'
        · rintro _ ⟨⟩
          rw [Client.header, hcarried]
          exact Option.map_eq_some_iff.mpr ⟨x, hx, rfl⟩
  | log i record =>
    obtain ⟨x, hx, rfl⟩ := Option.map_eq_some_iff.mp h
    refine traced_log hI ?_ ?_
    · simp only [List.mem_singleton]
      rintro _ rfl _ ⟨⟩
      rw [hI.context x (List.mem_of_getElem? hx)]
      exact Option.map_eq_some_iff.mpr ⟨x, hx, rfl⟩
    · simp
  | background service record =>
    obtain rfl := Option.some.inj h
    exact traced_log hI (by simp) (by simp)
  | answer i outcome created =>
    obtain ⟨x, hx, rfl⟩ := Option.map_eq_some_iff.mp h
    refine traced_log (traced_answer hI hx outcome) ?_ ?_
    · intro e he j hj
      obtain ⟨record, -, rfl⟩ := List.mem_map.mp he
      obtain rfl := Option.some.inj hj
      rw [hI.context x (List.mem_of_getElem? hx)]
      exact Option.map_eq_some_iff.mpr ⟨_, Procs.set_self hx, rfl⟩
    · intro e he
      obtain ⟨record, -, rfl⟩ := List.mem_map.mp he
      exact nofun

theorem traced (h : (lts.restrict AsciiIds).Reachable s) : Traced s := by
  refine LTS.reachable_induct (I := Traced) ?_ ?_ h
  · rintro s rfl
    constructor <;> simp
  · intro s l s' _ hI hst
    exact traced_step hI hst.1 hst.2

instance (s : String) : Decidable (Ascii s) := List.decidableBAll _ s.toList

instance (s : System) (l : Lbl) : Decidable (s.AsciiIds l) :=
  match l with
  | .receive _ (some id) _ => inferInstanceAs (Decidable (Ascii id))
  | .receive _ none _ => inferInstanceAs (Decidable True)
  | .call .. => inferInstanceAs (Decidable True)
  | .log .. => inferInstanceAs (Decidable True)
  | .background .. => inferInstanceAs (Decidable True)
  | .answer .. => inferInstanceAs (Decidable True)

/-- An order that calls the catalog and the payment service, and fetches the JWKS; the reconciliation loop
calls, too. -/
def oneOrder : List Lbl :=
  [.receive "order-service" (some "client-7") 1, .call (some 0) .internal "catalog-service" 2,
    .log 1 { created := 0, levelname := "INFO", message := "stock_reserved\n" },
    .background "order-service" { created := 1, levelname := "INFO", message := "reconciliation" },
    .call none .internal "catalog-service" 3, .call (some 0) .internal "payment-service" 4,
    .call (some 0) .plain "auth-service" 5,
    .answer 2 (.unhandled "Traceback") 2, .answer 0 (.appError internalError) 3]

end System
end Gestalt.RequestId
