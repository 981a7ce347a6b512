/-!
# Errors and calls between services

`AppError` is what a handler raises to answer with the error envelope
`{ "error": { "code", "message", "requestId" } }`; the request id differs from
call to call and is not modelled.

A call from one service to another ends in one of three ways (`Delivery`): it
is handled and answered; it is handled but the caller sees something else (a
timeout, a reset connection, a 5xx raised after the callee's commit); or it
never takes effect. `Response` is what `httpx` shows the caller.
-/
namespace Gestalt

/-- mirrors shared/gestalt_shared/errors.py:17-24 -/
structure AppError where
  code : String
  message : String
  status : Nat
  deriving DecidableEq, Repr

/-- FastAPI's answer to a body that fails its pydantic model; the message is
pydantic's own text.
mirrors shared/gestalt_shared/errors.py:51-56 -/
def validationError : AppError := ⟨"VALIDATION_ERROR", "", 422⟩

/-- mirrors shared/gestalt_shared/errors.py:58-64 -/
def internalError : AppError := ⟨"INTERNAL_ERROR", "An unexpected error occurred", 500⟩

/-- What a caller sees of a call: `httpx.HTTPError`, or a status code with the
`code` of the error envelope, if the body is one. -/
inductive Response
  | httpError (exc : String)
  | status (code : Nat) (errorCode : Option String)
  deriving DecidableEq, Repr

/-- What the caller sees instead of the callee's own answer. -/
inductive Fault
  | httpError (exc : String)
  | serverError (code : Nat) (h : 500 ≤ code)
  deriving DecidableEq, Repr

def Fault.response : Fault → Response
  | .httpError exc => .httpError exc
  | .serverError code _ => .status code none

inductive Delivery
  | answered
  | lost (f : Fault)
  | dropped (f : Fault)
  deriving DecidableEq, Repr

/-- The call takes effect at the callee. -/
def Delivery.handled : Delivery → Bool
  | .answered => true
  | .lost _ => true
  | .dropped _ => false

/-- What the caller sees, given the callee's own answer. -/
def Delivery.seen (r : Response) : Delivery → Response
  | .answered => r
  | .lost f => f.response
  | .dropped f => f.response

/-- A handler's outcome on the wire. -/
def wire {α : Type} : Except AppError α → Response
  | .ok _ => .status 200 none
  | .error e => .status e.status (some e.code)

def Response.ok : Response → Bool
  | .status 200 _ => true
  | _ => false

@[simp] theorem Fault.response_ok (f : Fault) : f.response.ok = false := by
  cases f with
  | httpError exc => rfl
  | serverError code h =>
    simp only [Fault.response, Response.ok]
    split
    · rename_i he; simp only [Response.status.injEq] at he; omega
    · rfl

end Gestalt
