import Mathlib.Logic.Basic

/-!
# The vocabulary of an operation

`src/ops/types.ts`, the error classes of the connector framework, and JSON values.
-/

namespace Provisioning

/-! ## JSON

A number is kept as its decimal text. -/

inductive Json where
  | null
  | bool (b : Bool)
  | num (text : String)
  | str (s : String)
  | arr (items : List Json)
  | obj (fields : List (String × Json))

namespace Json

def escapeChar (c : Char) : String :=
  if c = '"' then "\\\""
  else if c = '\\' then "\\\\"
  else if c = '\n' then "\\n"
  else if c = '\r' then "\\r"
  else if c = '\t' then "\\t"
  else if c.toNat = 8 then "\\b"
  else if c.toNat = 12 then "\\f"
  else if c.toNat < 16 then "\\u000" ++ String.singleton (Nat.digitChar c.toNat)
  else if c.toNat < 32 then "\\u001" ++ String.singleton (Nat.digitChar (c.toNat - 16))
  else String.singleton c

def quote (s : String) : String :=
  s.toList.foldl (fun acc c => acc ++ escapeChar c) "\"" ++ "\""

/-! The text that Postgres prints for a `jsonb` value. -/

mutual
def text : Json → String
  | .null => "null"
  | .bool b => if b then "true" else "false"
  | .num t => t
  | .str s => quote s
  | .arr items => "[" ++ itemsText items ++ "]"
  | .obj fields => "\x7b" ++ fieldsText fields ++ "\x7d"

def itemsText : List Json → String
  | [] => ""
  | [j] => text j
  | j :: rest => text j ++ ", " ++ itemsText rest

def fieldsText : List (String × Json) → String
  | [] => ""
  | [(k, v)] => quote k ++ ": " ++ text v
  | (k, v) :: rest => quote k ++ ": " ++ text v ++ ", " ++ fieldsText rest
end

def field (name : String) : Json → Option Json
  | .obj fields => (fields.find? fun f => f.1 = name).map (·.2)
  | _ => none

/-- `j ->> name`. -/
def fieldText (name : String) (j : Json) : Option String :=
  match j.field name with
  | none | some .null => none
  | some (.str s) => some s
  | some v => some v.text

end Json

/-! ## Statuses -/

inductive OperationOutcome where
  | succeeded
  | rejectedPreDispatch
  | failedConfirmed
  | indeterminate
  deriving DecidableEq, Repr

inductive OperationPendingStatus where
  | pending
  | running
  | awaitingReadback
  deriving DecidableEq, Repr

inductive OperationStatus where
  | live (status : OperationPendingStatus)
  | final (outcome : OperationOutcome)
  deriving DecidableEq, Repr

/-- The generated column `terminal`. -/
def OperationStatus.terminal (s : OperationStatus) : Prop :=
  s ∉ [live .pending, live .running, live .awaitingReadback]

instance (s : OperationStatus) : Decidable s.terminal :=
  inferInstanceAs (Decidable (s ∉ _))

def TERMINAL_STATUSES : List OperationOutcome :=
  [.succeeded, .rejectedPreDispatch, .failedConfirmed, .indeterminate]

@[simp] theorem OperationStatus.not_terminal_live (p : OperationPendingStatus) :
    ¬ (live p).terminal := by cases p <;> simp [terminal]

@[simp] theorem OperationStatus.terminal_final (o : OperationOutcome) : (final o).terminal := by
  simp [terminal]

/-- The two ways in which the code tests for a terminal status agree. -/
theorem OperationStatus.terminal_iff_listed (s : OperationStatus) :
    s.terminal ↔ s ∈ TERMINAL_STATUSES.map .final := by
  cases s with
  | live p => simp
  | final o => cases o <;> simp [TERMINAL_STATUSES]

theorem OperationStatus.not_terminal_iff (s : OperationStatus) : ¬ s.terminal ↔ ∃ p, s = live p := by
  cases s <;> simp

/-! ## Operations -/

inductive OperationType where
  | create
  | update
  | delete
  | addValues
  | removeValues
  deriving DecidableEq, Repr

inductive OperationPriority where
  | interactive
  | batch
  deriving DecidableEq, Repr

/-! ## Failures of the connector framework -/

inductive ConnectorErrorCode where
  | alreadyExists
  | unknownUid
  | connectionFailed
  | invalidAttribute
  | permissionDenied
  | rateLimitTarget
  | unknown
  deriving DecidableEq, Repr

def ConnectorErrorCode.text : ConnectorErrorCode → String
  | .alreadyExists => "ALREADY_EXISTS"
  | .unknownUid => "UNKNOWN_UID"
  | .connectionFailed => "CONNECTION_FAILED"
  | .invalidAttribute => "INVALID_ATTRIBUTE"
  | .permissionDenied => "PERMISSION_DENIED"
  | .rateLimitTarget => "RATE_LIMIT_TARGET"
  | .unknown => "UNKNOWN"

/-- What an awaited call can throw: a `ConnectorError`, a `DeadlineExpiredError`, which is not a
`ConnectorError`, or any other exception. -/
inductive Failure where
  | connector (code : ConnectorErrorCode) (retryable : Bool) (message : String)
  | deadlineExpired (message : String)
  | other (message : String)
  deriving DecidableEq, Repr

namespace Failure

def isDeadlineExpired : Failure → Bool
  | .deadlineExpired _ => true
  | _ => false

def isConnectorError : Failure → Bool
  | .connector .. => true
  | _ => false

def retryable : Failure → Bool
  | .connector _ retryable _ => retryable
  | _ => false

def hasCode (c : ConnectorErrorCode) : Failure → Bool
  | .connector code _ _ => code = c
  | _ => false

def message : Failure → String
  | .connector _ _ m | .deadlineExpired m | .other m => m

def codeOf : Failure → String
  | .deadlineExpired _ => "DEADLINE_EXPIRED"
  | .connector code _ _ => code.text
  | .other _ => "UNKNOWN"

end Failure

/-! ## What a connector returns -/

structure ConnectorObject where
  objectClass : String
  uid : String
  name : Option String
  attributes : List (String × Json)

def ConnectorObject.toJson (o : ConnectorObject) : Json :=
  .obj ([("objectClass", .str o.objectClass), ("uid", .str o.uid)] ++
    (o.name.map fun n => ("name", .str n)).toList ++ [("attributes", .obj o.attributes)])

structure ConnectorCapabilities where
  poolable : Bool
  idempotentDelta : Bool
  equalitySearchOnName : Bool
  deriving DecidableEq, Repr

end Provisioning
