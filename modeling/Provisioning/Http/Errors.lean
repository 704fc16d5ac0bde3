import Provisioning.Http.Filter
import Provisioning.Http.OperationStatus

/-!
# Errors over HTTP

`src/http/errors.ts`: the status and the body that answer what a route throws.
-/

namespace Provisioning.Http

/-- What a route can hand to `next`. -/
inductive HttpError where
  | admission (e : AdmissionRejectedError)
  /-- An `ApplicationRegistrationError`. -/
  | registration (message : String)
  | filterSyntax (e : FilterSyntaxError)
  /-- A `ValidationError`. -/
  | validation (message : String)
  | failure (f : Failure)

def RouteError.toHttp : RouteError → HttpError
  | .validation message => .validation message
  | .rejected e => .admission e
  | .failure f => .failure f

def CONNECTOR_ERROR_STATUS : ConnectorErrorCode → Nat
  | .unknownUid => 404
  | .invalidAttribute => 400
  | .alreadyExists => 409
  | .permissionDenied => 403
  | .connectionFailed => 502
  | .rateLimitTarget => 429
  | .unknown => 500

def problem (error message : String) : Json := .obj [("error", .str error), ("message", .str message)]

def admissionProblem (e : AdmissionRejectedError) : Json :=
  .obj [("error", .str "admission_rejected"), ("message", .str e.message),
    ("backlogDepth", .num (toString e.backlogDepth)), ("priority", .str e.priority.text)]

def isUnregisteredInstance (message : String) : Bool := "is not registered".toList <:+: message.toList

def isUnsupportedOp (message : String) : Bool := "not supported".toList <:+ message.toList

def isShuttingDown (message : String) : Bool := "is shutting down".toList <:+: message.toList

def mapError : HttpError → Response
  | .admission e => ⟨429, admissionProblem e⟩
  | .registration message => ⟨400, problem "invalid_application" message⟩
  | .filterSyntax e => ⟨400, problem "invalid_filter" e.message⟩
  | .validation message => ⟨400, problem "validation_failed" message⟩
  | .failure (.connector code _ message) =>
    ⟨CONNECTOR_ERROR_STATUS code, problem (toLowerCase code.text.toList) message⟩
  | .failure (.deadlineExpired message) => ⟨504, problem "deadline_expired" message⟩
  | .failure (.other message) =>
    if isUnregisteredInstance message ∨ isUnsupportedOp message then ⟨404, problem "not_found" message⟩
    else if isShuttingDown message then ⟨503, problem "unavailable" message⟩
    else ⟨500, problem "internal_error" "An internal error occurred"⟩

end Provisioning.Http
