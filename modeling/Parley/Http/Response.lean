import Parley.Json.Printer
import Parley.Store.Error

/-!
Answers to requests, and the problems that requests end in.
-/

namespace Parley.Http

inductive Body where
  | json (text : String)
  /-- A refusal in words of its own, before any route has looked at the request. -/
  | refusal
  | nothing
deriving DecidableEq, Repr, Inhabited

structure Response where
  status : Nat
  body : Body
deriving DecidableEq, Repr, Inhabited

def Response.ofJson (status : Nat) (v : Json) : Response := ⟨status, .json v.print⟩

structure FieldProblem where
  field : String
  message : String
deriving DecidableEq, Repr

structure Problem where
  status : Nat
  code : String
  message : String
  details : Option (List FieldProblem) := none
deriving DecidableEq, Repr

namespace Problem

def badRequest (message : String) : Problem := { status := 400, code := "BAD_REQUEST", message }
def unauthorized (message : String) : Problem := { status := 401, code := "UNAUTHORIZED", message }
def forbidden (message : String) : Problem := { status := 403, code := "FORBIDDEN", message }
def conflict (message : String) : Problem := { status := 409, code := "CONFLICT", message }
def internal (message : String) : Problem := { status := 500, code := "INTERNAL_ERROR", message }

def invalidField (field message : String) : Problem :=
  { status := 400, code := "VALIDATION_ERROR", message := "Validation failed", details := some [⟨field, message⟩] }

/-- What is said of a failure that is not the request's own. -/
def internalText : String := "An internal error occurred"

/-- The problem of a store's failure; only the failures that are the request's own are told. -/
def ofStore (e : Store.Error) : Problem :=
  match e.kind with
  | .invalid => badRequest e.message
  | .conflict => conflict e.message
  | .database | .unavailable => internal internalText

def json (p : Problem) : Json :=
  .object [("error", .object ([("code", .string p.code), ("message", .string p.message)] ++
    Json.optionalMember "details" (p.details.map fun ds =>
      .array (ds.map fun d => .object [("field", .string d.field), ("message", .string d.message)]))))]

def response (p : Problem) : Response := .ofJson p.status p.json

end Problem

end Parley.Http
