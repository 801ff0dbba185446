import Outpost.Http.StatusCode
import Outpost.Json.Record

/-!
# Status objects

The body of every refusal: an object of kind `Status` that API clients know how to read.
-/

namespace Outpost.Api

open Http Json

inductive StatusReason where
  | badRequest
  | forbidden
  | notFound
  | internalError
  | serviceUnavailable
  | badGateway
  deriving DecidableEq, Repr, Inhabited

namespace StatusReason

def all : List StatusReason :=
  [.badRequest, .forbidden, .notFound, .internalError, .serviceUnavailable, .badGateway]

def name : StatusReason → String
  | .badRequest => "BadRequest"
  | .forbidden => "Forbidden"
  | .notFound => "NotFound"
  | .internalError => "InternalError"
  | .serviceUnavailable => "ServiceUnavailable"
  | .badGateway => "BadGateway"

def ofName? (text : String) : Option StatusReason := all.find? fun reason => reason.name == text

@[simp] theorem ofName?_name (reason : StatusReason) : ofName? reason.name = some reason := by
  cases reason <;> decide

end StatusReason

structure StatusDetails where
  name : String
  group : String
  kind : String
  deriving DecidableEq, Repr, Inhabited

structure Status where
  kind : String
  apiVersion : String
  metadata : List (String × Value)
  status : String
  message : String
  reason : StatusReason
  details : Option StatusDetails
  code : StatusCode
  deriving Inhabited

namespace Status

/-! ## Making one -/

def failure (code : StatusCode) (reason : StatusReason) (message : String) : Status where
  kind := "Status"
  apiVersion := "v1"
  metadata := []
  status := "Failure"
  message := message
  reason := reason
  details := none
  code := code

def withDetails (status : Status) (details : StatusDetails) : Status :=
  { status with details := some details }

def badRequest (message : String) : Status := failure 400 .badRequest message

def forbidden (message : String) : Status := failure 403 .forbidden message

/-- The wording names the resource with its group, and the object in quotes if there is one. -/
def notFound (group resource name : String) : Status :=
  let qualified := if group = "" then resource else resource ++ "." ++ group
  let message :=
    if name = "" then qualified ++ " not found"
    else qualified ++ " \"" ++ name ++ "\" not found"
  (failure 404 .notFound message).withDetails ⟨name, group, resource⟩

def internalError (message : String) : Status :=
  failure 500 .internalError ("Internal error occurred: " ++ message)

def badGateway (message : String) : Status := failure 502 .badGateway message

/-! ## Writing -/

def detailsValue (details : StatusDetails) : Value :=
  .object (
    (if details.name = "" then [] else [("name", .string details.name)]) ++
    (if details.group = "" then [] else [("group", .string details.group)]) ++
    (if details.kind = "" then [] else [("kind", .string details.kind)]))

def toValue (status : Status) : Value :=
  .object (
    [("kind", .string status.kind), ("apiVersion", .string status.apiVersion),
      ("metadata", .object status.metadata), ("status", .string status.status),
      ("message", .string status.message), ("reason", .string status.reason.name)] ++
    (match status.details with
      | none => []
      | some details => [("details", detailsValue details)]) ++
    [("code", .number (.integer status.code.toNat))])

def encode (status : Status) : Bytes := status.toValue.render

/-! ## Reading -/

def codeOfRaw? : Raw → Option StatusCode
  | .number text =>
      match Num.ofText? text with
      | some (.integer value) =>
          if 0 ≤ value ∧ value < 65536 then some value.toNat.toUInt16 else none
      | _ => none
  | _ => none

def metadataOfRaw? (document : Raw) : Option (List (String × Value)) :=
  if document.depth + 1 ≤ maxDepth then
    match Value.ofRaw? document with
    | some (.object fields) => some fields
    | _ => none
  else none

/-- Details are an object, or an array of their parts of which the last may be missing. -/
def detailsOfRaw? : Raw → Option StatusDetails
  | .array parts =>
      if parts.length ≤ 3 then do
        let texts ← parts.mapM Record.text?
        return ⟨texts.getD 0 "", texts.getD 1 "", texts.getD 2 ""⟩
      else none
  | document => do
      let members ← Record.members? document
      return ⟨← Record.textOr "" (← Record.field? members "name"),
        ← Record.textOr "" (← Record.field? members "group"),
        ← Record.textOr "" (← Record.field? members "kind")⟩

def optionalDetails? : Option Raw → Option (Option StatusDetails)
  | none => some none
  | some .null => some none
  | some document => (detailsOfRaw? document).map some

def reasonOfRaw? (document : Raw) : Option StatusReason := do
  StatusReason.ofName? (← Record.choice? document)

def ofParts? (kind apiVersion metadata status message reason : Raw)
    (details : Option Raw) (code : Raw) : Option Status := do
  return {
    kind := ← Record.text? kind
    apiVersion := ← Record.text? apiVersion
    metadata := ← metadataOfRaw? metadata
    status := ← Record.text? status
    message := ← Record.text? message
    reason := ← reasonOfRaw? reason
    details := ← optionalDetails? details
    code := ← codeOfRaw? code }

/-- A status is an object, unknown fields of which are skipped, or an array of its eight parts. -/
def ofRaw? : Raw → Option Status
  | .array [kind, apiVersion, metadata, status, message, reason, details, code] =>
      ofParts? kind apiVersion metadata status message reason (some details) code
  | document => do
      let members ← Record.members? document
      ofParts? (← Record.required? members "kind") (← Record.required? members "apiVersion")
        (← Record.required? members "metadata") (← Record.required? members "status")
        (← Record.required? members "message") (← Record.required? members "reason")
        (← Record.field? members "details") (← Record.required? members "code")

def decode? (bytes : Bytes) : Option Status := do ofRaw? (← Raw.parse? bytes)

end Status

end Outpost.Api
