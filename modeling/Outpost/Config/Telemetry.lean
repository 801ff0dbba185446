import Outpost.Text

/-!
# Telemetry settings

How the process logs, and where it exports its spans to.
-/

namespace Outpost.Config

inductive LogFormat where
  | text
  | json
  deriving DecidableEq, Repr, Inhabited

namespace LogFormat

def name : LogFormat → String
  | .text => "text"
  | .json => "json"

/-- The format of a name in any ASCII case; the empty name is the text format. -/
def parse (name : String) : Except String LogFormat :=
  let lowered := Text.asciiLower name
  if lowered = "text" || lowered = "" then .ok .text
  else if lowered = "json" then .ok .json
  else .error ("unknown log format '" ++ lowered ++ "', available: text, json")

end LogFormat

structure Telemetry where
  serviceName : String
  logFormat : LogFormat
  endpoint : Option String
  token : Option String
  deriving DecidableEq, Repr, Inhabited

/-- The headers of an export: an authorization if there is a token that is not empty. -/
def Telemetry.exportHeaders (telemetry : Telemetry) : List (String × String) :=
  match telemetry.token with
  | none => []
  | some token => if token = "" then [] else [("Authorization", "Bearer " ++ token)]

end Outpost.Config
