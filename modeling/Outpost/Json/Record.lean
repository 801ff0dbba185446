import Outpost.Json.Value

/-!
# Records

Reading an object whose fields are known: a declared field may be written at most once, and what
is not declared is either kept or skipped.
-/

namespace Outpost.Json.Record

def members? : Raw → Option (List (String × Raw))
  | .object members => members.mapM fun (key, value) => do return (← Quoted.text? key, value)
  | _ => none

/-- The value of a declared field, if it is written; nothing if it is written twice. -/
def field? (members : List (String × Raw)) (name : String) : Option (Option Raw) :=
  match members.filter fun member => member.1 == name with
  | [] => some none
  | [(_, value)] => some (some value)
  | _ => none

def required? (members : List (String × Raw)) (name : String) : Option Raw := do
  (← field? members name)

def others? (members : List (String × Raw)) (declared : List String) :
    Option (List (String × Value)) := do
  let fields ← (members.filter fun member => !declared.contains member.1).mapM
    fun (name, value) => do return (name, ← Value.ofRaw? value)
  return Fields.ofList fields

def text? : Raw → Option String
  | .string body => Quoted.text? body
  | _ => none

def textOr (default : String) : Option Raw → Option String
  | none => some default
  | some value => text? value

/-- The one name of a choice, written as a text or as an object whose only field is null. -/
def choice? : Raw → Option String
  | .string body => Quoted.text? body
  | .object [(key, .null)] => Quoted.text? key
  | _ => none

end Outpost.Json.Record
