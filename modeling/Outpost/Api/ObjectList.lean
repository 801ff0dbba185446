import Outpost.Api.Resource

/-!
# Lists of objects

A list envelope of which only the kind, the items and the items' metadata are interpreted.  All
other fields are kept in `rest`, so that reading a list and writing it loses none of them.
-/

namespace Outpost.Api

open Json

structure ObjectMeta where
  name : String
  scope : String
  labels : List (String × String)
  rest : List (String × Value)
  deriving Inhabited

structure Object where
  metadata : ObjectMeta
  rest : List (String × Value)
  deriving Inhabited

structure ObjectList where
  kind : Option String
  items : List Object
  rest : List (String × Value)
  deriving Inhabited

/-- A payload that is no list at all, with what the reader of documents says of it, if it does. -/
structure DecodeFailure where
  kind : ResourceKind
  detail : Option String
  deriving DecidableEq, Repr

def DecodeFailure.message (failure : DecodeFailure) : String :=
  "failed to decode " ++ failure.kind.name ++ " list" ++
    (match failure.detail with
      | none => ""
      | some detail => ": " ++ detail)

inductive ListError where
  | undecodable (failure : DecodeFailure)
  | unexpectedKind (expected : ResourceKind) (found : String)
  deriving DecidableEq, Repr

def ListError.message : ListError → String
  | .undecodable failure => failure.message
  | .unexpectedKind expected found =>
      "decoded object is " ++ found ++ ", expected " ++ expected.listKind

namespace ObjectMeta

def empty : ObjectMeta := ⟨"", "", [], []⟩

def labelsOfRaw? : Option Raw → Option (List (String × String))
  | none => some []
  | some .null => some []
  | some value => do
      let members ← Record.members? value
      let labels ← members.mapM fun (name, label) => do return (name, ← Record.text? label)
      return Fields.ofList labels

def ofRaw? (document : Raw) : Option ObjectMeta := do
  let members ← Record.members? document
  let name ← Record.textOr "" (← Record.field? members "name")
  let scope ← Record.textOr "" (← Record.field? members "namespace")
  let labels ← labelsOfRaw? (← Record.field? members "labels")
  let rest ← Record.others? members ["name", "namespace", "labels"]
  return ⟨name, scope, labels, rest⟩

/-- Empty names, namespaces and label maps are not written. -/
def toValue (metadata : ObjectMeta) : Value :=
  .object (
    (if metadata.name = "" then [] else [("name", .string metadata.name)]) ++
    (if metadata.scope = "" then [] else [("namespace", .string metadata.scope)]) ++
    (if metadata.labels.isEmpty then []
      else
        [("labels", .object (metadata.labels.map fun (name, label) => (name, .string label)))]) ++
    metadata.rest)

end ObjectMeta

namespace Object

def ofRaw? (document : Raw) : Option Object := do
  let members ← Record.members? document
  let metadata ← match ← Record.field? members "metadata" with
    | none => some ObjectMeta.empty
    | some value => ObjectMeta.ofRaw? value
  let rest ← Record.others? members ["metadata"]
  return ⟨metadata, rest⟩

def toValue (object : Object) : Value :=
  .object (("metadata", object.metadata.toValue) :: object.rest)

def label? (object : Object) (name : String) : Option String :=
  Fields.find? object.metadata.labels name

end Object

namespace ObjectList

def itemsOfRaw? : Option Raw → Option (List Object)
  | none => some []
  | some .null => some []
  | some (.array items) => items.mapM Object.ofRaw?
  | some _ => none

def kindOfRaw? : Option Raw → Option (Option String)
  | none => some none
  | some .null => some none
  | some value => (Record.text? value).map some

def ofRaw? (document : Raw) : Option ObjectList := do
  let members ← Record.members? document
  let kind ← kindOfRaw? (← Record.field? members "kind")
  let items ← itemsOfRaw? (← Record.field? members "items")
  let rest ← Record.others? members ["kind", "items"]
  return ⟨kind, items, rest⟩

def parse? (payload : Bytes) : Option ObjectList := do
  let document ← Raw.parse? payload
  if document.depth ≤ maxDepth then ofRaw? document else none

/-- Reads a payload as a list of `expected`.  A list that names no kind is accepted, one that
names another kind is not.  The reader's own words for a payload that is no list are `detail`. -/
def decode (expected : ResourceKind) (payload : Bytes) (detail : Option String := none) :
    Except ListError ObjectList :=
  match parse? payload with
  | none => .error (.undecodable ⟨expected, detail⟩)
  | some list =>
      match list.kind with
      | none => .ok list
      | some found =>
          if found = expected.listKind then .ok list
          else .error (.unexpectedKind expected found)

def toValue (list : ObjectList) : Value :=
  .object (
    (match list.kind with
      | none => []
      | some kind => [("kind", .string kind)]) ++
    ("items", .array (list.items.map Object.toValue)) :: list.rest)

def encode (list : ObjectList) : Bytes := list.toValue.render

def retain (test : Object → Bool) (list : ObjectList) : ObjectList :=
  { list with items := list.items.filter test }

end ObjectList

end Outpost.Api
