import Outpost.Api.ObjectList
import Outpost.Text

/-!
# Filtering lists

A filtered list is the list without the items whose name begins with a given text.
-/

namespace Outpost.Api

def skipStart : String := "skip-"

inductive FilterError where
  | unsupported (refusal : UnsupportedResource)
  | list (error : ListError)
  deriving DecidableEq, Repr

def FilterError.message : FilterError → String
  | .unsupported refusal => refusal.message
  | .list error => error.message

structure Filtered where
  body : Bytes
  retained : Nat
  removed : Nat
  deriving DecidableEq, Repr

/-- Whether an item stays; an empty `start` drops nothing. -/
def keeps (start : String) (item : Object) : Bool :=
  start = "" || !Text.startsWith item.metadata.name start

def filterList (resource : String) (payload : Bytes) (start : String)
    (detail : Option String := none) : Except FilterError Filtered := do
  let kind ← (ResourceKind.parse resource).mapError .unsupported
  let list ← (ObjectList.decode kind payload detail).mapError .list
  let kept := list.retain (keeps start)
  return {
    body := kept.encode
    retained := kept.items.length
    removed := list.items.length - kept.items.length }

end Outpost.Api
