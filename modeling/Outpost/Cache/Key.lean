import Outpost.Api.Request

/-!
# Cache keys

A cached list is known by its kind, its namespace and the class of query it answers.
-/

namespace Outpost.Cache

open Api

inductive QueryClass where
  | default
  | consistency
  | resourceUsage
  deriving DecidableEq, Repr, Inhabited

namespace QueryClass

def all : List QueryClass := [.default, .consistency, .resourceUsage]

def name : QueryClass → String
  | .default => "default"
  | .consistency => "consistency"
  | .resourceUsage => "resourceusage"

def ofName? (text : String) : Option QueryClass :=
  all.find? fun queryClass => queryClass.name == text

def ofPolicy? : Policy → Option QueryClass
  | .unselected => some .default
  | .durable => some .consistency
  | .volatile => some .resourceUsage
  | _ => none

/-- The value of the type label that an item needs to be kept; nothing if all are kept. -/
def retainedType? : QueryClass → Option String
  | .default => none
  | queryClass => some queryClass.name

end QueryClass

structure Key where
  kind : ResourceKind
  scope : String
  queryClass : QueryClass
  deriving DecidableEq, Repr, Inhabited

namespace Key

/-- Stands for the namespace of lists of the whole cluster; no namespace may be called so. -/
def clusterScope : String := "_cluster"

def parse (resource scope : String) (queryClass : QueryClass) : Except UnsupportedResource Key :=
  (ResourceKind.parse resource).map fun kind => ⟨kind, scope, queryClass⟩

/-- The key of a request whose answer is cached: a list of an understood kind under a policy
that has a query class. -/
def ofRequest? (info : RequestInfo) : Option Key := do
  let kind ← info.supportedList?
  let queryClass ← QueryClass.ofPolicy? info.policy
  return ⟨kind, info.scope, queryClass⟩

def storageKey (key : Key) : String :=
  "cache/" ++ key.kind.name ++ "/" ++ (if key.scope = "" then clusterScope else key.scope) ++
    "/" ++ key.queryClass.name

end Key

end Outpost.Cache
