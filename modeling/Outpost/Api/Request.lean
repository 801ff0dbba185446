import Outpost.Api.Resource
import Outpost.Http.Target
import Outpost.Percent
import Outpost.Text

/-!
# What a request asks for

A request is read once, from its method and target: the verb, the resource it names, and the
policy that its label selector asks for.  Segments of the path are taken as written; keys and
values of the query are decoded.
-/

namespace Outpost.Api

open Http

/-! ## Policies -/

inductive Policy where
  | passthrough
  | functional
  | filter
  | volatile
  | durable
  | unselected
  | other
  deriving DecidableEq, Repr, Inhabited

namespace Policy

def tokens : List (String × Policy) :=
  [("type=benchmark", .passthrough), ("type=functional", .functional), ("type=filter", .filter),
    ("type=resourceusage", .volatile), ("type=consistency", .durable)]

/-- The policy of the first token that occurs anywhere in the selector. -/
def ofSelector (selector : String) : Policy :=
  if selector = "" then .unselected
  else ((tokens.find? fun token => Text.contains selector token.1).map (·.2)).getD .other

end Policy

/-! ## Verbs -/

inductive Verb where
  | get
  | list
  | watch
  | create
  | update
  | patch
  | delete
  | deleteCollection
  | other
  deriving DecidableEq, Repr, Inhabited

namespace Verb

def name : Verb → String
  | .get => "get"
  | .list => "list"
  | .watch => "watch"
  | .create => "create"
  | .update => "update"
  | .patch => "patch"
  | .delete => "delete"
  | .deleteCollection => "deletecollection"
  | .other => "other"

def isRead : Verb → Bool
  | .get | .list | .watch => true
  | _ => false

def ofMethod (method : Method) : Verb :=
  if method = "GET" || method = "HEAD" then .get
  else if method = "POST" then .create
  else if method = "PUT" then .update
  else if method = "PATCH" then .patch
  else if method = "DELETE" then .delete
  else .other

def onCollection (watching : Bool) : Verb → Verb
  | .get => if watching then .watch else .list
  | .delete => .deleteCollection
  | verb => verb

end Verb

/-! ## Queries -/

/-- A key or value of a query: plus signs are blanks, and percent codes stand for bytes unless
the result is no text. -/
def decodeComponent (raw : String) : String :=
  let spaced := raw.map fun char => if char = '+' then ' ' else char
  (Bytes.text? (Percent.decode (Bytes.ofText spaced))).getD spaced

/-- The parameters of a query in order; one without an equals sign has an empty value. -/
def queryParameters (query : String) : List (String × String) :=
  ((query.toList.splitOn '&').filter fun pair => !pair.isEmpty).map fun pair =>
    (decodeComponent (String.ofList (pair.takeWhile (· ≠ '='))),
      decodeComponent (String.ofList ((pair.dropWhile (· ≠ '=')).drop 1)))

def parameter (parameters : List (String × String)) (name : String) : String :=
  ((parameters.find? fun pair => pair.1 == name).map (·.2)).getD ""

def isWatching (parameters : List (String × String)) : Bool :=
  parameters.any fun pair => pair.1 == "watch" && (pair.2 == "true" || pair.2 == "1")

/-! ## Paths -/

def segments (path : String) : List String :=
  (Text.split '/' path).filter (· ≠ "")

structure ResourcePath where
  group : String
  version : String
  legacyWatch : Bool
  /-- The namespace; empty for the whole cluster. -/
  scope : String
  resource : String
  name : String
  subresource : String
  deriving DecidableEq, Repr, Inhabited

namespace ResourcePath

/-- A namespace followed by anything but its own subresources encloses what follows. -/
def splitScope : List String → String × List String
  | "namespaces" :: scope :: kind :: rest =>
      if kind = "status" || kind = "finalize" then
        (scope, "namespaces" :: scope :: kind :: rest)
      else (scope, kind :: rest)
  | "namespaces" :: scope :: rest => (scope, "namespaces" :: scope :: rest)
  | rest => ("", rest)

def splitWatch : List String → Bool × List String
  | "watch" :: next :: rest => (true, next :: rest)
  | rest => (false, rest)

def ofCollection? (group version : String) (collection : List String) : Option ResourcePath :=
  if collection.isEmpty then none
  else
    let (legacyWatch, afterWatch) := splitWatch collection
    let (scope, parts) := splitScope afterWatch
    some {
      group, version, legacyWatch, scope
      resource := parts.getD 0 ""
      name := parts.getD 1 ""
      subresource := parts.getD 2 "" }

def ofSegments? : List String → Option ResourcePath
  | "api" :: version :: collection => ofCollection? "" version collection
  | "apis" :: group :: version :: collection => ofCollection? group version collection
  | _ => none

end ResourcePath

/-! ## Requests -/

structure RequestInfo where
  method : Method
  verb : Verb
  isResourceRequest : Bool
  apiGroup : String
  apiVersion : String
  scope : String
  resource : String
  name : String
  subresource : String
  labelSelector : String
  policy : Policy
  path : String
  deriving DecidableEq, Repr, Inhabited

namespace RequestInfo

/-- The verb of a resource request: the legacy segment watches, and without a name the verb is
that on the collection. -/
def verbOn (method : Method) (resource : ResourcePath) (watching : Bool) : Verb :=
  let verb := if resource.legacyWatch then .watch else Verb.ofMethod method
  if resource.name = "" then verb.onCollection watching else verb

def classify (method : Method) (target : Target) : RequestInfo :=
  let parameters := queryParameters (target.query.getD "")
  let selector := parameter parameters "labelSelector"
  let path := target.pathAndQuery.getD target.path
  match ResourcePath.ofSegments? (segments target.path) with
  | none =>
      { method, verb := Verb.ofMethod method, isResourceRequest := false, apiGroup := "",
        apiVersion := "", scope := "", resource := "", name := "", subresource := "",
        labelSelector := selector, policy := Policy.ofSelector selector, path }
  | some resource =>
      { method, verb := verbOn method resource (isWatching parameters), isResourceRequest := true,
        apiGroup := resource.group, apiVersion := resource.version, scope := resource.scope,
        resource := resource.resource, name := resource.name,
        subresource := resource.subresource, labelSelector := selector,
        policy := Policy.ofSelector selector, path }

/-- The kind of a GET list of an understood resource.  A HEAD of one carries no body. -/
def supportedList? (info : RequestInfo) : Option ResourceKind :=
  if info.method = Method.get ∧ info.verb = .list ∧ info.subresource = "" then
    ResourceKind.ofName? info.resource
  else none

def render (info : RequestInfo) : String :=
  if info.isResourceRequest then
    info.verb.name ++ " " ++ info.resource ++
      (if info.subresource = "" then "" else "/" ++ info.subresource) ++ ": " ++ info.path
  else info.verb.name ++ " " ++ info.path

end RequestInfo

end Outpost.Api
