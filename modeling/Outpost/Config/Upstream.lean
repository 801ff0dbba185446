import Outpost.Url

/-!
# The upstream server

The base URL of the API server that requests go to, and the URL of a request on it.
-/

namespace Outpost.Config

inductive ConfigError where
  | noServer
  | invalidServer (address : String) (reason : UrlError)
  | invalidPath (path : String) (reason : UrlError)
  | unknownHandler (name : String)
  deriving DecidableEq, Repr

def ConfigError.message : ConfigError → String
  | .noServer => "no upstream server address configured"
  | .invalidServer address reason =>
      "invalid server address '" ++ address ++ "': " ++ reason.message
  | .invalidPath path reason => "invalid request path '" ++ path ++ "': " ++ reason.message
  | .unknownHandler name => "unknown handler '" ++ name ++ "', available: dev, sample"

structure Upstream where
  base : Url
  deriving DecidableEq, Repr, Inhabited

namespace Upstream

/-- The first entry of a comma separated list that is not blank. -/
def firstServer? (servers : String) : Option String :=
  ((Text.split ',' servers).map Text.trim).find? (· ≠ "")

/-- An entry without a scheme is meant for `https`. -/
def withScheme (server : String) : String :=
  if Text.contains server "://" then server else "https://" ++ server

def parse [Url.Domain.Mapping] (servers : String) : Except ConfigError Upstream :=
  match firstServer? servers with
  | none => .error .noServer
  | some server =>
      match Url.parse (withScheme server) with
      | .ok base => .ok ⟨base⟩
      | .error reason => .error (.invalidServer server reason)

def display (upstream : Upstream) : String := Text.dropTrailingSlashes upstream.base.render

/-- The text whose URL a request goes to: the base and the path, joined by one slash. -/
def joined (upstream : Upstream) (pathAndQuery : String) : String :=
  upstream.display ++
    (if Text.startsWith pathAndQuery "/" then pathAndQuery else "/" ++ pathAndQuery)

def urlFor [Url.Domain.Mapping] (upstream : Upstream) (pathAndQuery : String) :
    Except ConfigError Url :=
  (Url.parse (upstream.joined pathAndQuery)).mapError (.invalidPath pathAndQuery)

end Upstream

end Outpost.Config
