import Outpost.Config.Upstream
import Outpost.Proxy.Error

/-!
# Forwarding

What a request becomes on its way to the upstream, and a reply on its way back.  Headers that
belong to one connection are dropped in either direction, except that an upgrade request keeps
those that ask for the upgrade.
-/

namespace Outpost.Proxy

open Config Http

/-- Headers that concern one connection only. -/
def hopByHop : List String :=
  ["connection", "keep-alive", "proxy-authenticate", "proxy-authorization", "te", "trailer",
    "transfer-encoding", "upgrade"]

def isHopByHop (name : String) : Bool := hopByHop.contains name

/-- Whether some token of a connection header is `upgrade`, in any case, and there is an upgrade
header. -/
def isUpgrade (headers : Headers) : Bool :=
  ((headers.values "connection").filterMap Headers.text?).any (fun value =>
    (Text.split ',' value).any fun token => Text.asciiLower (Text.trim token) = "upgrade") &&
  headers.has "upgrade"

/-- Whether a body comes with a request: its length is declared and not zero, or it is sent in
a transfer coding. -/
def hasBody (headers : Headers) : Bool :=
  (match headers.firstText? "content-length" with
    | some length => Text.trim length ≠ "0"
    | none => false) ||
  headers.has "transfer-encoding"

def isForwarded (keepsUpgrade : Bool) (name : String) : Bool :=
  name ≠ "host" && name ≠ "content-length" &&
    (!isHopByHop name || (keepsUpgrade && (name = "connection" || name = "upgrade")))

def forwardedHeaders (headers : Headers) (keepsUpgrade : Bool) : Headers :=
  headers.filter fun field => isForwarded keepsUpgrade field.1

def returnedHeaders (headers : Headers) : Headers :=
  headers.filter fun field => !isHopByHop field.1

/-- The request that is sent upstream for a request of a client. -/
def outgoing [Url.Domain.Mapping] (upstream : Upstream) (request : Request) :
    Except ProxyError Outgoing := do
  let url ← (upstream.urlFor (request.target.pathAndQuery.getD "/")).mapError
    fun error => .invalidRequest error.message
  return {
    method := request.method
    url
    headers := forwardedHeaders request.headers (isUpgrade request.headers)
    body := if hasBody request.headers then some request.body else none }

def relay (reply : Reply) : Response :=
  ⟨reply.status, returnedHeaders reply.headers, .relayed reply.body⟩

/-- The response to an upgrade request: a switch of protocols keeps all headers. -/
def relayUpgrade (reply : Reply) : Response :=
  if reply.status = 101 then ⟨101, reply.headers, .whole []⟩ else relay reply

/-- The response where nothing listens at the upstream's address. -/
def withoutConnection [Url.Domain.Mapping] (servers : String) (request : Request) : Response :=
  match Upstream.parse servers with
  | .error error => (ProxyError.invalidRequest error.message).response
  | .ok upstream =>
      match outgoing upstream request with
      | .error error => error.response
      | .ok out => (ProxyError.transport ⟨"connect",
          "error sending request for url (" ++ out.url.render ++ ")"⟩).response

end Outpost.Proxy
