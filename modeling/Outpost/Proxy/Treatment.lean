import Outpost.Cache.Tiers
import Outpost.Coding.ContentCoding
import Outpost.Config.Settings
import Outpost.Proxy.Forward
import Outpost.Stream.Tee

/-!
# Treatment of replies

What is done with a reply to a request that was sent upstream while it is healthy: it is passed
on, filtered, or copied into the cache on its way.
-/

namespace Outpost.Proxy

open Api Cache Coding Config Http Outpost.Stream

def isTreated (status : StatusCode) : Bool := 200 ≤ status && status ≤ 206

/-- A content type that is absent or unreadable counts as JSON. -/
def isJson (headers : Headers) : Bool :=
  match headers.firstText? "content-type" with
  | none => true
  | some value => Text.contains value "json"

def declaredLength? (headers : Headers) : Option Nat :=
  (headers.firstText? "content-length").bind fun value => Bytes.word64? (Bytes.ofText value)

/-- The headers of the answer to a request that is not passed through: watches without a length
are marked as chunked, which their clients rely on. -/
def treatedHeaders (info : RequestInfo) (headers : Headers) : Headers :=
  if info.verb = .watch && !headers.has "transfer-encoding" && !headers.has "content-length" then
    headers.insert "transfer-encoding" (Bytes.ofText "chunked")
  else headers

inductive Treatment where
  | pass
  | filter (kind : ResourceKind)
  | cache (key : Key)
  deriving DecidableEq, Repr

/-- What is done with a reply of this status and these headers. -/
def treatment (tiers : Tiers) (info : RequestInfo) (status : StatusCode) (headers : Headers) :
    Treatment :=
  if info.policy = .passthrough ∨ !isTreated status then .pass
  else
    match info.supportedList? with
    | none => .pass
    | some kind =>
        if info.policy = .filter then .filter kind
        else
          match Key.ofRequest? info with
          | none => .pass
          | some key =>
              if key.queryClass ≠ .resourceUsage && tiers.isPopulated key then .pass
              else if isJson headers then .cache key
              else .pass

def treatedResponse (info : RequestInfo) (reply : Reply) : Response :=
  let response := relay reply
  if info.policy = .passthrough then response
  else { response with headers := treatedHeaders info response.headers }

/-! ## Filtering -/

/-- The response with a filtered list for its body; `coded` tells whether it was decoded. -/
def filteredResponse (response : Response) (coded : Bool) (filtered : Filtered) : Response :=
  let headers := response.headers.insert "content-length" (Bytes.ofNat filtered.body.length)
  { response with
    headers := if coded then headers.remove "content-encoding" else headers
    payload := .whole filtered.body }

def filterResponse (wording : Wording) (info : RequestInfo) (kind : ResourceKind) (start : String)
    (response : Response) (body : Except Unit Bytes) : Except ProxyError Response :=
  match body with
  | .error _ => .error (.modification info.render (wording.unreadable response))
  | .ok payload =>
      match filterList kind.name payload start (wording.undecodable payload) with
      | .error error => .error (ProxyError.ofFilter info.render error)
      | .ok filtered => .ok (filteredResponse response (declared? response.headers).isSome filtered)

end Outpost.Proxy
