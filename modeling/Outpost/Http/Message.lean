import Outpost.Http.Headers
import Outpost.Http.StatusCode
import Outpost.Http.Target
import Outpost.Stream.Source
import Outpost.Url

/-!
# Messages

What a client asks, what is sent upstream for it, and what comes back.
-/

namespace Outpost.Http

open Outpost.Stream

structure Request where
  method : Method
  target : Target
  headers : Headers
  body : Bytes
  deriving Inhabited

/-- A request as it is sent to the upstream; the body is absent, not empty, if there is none. -/
structure Outgoing where
  method : Method
  url : Url
  headers : Headers
  body : Option Bytes
  deriving Inhabited

structure Reply where
  status : StatusCode
  headers : Headers
  body : Source
  deriving Inhabited

structure TransportFailure where
  kind : String
  message : String
  deriving DecidableEq, Repr, Inhabited

structure Answer where
  delay : Nat
  result : Except TransportFailure Reply
  deriving Inhabited

inductive Payload where
  | whole (bytes : Bytes)
  | relayed (source : Source)
  /-- It is passed on as it comes, and copied for the cache. -/
  | copied
  deriving Inhabited

structure Response where
  status : StatusCode
  headers : Headers
  payload : Payload
  deriving Inhabited

namespace Response

def json (status : StatusCode) (body : Bytes) : Response :=
  ⟨status, [("content-type", Bytes.ofText "application/json")], .whole body⟩

/-- The headers as sent: a body that is at hand has its length declared. -/
def sentHeaders (response : Response) : Headers :=
  match response.payload with
  | .whole bytes =>
      if response.headers.has "content-length" then response.headers
      else response.headers.append "content-length" (Bytes.ofNat bytes.length)
  | _ => response.headers

end Response

end Outpost.Http
