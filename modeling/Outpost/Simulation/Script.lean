import Outpost.Proxy.Health
import Outpost.Text

/-!
# Scripted upstream

An upstream that answers by a script: probes of the liveness path get one answer, and other
requests the next answer of the first route that fits.
-/

namespace Outpost.Simulation

open Http Proxy

/-- Answers for the requests whose URL contains a text and whose method is a given one, as far as
these are stated.  They are used in turn, and the last one again and again. -/
structure Route where
  contained : Option String
  method : Option Method
  answers : List Answer
  deriving Inhabited

def Route.fits (route : Route) (request : Outgoing) : Bool :=
  (match route.contained with
    | none => true
    | some part => Text.contains request.url.render part) &&
  (match route.method with
    | none => true
    | some method => request.method = method)

structure Script where
  livez : Answer
  routes : List Route
  probes : Nat
  seen : List Outgoing
  deriving Inhabited

namespace Script

def start (livez : Answer) (routes : List Route) : Script := ⟨livez, routes, 0, []⟩

def same (answer : Answer) : Script := start answer [⟨none, none, [answer]⟩]

def switchTo (script : Script) (answer : Answer) : Script :=
  { script with livez := answer, routes := (same answer).routes }

def calls (script : Script) : Nat := script.probes + script.seen.length

def isProbe (request : Outgoing) : Bool := Text.endsWith request.url.renderPath livenessPath

def noRoute : Answer := ⟨0, .ok ⟨404, [], Stream.Source.ofBytes (Bytes.ofText "no route")⟩⟩

/-- The answer of the first route that fits, which then moves on to its next one. -/
def answerFrom (request : Outgoing) : List Route → List Route × Answer
  | [] => ([], noRoute)
  | route :: rest =>
      if route.fits request then
        match route.answers with
        | [] => (route :: rest, noRoute)
        | [last] => (route :: rest, last)
        | next :: later => ({ route with answers := later } :: rest, next)
      else
        let (after, answer) := answerFrom request rest
        (route :: after, answer)

def answer (script : Script) (request : Outgoing) : Script × Answer :=
  if isProbe request then ({ script with probes := script.probes + 1 }, script.livez)
  else
    let (routes, answer) := answerFrom request script.routes
    ({ script with routes, seen := script.seen ++ [request] }, answer)

end Script

end Outpost.Simulation
