import Outpost.Http.Wire
import Outpost.Simulation.World

/-!
# Spliced connections

An exchange over raw connections.  If the upstream switches protocols, what the client sends
afterwards reaches the upstream and what the upstream sends reaches the client, byte for byte.
The upstream at the other end sends every letter back as a capital, or closes at once.
-/

namespace Outpost.Simulation

open Config Http Proxy Store

inductive Peer where
  | echoes
  | closes
  deriving DecidableEq, Repr

structure Splice where
  peer : Peer
  incoming : Bytes
  echoed : Bytes
  isOpen : Bool

namespace Splice

def read (splice : Splice) (count : Nat) : Splice × Option Bytes :=
  if splice.incoming.length < count then ({ splice with isOpen := false }, none)
  else ({ splice with incoming := splice.incoming.drop count }, some (splice.incoming.take count))

def send (splice : Splice) (bytes : Bytes) : Splice × Option Bytes :=
  match splice.peer with
  | .closes => splice.read bytes.length
  | .echoes =>
      { splice with
        incoming := splice.incoming ++ bytes.map Bytes.upper
        echoed := splice.echoed ++ bytes }.read bytes.length

def sendAll (splice : Splice) : List Bytes → Splice × List (Option Bytes)
  | [] => (splice, [])
  | bytes :: rest =>
      if splice.isOpen then
        let (after, received) := splice.send bytes
        let (last, later) := after.sendAll rest
        (last, received :: later)
      else (splice, [])

end Splice

/-- The headers as the client reads them: a body whose length nobody knows comes in chunks. -/
def wireHeaders (request : Request) (report : World.Report) : Headers :=
  if !hasBody request.method report.status || report.headers.has "content-length" ||
      report.headers.has "transfer-encoding" then report.headers
  else report.headers.append "transfer-encoding" (Bytes.ofText "chunked")

def declaredBody (report : World.Report) : Bytes :=
  match ((report.headers.firstText? "content-length").map Bytes.ofText).bind Bytes.word64? with
  | some length => report.body.take length
  | none => []

/-- Requests that were sent one after the other over one connection: each begins once the response
before it is over.  None of them is waited for, and then the client leaves. -/
def serveInTurn (world : World) : List Request → World
  | [] => world
  | request :: later =>
      let id := world.engine.nextId
      let served := (world.arrive request none).settled
      if (served.report? id).map World.Report.state = some .complete then serveInTurn served later
      else served.drop id

structure SpliceReport where
  status : StatusCode
  headers : Headers
  received : List (Option Bytes)
  echoed : Bytes
  world : World

/-- Runs raw requests against an upstream that gives a raw answer to each of them.  The client
reads the response to the first one, and then leaves.  After a switch of protocols it first reads
a preface if it expects one, and then sends its pieces in turn. -/
def spliceExchange (requests answer : Bytes) (peer : Peer) (preface : Option Nat)
    (sends : List Bytes) : Option SpliceReport := do
  let request :: later := Request.parseAll requests.length requests | none
  let closes := peer = .closes
  let (toHead, _) ← Reply.parse? Method.head closes answer
  let (toOther, rest) ← Reply.parse? Method.get closes answer
  let upstream ← (Upstream.parse "http://upstream:6443").toOption
  let settings := Settings.default upstream
  let healthy : Answer := ⟨0, .ok ⟨200, [], Stream.Source.ofBytes livenessBody⟩⟩
  let script := Script.start healthy
    [⟨none, some Method.head, [⟨0, .ok toHead⟩]⟩, ⟨none, none, [⟨0, .ok toOther⟩]⟩]
  let started :=
    (World.start (Engine.start settings CountedStore.inMemory 0) script settings).watchOn
  let id := started.engine.nextId
  let world := (started.arrive request none).settled
  let report ← world.report? id
  if report.status = 101 then
    let splice : Splice := ⟨peer, rest, [], true⟩
    let (begun, first) := match preface with
      | none => (splice, [])
      | some count =>
          let (read, bytes) := splice.read count
          (read, [bytes])
    let (after, received) := begun.sendAll sends
    return ⟨report.status, report.headers.remove "content-length", first ++ received, after.echoed,
      world⟩
  else
    let left := if report.state = .complete then serveInTurn world later else world.drop id
    return ⟨report.status, wireHeaders request report, [some (declaredBody report)], [], left⟩

end Outpost.Simulation
