import Outpost.Proofs.Proxy.Forwarding
import Outpost.Proofs.Proxy.Framing
import Outpost.Proofs.Proxy.Hearings
import Outpost.Proofs.Proxy.Payloads

/-!
# What forwarding keeps

A request is sent on, and a reply passed back, with the same headers, name by name, but for those
that belong to one connection.  The body of a request goes along if its framing announces one; the
body of a reply is heard as it came, with its ending.
-/

namespace Outpost.Proxy

open Config Http Store Outpost.Stream

/-! ## Requests -/

structure AsksForUpgrade (headers : Headers) : Prop where
  token : ∃ value ∈ headers.values "connection", ∃ text, Headers.text? value = some text ∧
    ∃ token ∈ Text.split ',' text, Text.asciiLower (Text.trim token) = "upgrade"
  protocol : headers.values "upgrade" ≠ []

/-- The framing announces a body: it comes in a transfer coding, or with a length other than
zero. -/
def AnnouncesBody (headers : Headers) : Prop :=
  headers.values "transfer-encoding" ≠ [] ∨
    ∃ value rest text, headers.values "content-length" = value :: rest ∧
      Headers.text? value = some text ∧ Text.trim text ≠ "0"

theorem has_iff {headers : Headers} {name : String} :
    headers.has name = true ↔ headers.values name ≠ [] := by
  simp [Headers.has, Headers.values, List.filter_eq_nil_iff]

theorem isUpgrade_iff {headers : Headers} : isUpgrade headers = true ↔ AsksForUpgrade headers := by
  rw [isUpgrade, Bool.and_eq_true, has_iff, List.any_eq_true]
  constructor
  · rintro ⟨⟨text, readable, asks⟩, protocol⟩
    obtain ⟨value, among, read⟩ := List.mem_filterMap.mp readable
    obtain ⟨token, cut, upgrade⟩ := List.any_eq_true.mp asks
    exact ⟨⟨value, among, text, read, token, cut, by simpa using upgrade⟩, protocol⟩
  · rintro ⟨⟨value, among, text, read, token, cut, upgrade⟩, protocol⟩
    refine ⟨⟨text, List.mem_filterMap.mpr ⟨value, among, read⟩, ?_⟩, protocol⟩
    exact List.any_eq_true.mpr ⟨token, cut, by simpa using upgrade⟩

theorem hasBody_iff {headers : Headers} : hasBody headers = true ↔ AnnouncesBody headers := by
  rw [hasBody, Bool.or_eq_true, has_iff, AnnouncesBody, or_comm]
  refine or_congr_right ?_
  unfold Headers.firstText? Headers.first?
  cases declared : headers.values "content-length" with
  | nil => simp
  | cons value rest =>
      rw [List.head?_cons, Option.bind_some]
      cases read : Headers.text? value with
      | none => simp [read]
      | some text => simp [read]

/-- What a request becomes on its way. -/
structure Forwards (request : Request) (out : Outgoing) : Prop where
  method : out.method = request.method
  /-- The body is the same just if there is none or it is announced. -/
  body : out.body.getD [] = request.body ↔ (request.body ≠ [] → AnnouncesBody request.headers)
  endToEnd : ∀ name, isHopByHop name = false → name ≠ "host" → name ≠ "content-length" →
    out.headers.values name = request.headers.values name
  replaced : ∀ name, name = "host" ∨ name = "content-length" → out.headers.values name = []
  hopByHop : ∀ name, isHopByHop name = true → name ≠ "connection" → name ≠ "upgrade" →
    out.headers.values name = []
  upgrade : ∀ name, name = "connection" ∨ name = "upgrade" →
    (AsksForUpgrade request.headers →
      out.headers.values name = request.headers.values name) ∧
    (¬AsksForUpgrade request.headers → out.headers.values name = [])

theorem values_forwarded (headers : Headers) (keeps : Bool) (name : String) :
    (forwardedHeaders headers keeps).values name =
      if isForwarded keeps name then headers.values name else [] := by
  split
  · rename_i forwarded
    exact values_filter headers name _ fun field same => by rw [same, forwarded]
  · rename_i kept
    unfold Headers.values forwardedHeaders
    rw [List.filter_filter, List.map_eq_nil_iff, List.filter_eq_nil_iff]
    intro field _
    by_cases same : field.1 = name <;> simp [same, kept]

theorem outgoing_of_urlFor {upstream : Upstream} {request : Request} {url : Url}
    (found : upstream.urlFor (request.target.pathAndQuery.getD "/") = .ok url) :
    outgoing upstream request = .ok {
      method := request.method
      url
      headers := forwardedHeaders request.headers (isUpgrade request.headers)
      body := if hasBody request.headers then some request.body else none } := by
  unfold outgoing
  rw [found]
  rfl

theorem body_forwarded (headers : Headers) (body : Bytes) :
    (if hasBody headers then some body else none).getD [] = body ↔
      (body ≠ [] → AnnouncesBody headers) := by
  rw [← hasBody_iff]
  split
  · rename_i announced
    exact iff_of_true rfl fun _ => announced
  · rename_i silent
    constructor
    · intro empty filled
      exact absurd empty.symm filled
    · intro announced
      by_contra filled
      exact silent (announced (Ne.symm filled))

theorem outgoing_forwards {upstream : Upstream} {request : Request} {out : Outgoing}
    (sent : outgoing upstream request = .ok out) : Forwards request out := by
  cases found : upstream.urlFor (request.target.pathAndQuery.getD "/") with
  | error =>
      unfold outgoing at sent
      rw [found] at sent
      cases sent
  | ok url =>
      rw [outgoing_of_urlFor found] at sent
      cases sent
      refine ⟨rfl, body_forwarded _ _, fun name endToEnd notHost notLength => ?_,
        fun name own => ?_, fun name own notConnection notUpgrade => ?_,
        fun name own => ⟨fun asks => ?_, fun asks => ?_⟩⟩
      · rw [values_forwarded, if_pos (by simp [isForwarded, endToEnd, notHost, notLength])]
      · rw [values_forwarded, if_neg (by rcases own with rfl | rfl <;> simp [isForwarded])]
      · rw [values_forwarded, if_neg (by simp [isForwarded, own, notConnection, notUpgrade])]
      · rw [values_forwarded, isUpgrade_iff.mpr asks]
        rcases own with rfl | rfl <;> exact if_pos (by decide)
      · rw [values_forwarded, Bool.eq_false_iff.mpr (mt isUpgrade_iff.mp asks)]
        rcases own with rfl | rfl <;> exact if_neg (by decide)

/-! ## Replies -/

namespace Engine

structure Returns (reply : Reply) (seen : Seen) : Prop where
  head : seen.head.map (·.1) = some reply.status
  endToEnd : ∀ name, isHopByHop name = false →
    seen.head.map (Headers.values ·.2 name) = some (reply.headers.values name)
  hopByHop : ∀ name, isHopByHop name = true → seen.head.map (Headers.values ·.2 name) = some []
  body : seen.body.Follows reply.body

section Returned

variable {start : Engine} {events : List Event} {id : Nat} {reply : Reply}

theorem returns_of_head (head : (start.seen id events).head = some (relay reply).head)
    (body : (start.seen id events).body.Follows reply.body) :
    Returns reply (start.seen id events) := by
  have sent : (relay reply).head = (reply.status, (relay reply).headers) := rfl
  refine ⟨?_, fun name endToEnd => ?_, fun name own => ?_, body⟩ <;>
    rw [head, sent, Option.map_some]
  · rw [values_relay, endToEnd]
    rfl
  · rw [values_relay, own]
    rfl

theorem returns_of_hasResponse (fresh : start.exchange? id = none)
    (responded : (start.run events).HasResponse id (relay reply)) :
    Returns reply (start.seen id events) := by
  obtain ⟨exchange, delivery, found, responded⟩ := responded
  cases run_hears start id fresh events with
  | unanswered unanswered =>
      have waiting := unanswered exchange found
      rw [responded] at waiting
      cases waiting
  | answered now response other hnow hresponse head body =>
      cases found.symm.trans hnow
      cases responded.symm.trans hresponse
      exact returns_of_head head (body reply.body rfl).1

end Returned

/-! ## Exchanges -/

/-- In a run, what is sent for an exchange is its request, and what is heard of a reply that is
passed back is that reply; a client that stays hears all of it. -/
structure KeepsMessages (start : Engine) (events : List Event) (id : Nat) : Prop where
  sent : ∀ exchange relation out, (start.run events).exchange? id = some exchange →
    exchange.phase = .awaiting relation out →
    start.Arrived id exchange.request events ∧ Forwards exchange.request out
  heard : ∀ reply, (start.run events).HasResponse id (relay reply) →
    Returns reply (start.seen id events)
  finishes : ∀ reply, (start.run events).HasResponse id (relay reply) →
    (start.run events).Attended id →
    ∃ more, (∀ event ∈ more, event.IsOwn id (.ok reply)) ∧
      Returns reply (start.seen id (events ++ more)) ∧
      (start.seen id (events ++ more)).body.HearsAll reply.body

/-- A request reaches the upstream and its reply the client as they are, but for the headers that
are replaced or belong to one connection. -/
theorem run_keepsMessages (settings : Settings) (store : CountedStore) (now : Nat)
    (events : List Event) (id : Nat) :
    (∀ upstream request out, outgoing upstream request = .ok out → Forwards request out) ∧
      KeepsMessages (start settings store now) events id where
  left _ _ _ := outgoing_forwards
  right := {
    sent exchange relation out found awaiting := by
      have routed := run_routed settings store now events id exchange found
      exact ⟨routed.arrived, outgoing_forwards (routed.awaiting awaiting).2⟩
    heard reply responded := returns_of_hasResponse rfl responded
    finishes reply responded attended := by
      obtain ⟨more, own, heard⟩ := exists_hasHeard rfl rfl (.ok reply) responded attended
      exact ⟨more, own, returns_of_head heard.head heard.follows, heard.all⟩ }

section Relaying

variable {engine : Engine} {id : Nat} {exchange : Exchange} {out : Outgoing}

theorem hasResponse_answer (found : engine.exchange? id = some exchange)
    (awaiting : exchange.phase = .awaiting .relayed out) (reply : Reply) :
    (engine.step (.answer id (.ok reply))).HasResponse id (relay reply) := by
  have number := id_of_exchange? found
  subst number
  have answered : engine.step (.answer exchange.id (.ok reply)) =
      engine.conclude exchange (relay reply) := by
    simp only [step, answer, found, awaiting]
  rw [answered]
  exact ⟨_, _, exchange?_conclude _ found, rfl⟩

/-- A handler that relays everything passes back the reply to what it sends. -/
theorem hasResponse_relayed (wellFormed : engine.WellFormed) (sample : engine.handler = .sample)
    {request : Request} (sendable : outgoing engine.upstream request = .ok out) (reply : Reply) :
    (engine.run [.arrive request, .advance engine.nextId, .advance engine.nextId,
      .answer engine.nextId (.ok reply)]).HasResponse engine.nextId (relay reply) := by
  have arrived := exchange?_arrival wellFormed request
  have dispatched := exchange?_setPhase arrived (.sending .relayed)
  rw [← step_relay arrived rfl sample] at dispatched
  have upstream : ((engine.step (.arrive request)).step (.advance engine.nextId)).upstream =
      engine.upstream := by rw [step_relay arrived rfl sample]; rfl
  have sent := exchange?_setPhase dispatched (.awaiting .relayed out)
  rw [← step_send dispatched rfl (by rw [upstream]; exact sendable)] at sent
  exact hasResponse_answer sent rfl reply

end Relaying

/-! ### An upgrade -/

def repeatedRequest : Request where
  method := "POST"
  target := ⟨"/exec", none, some "/exec"⟩
  headers := [("host", Bytes.ofText "edge"), ("accept", Bytes.ofText "a"),
    ("connection", Bytes.ofText "keep-alive"), ("accept", Bytes.ofText "b"),
    ("connection", Bytes.ofText "te, Upgrade "), ("upgrade", Bytes.ofText "SPDY/3.1"),
    ("content-length", Bytes.ofText "2"), ("te", Bytes.ofText "trailers")]
  body := [0x01, 0x02]

def repeatedReply : Reply where
  status := 404
  headers := [("x-up", Bytes.ofText "1"), ("keep-alive", Bytes.ofText "timeout=5"),
    ("x-up", Bytes.ofText "2"), ("content-length", Bytes.ofText "9")]
  body := ⟨[.chunk [0x6E], .hold, .failure "reset"]⟩

def repeatedOut : Outgoing where
  method := "POST"
  url := { clusterServer.base with path := ["exec"] }
  headers := [("accept", Bytes.ofText "a"), ("connection", Bytes.ofText "keep-alive"),
    ("accept", Bytes.ofText "b"), ("connection", Bytes.ofText "te, Upgrade "),
    ("upgrade", Bytes.ofText "SPDY/3.1")]
  body := some [0x01, 0x02]

theorem run_keepsMessages_repeated :
    let begin := start { Settings.default clusterServer with handler := .sample } .inMemory 0
    let answered : List Event := [.arrive repeatedRequest, .advance 0, .advance 0,
      .answer 0 (.ok repeatedReply)]
    let reads : List Event := [.read 0, .read 0, .read 0]
    Forwards repeatedRequest repeatedOut ∧
      Returns repeatedReply (begin.seen 0 (answered ++ reads)) ∧
      (begin.seen 0 (answered ++ reads)).body.bytes = [0x6E] ∧
      (begin.seen 0 (answered ++ reads)).body.ending = some (.error "reset") := by
  intro begin answered reads
  have url : clusterServer.urlFor "/exec" = .ok repeatedOut.url := by decide +kernel
  have headers : forwardedHeaders repeatedRequest.headers (isUpgrade repeatedRequest.headers) =
      repeatedOut.headers := by decide +kernel
  have body : hasBody repeatedRequest.headers = true := by decide +kernel
  have sendable := @outgoing_of_urlFor clusterServer repeatedRequest _ url
  rw [headers, body] at sendable
  have responded := hasResponse_relayed (start_wellFormed
    { Settings.default clusterServer with handler := .sample } .inMemory 0) rfl sendable
      repeatedReply
  have still := responded.run reads
  rw [← run_append] at still
  obtain ⟨forwards, keeps⟩ := run_keepsMessages
    { Settings.default clusterServer with handler := .sample } .inMemory 0 (answered ++ reads) 0
  exact ⟨forwards _ _ _ sendable, keeps.heard repeatedReply still, by decide +kernel,
    by decide +kernel⟩

end Engine

end Outpost.Proxy
