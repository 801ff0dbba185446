import Outpost.Proofs.Proxy.Courses
import Outpost.Proofs.Proxy.Eligibility
import Outpost.Proofs.Stream.Deliveries

/-!
# What is seen of an exchange

The upstream sees the request that is sent for an exchange, and the client the head of the response
and what its polls of the body bring.  In every run what has been seen so far fits the phase of the
exchange: whatever the cache does beside it, the client hears the body of the reply.
-/

namespace Outpost

def Http.Response.head (response : Http.Response) : Http.StatusCode × Http.Headers :=
  (response.status, response.sentHeaders)

end Outpost

namespace Outpost.Proxy

open Api Cache Coding Config Http Store Outpost.Stream

/-! ## Sightings -/

/-- What the upstream and the client have seen of an exchange. -/
structure Seen where
  sent : Option Outgoing
  head : Option (StatusCode × Headers)
  body : Log String

namespace Phase

def head? : Phase → Option (StatusCode × Headers)
  | .responded response _ => some response.head
  | _ => none

def isDelivering : Phase → Bool
  | .responded _ (.direct _) | .responded _ .copied => true
  | _ => false

def isUnsent : Phase → Bool
  | .arrived | .firstLook _ | .approaching _ | .waiting _ _ _ | .secondLook _ | .sending _ => true
  | _ => false

end Phase

namespace Seen

def nothing : Seen := ⟨none, none, .empty⟩

def after (seen : Seen) (exchange : Option Exchange) : Seen where
  sent := (exchange.bind (·.phase.outgoing?)).or seen.sent
  head := (exchange.bind (·.phase.head?)).or seen.head
  body := seen.body

end Seen

namespace Engine

def heard (engine : Engine) (id : Nat) (log : Log String) : Event → Log String
  | .read other =>
      if other = id ∧ (engine.exchange? id).any (·.phase.isDelivering) then
        log.note (engine.read id).2
      else log
  | _ => log

def watch (id : Nat) (state : Engine × Seen) (event : Event) : Engine × Seen :=
  let after := state.1.step event
  (after, { state.2 with body := state.1.heard id state.2.body event }.after (after.exchange? id))

def seen (start : Engine) (id : Nat) (events : List Event) : Seen :=
  (events.foldl (watch id) (start, .nothing)).2

theorem watch_run (start : Engine) (id : Nat) (seen : Seen) (events : List Event) :
    (events.foldl (watch id) (start, seen)).1 = start.run events := by
  induction events generalizing start seen with
  | nil => rfl
  | cons event rest ih => exact ih (start.step event) _

theorem seen_concat (start : Engine) (id : Nat) (events : List Event) (event : Event) :
    start.seen id (events ++ [event]) =
      { start.seen id events with
        body := (start.run events).heard id (start.seen id events).body event }.after
        (((start.run events).step event).exchange? id) := by
  unfold seen
  rw [List.foldl_append, ← watch_run start id .nothing events]
  rfl

/-! ## Polls of the client -/

section Reads

variable {engine : Engine} {id : Nat} {exchange : Exchange}

theorem step_exchange?_isSome {event : Event} (there : (engine.exchange? id).isSome)
    (stays : event ≠ .abandon id) : ((engine.step event).exchange? id).isSome := by
  rcases step_slot_cases engine event id with same | move
  · have kept : (engine.step event).exchange? id = engine.exchange? id :=
      congrArg Slot.exchange same
    rwa [kept]
  · change ((engine.step event).slot id).exchange.isSome
    generalize (engine.step event).slot id = slot at move
    generalize (engine.step event).shared = shared at move
    cases move with
    | arrive => simp
    | abandon => exact absurd rfl stays
    | readCopy | work => exact there
    | _ => rfl

variable (found : engine.exchange? id = some exchange)

include found

theorem heard_read (log : Log String) (delivering : exchange.phase.isDelivering = true) :
    engine.heard id log (.read id) = log.note (engine.read id).2 := by
  simp [heard, found, delivering]

theorem step_read_idle (idle : exchange.phase.isDelivering = false) :
    engine.step (.read id) = engine := by
  unfold step read
  simp only [found]
  split
  · rename_i direct
    rw [direct] at idle
    cases idle
  · rename_i copied
    rw [copied] at idle
    cases idle
  · rfl

theorem heard_idle (log : Log String) (idle : exchange.phase.isDelivering = false) :
    engine.heard id log (.read id) = log := by
  simp [heard, found, idle]

end Reads

/-! ## Grounds of an answer -/

section Grounds

variable (start : Engine) (events : List Event) (id : Nat)

/-- In the run, the exchange was left to the cache, for want of a healthy upstream. -/
def Forsaken : Prop :=
  start.handler = .dev ∧ start.StepsFrom id (fun before exchange =>
    exchange.phase = .arrived ∧ (start.run before).health.isHealthy = false) events

def Hit (key : Key) (payload : Bytes) : Prop :=
  start.StepsFrom id (fun before exchange =>
    (exchange.phase = .firstLook key ∨ exchange.phase = .secondLook key) ∧
      (start.run before).tiers.volatile? key = some payload) events

end Grounds

end Engine

/-- A reply that is not passed on as it is: to a list request of the filter policy, or to an
upgrade request that it grants. -/
inductive Excepted (request : Request) (reply : Reply) : Prop where
  | filtered (plain : isUpgrade request.headers = false) (method : request.method = "GET")
      (verb : request.info.verb = .list)
      (resource : request.info.resource = "pods" ∨ request.info.resource = "configmaps")
      (policy : request.info.policy = .filter) (status : 200 ≤ reply.status ∧ reply.status ≤ 206)
  | switched (upgrade : isUpgrade request.headers = true) (status : reply.status = 101)

structure IsMarked (request : Request) (reply : Reply) : Prop where
  verb : request.info.verb = .watch
  policy : request.info.policy ≠ .passthrough
  endless : Headers.has (returnedHeaders reply.headers) "content-length" = false

/-- How the head of a reply is passed on: as it is, or marked as chunked. -/
inductive PassedHead (handler : HandlerKind) (request : Request) (reply : Reply) :
    StatusCode × Headers → Prop where
  | plain : PassedHead handler request reply (reply.status, returnedHeaders reply.headers)
  | marked (dev : handler = .dev) (marked : IsMarked request reply) :
      PassedHead handler request reply (reply.status,
        Headers.insert (returnedHeaders reply.headers) "transfer-encoding" (Bytes.ofText "chunked"))

theorem passedHead_treated {request : Request} (reply : Reply) (payload : Payload)
    (relayed : ∀ bytes, payload ≠ .whole bytes) :
    PassedHead .dev request reply
      { treatedResponse request.info reply with payload }.head := by
  have sent : ∀ response : Response, response.payload = payload →
      response.sentHeaders = response.headers := by
    intro response same
    unfold Response.sentHeaders
    split
    · rename_i bytes whole
      exact absurd (same.symm.trans whole) (relayed bytes)
    · rfl
  unfold Response.head
  rw [sent _ rfl]
  unfold treatedResponse
  simp only
  split
  · exact .plain
  · rename_i policy
    unfold treatedHeaders
    split
    · rename_i chunked
      simp only [Bool.and_eq_true, decide_eq_true_eq, Bool.not_eq_true'] at chunked
      exact .marked rfl ⟨chunked.1.1, policy, chunked.2⟩
    · exact .plain

namespace Engine

section Grounds

variable (start : Engine) (events : List Event) (id : Nat) (request : Request)
  (result : Except TransportFailure Reply)

/-- Why an exchange is answered: with what head and with what body, and what was sent for it
before. -/
inductive Grounds : Option Outgoing → StatusCode × Headers → Source → Prop where
  | hit (key : Key) (payload : Bytes) (dev : start.handler = .dev) (asks : AsksFor request key)
      (hit : start.Hit events id key payload) :
      Grounds none (Response.json 200 payload).head (Source.ofBytes payload)
  | refused (error : ProxyError) (refused : outgoing start.upstream request = .error error) :
      Grounds none error.response.head (Source.ofBytes error.status.encode)
  | failed (out : Outgoing) (failure : TransportFailure)
      (sendable : outgoing start.upstream request = .ok out) (given : result = .error failure) :
      Grounds (some out) (ProxyError.transport failure).response.head
        (Source.ofBytes (ProxyError.transport failure).status.encode)
  | passed (out : Outgoing) (reply : Reply) (head : StatusCode × Headers)
      (sendable : outgoing start.upstream request = .ok out) (given : result = .ok reply)
      (passed : PassedHead start.handler request reply head) :
      Grounds (some out) head reply.body
  | excepted (out : Outgoing) (reply : Reply) (head : StatusCode × Headers) (source : Source)
      (dev : start.handler = .dev) (sendable : outgoing start.upstream request = .ok out)
      (given : result = .ok reply) (excepted : Excepted request reply) :
      Grounds (some out) head source

end Grounds

section Stages

variable {start : Engine} {events : List Event} {id : Nat} {request : Request}
  {result : Except TransportFailure Reply}

theorem Forsaken.more (h : start.Forsaken events id) (more : List Event) :
    start.Forsaken (events ++ more) id := h.imp_right fun dispatched => dispatched.more more

theorem Grounds.more {sent : Option Outgoing} {head : StatusCode × Headers} {source : Source}
    (h : start.Grounds events id request result sent head source) (more : List Event) :
    start.Grounds (events ++ more) id request result sent head source := by
  cases h with
  | hit key payload dev asks hit => exact .hit key payload dev asks (StepsFrom.more hit more)
  | refused error refused => exact .refused error refused
  | failed out failure sendable given => exact .failed out failure sendable given
  | passed out reply head sendable given passed =>
      exact .passed out reply head sendable given passed
  | excepted out reply head source dev sendable given excepted =>
      exact .excepted out reply head source dev sendable given excepted

/-! ## Bodies on their way -/

def Collects (slot : Slot) : Prop :=
  ∃ task collector, slot.task = some task ∧ task.stage = .collecting collector

/-- How the body of a response is delivered to a client that has heard this much of it. -/
inductive Delivers (source : Source) (log : Log String) (slot : Slot) : Delivery → Prop where
  | direct (rest : Source) (leaves : source.Leaves rest log) :
      Delivers source log slot (.direct rest)
  | copied (expectedLength : Option Nat) (transcript : Transcript)
      (sound : transcript.Sound source expectedLength) (fits : source.Fits expectedLength)
      (tee : slot.tee = some transcript.tee) (there : transcript.hasForeground = true)
      (heard : transcript.foreground = log) (bounded : transcript.tee.Bounded)
      (collects : transcript.hasBackground = true ↔ Collects slot) :
      Delivers source log slot .copied

section Deliveries

variable {source : Source} {log : Log String} {slot : Slot} {delivery : Delivery}

theorem Delivers.follows (h : Delivers source log slot delivery) : log.Follows source := by
  cases h with
  | direct rest leaves => exact leaves.follows
  | copied expectedLength transcript sound fits tee there heard bounded collects =>
      exact heard ▸ sound.follows fits

theorem collects_of_stage {task : CachingTask} {collector : Collector}
    (found : slot.task = some task) (collecting : task.stage = .collecting collector) :
    Collects slot :=
  ⟨task, collector, found, collecting⟩

theorem not_collects {task : CachingTask} (found : slot.task = some task)
    (other : ∀ collector, task.stage ≠ .collecting collector) : ¬ Collects slot := by
  rintro ⟨_, collector, hfound, collecting⟩
  cases found.symm.trans hfound
  exact other collector collecting

theorem stageAfter_ne_collecting {key : Key} {body : Except Unit Bytes} (collector : Collector) :
    stageAfter key body ≠ .collecting collector := by
  cases body with
  | error => nofun
  | ok payload =>
      change storing key payload ≠ _
      unfold storing
      split <;> nofun

section Background

variable {next : Option CachingTask} {tee rest : Tee} {poll : Poll TeeError}

theorem Delivers.pollBackground (h : Delivers source log slot delivery)
    (found : slot.tee = some tee) (hears : Collects slot) (polled : tee.pollBackground = (rest, poll))
    (goes : Collects { slot with task := next, tee := some rest }) :
    Delivers source log { slot with task := next, tee := some rest } delivery := by
  cases h with
  | direct left leaves => exact .direct left leaves
  | copied expectedLength transcript sound fits present there heard bounded collects =>
      cases found.symm.trans present
      have turned := sound.pollBackground
      have kept := bounded.pollBackground
      simp only [Transcript.turn, collects.mpr hears, if_true, polled] at turned kept
      exact .copied expectedLength _ turned fits rfl there heard kept (iff_of_true rfl goes)

theorem Delivers.endBackground (h : Delivers source log slot delivery)
    (found : slot.tee = some tee) (hears : Collects slot) (polled : tee.pollBackground = (rest, poll))
    (done : ¬ Collects { slot with task := next, tee := some rest.dropBackground }) :
    Delivers source log { slot with task := next, tee := some rest.dropBackground } delivery := by
  cases h with
  | direct left leaves => exact .direct left leaves
  | copied expectedLength transcript sound fits present there heard bounded collects =>
      cases found.symm.trans present
      have turned := sound.pollBackground
      have kept := bounded.pollBackground
      simp only [Transcript.turn, collects.mpr hears, if_true, polled] at turned kept
      exact .copied expectedLength _ turned.dropBackground fits rfl there heard
        kept.dropBackground (iff_of_false Bool.false_ne_true done)

theorem Delivers.beside (h : Delivers source log slot delivery) (deaf : ¬ Collects slot)
    (done : ¬ Collects { slot with task := next }) :
    Delivers source log { slot with task := next } delivery := by
  cases h with
  | direct left leaves => exact .direct left leaves
  | copied expectedLength transcript sound fits present there heard bounded collects =>
      exact .copied expectedLength transcript sound fits present there heard bounded
        (iff_of_false (mt collects.mp deaf) done)

end Background

theorem Works.delivers {engine : Engine} {id : Nat} {task : CachingTask}
    {after : Option CachingTask} {tee : Option Tee} {shared : Shared}
    (works : Works engine task after tee shared) (found : engine.task? id = some task)
    (h : Delivers source log (engine.slot id) delivery) :
    Delivers source log { engine.slot id with task := after, tee } delivery := by
  have number := exchange_of_task? found
  subst number
  have hears : ∀ {collector : Collector}, task.stage = .collecting collector →
      Collects (engine.slot task.exchange) := collects_of_stage found
  cases works with
  | starved collector before rest collecting hbefore polled =>
      exact h.pollBackground hbefore (hears collecting) polled (collects_of_stage found collecting)
  | grown collector grown before rest chunk collecting hbefore polled fed =>
      exact h.pollBackground hbefore (hears collecting) polled (collects_of_stage rfl rfl)
  | ended collector before rest collecting hbefore polled =>
      exact h.endBackground hbefore (hears collecting) polled
        (not_collects rfl stageAfter_ne_collecting)
  | broken collector before rest error collecting hbefore polled =>
      exact h.endBackground hbefore (hears collecting) polled (not_collects rfl nofun)
  | decoded collector grown before rest chunk body collecting hbefore polled fed =>
      exact h.endBackground hbefore (hears collecting) polled
        (not_collects rfl stageAfter_ne_collecting)
  | insert payload inserting =>
      exact h.beside (not_collects found (by rw [inserting]; nofun)) (not_collects rfl nofun)
  | populate population stage tiers store populating step =>
      exact h.beside (not_collects found (by rw [populating]; nofun)) (not_collects rfl nofun)
  | populated population result tiers store populating step =>
      exact h.beside (not_collects found (by rw [populating]; nofun)) (not_collects rfl nofun)
  | close closing =>
      exact h.beside (not_collects found (by rw [closing]; nofun)) (by rintro ⟨_, _, ⟨⟩, _⟩)

theorem Delivers.isDelivering (h : Delivers source log slot delivery) (response : Response) :
    (Phase.responded response delivery).isDelivering = true := by
  cases h <;> rfl

theorem Delivers.read {engine : Engine} {id : Nat} {exchange : Exchange} {response : Response}
    (h : Delivers source log (engine.slot id) delivery)
    (found : engine.exchange? id = some exchange)
    (responded : exchange.phase = .responded response delivery) :
    ∃ next, (engine.step (.read id)).exchange? id =
        some { exchange with phase := .responded response next } ∧
      Delivers source (log.note (engine.read id).2) ((engine.step (.read id)).slot id) next := by
  cases h with
  | direct rest leaves =>
      have polled := read_direct found responded
      have stepped : engine.step (.read id) = engine.setPhase exchange
          (.responded response (.direct (rest.poll engine.now).1)) := congrArg Prod.fst polled
      rw [stepped, polled]
      exact ⟨_, exchange?_setPhase found _, .direct _ (leaves.poll engine.now)⟩
  | copied expectedLength transcript sound fits tee there heard bounded collects =>
      have copied : engine.tee? id = some transcript.tee := tee
      have polled := read_copied found responded copied
      have stepped : engine.step (.read id) = engine.setTee id
          (transcript.tee.pollForeground engine.now).1 := congrArg Prod.fst polled
      have turned := sound.pollForeground engine.now
      simp only [Transcript.turn, there, if_true] at turned
      have same : { exchange with phase := .responded response .copied } = exchange := by
        rw [← responded]
      rw [stepped, polled, slot_setTee_self copied]
      refine ⟨.copied, same ▸ found, ?_⟩
      exact .copied expectedLength _ turned fits rfl rfl (congrArg (Log.note · _) heard)
        (bounded.pollForeground engine.now) collects

theorem seen_read {start : Engine} {events : List Event} {id : Nat} {exchange : Exchange}
    {response : Response} {sent : Option Outgoing}
    (found : (start.run events).exchange? id = some exchange)
    (responded : exchange.phase = .responded response delivery)
    (h : Delivers source log ((start.run events).slot id) delivery)
    (seen : start.seen id events = ⟨sent, some response.head, log⟩) :
    start.seen id (events ++ [.read id]) =
      ⟨sent, some response.head, log.note ((start.run events).read id).2⟩ := by
  obtain ⟨next, hnext, -⟩ := h.read found responded
  rw [seen_concat, heard_read found _ (responded ▸ h.isDelivering response), hnext, seen]
  rfl

end Deliveries

/-! ## Stages -/

variable (start events id result) in
inductive Stage (slot : Slot) (exchange : Exchange) : Seen → Prop where
  | unsent (unsent : exchange.phase.isUnsent = true) : Stage slot exchange .nothing
  | sent (relation : Relation) (out : Outgoing)
      (awaiting : exchange.phase = .awaiting relation out) :
      Stage slot exchange ⟨some out, none, .empty⟩
  | filtering (kind : ResourceKind) (response : Response) (source : Source)
      (collector : Collector) (out : Outgoing) (reply : Reply)
      (filtering : exchange.phase = .filtering kind response source collector)
      (dev : start.handler = .dev) (sendable : outgoing start.upstream exchange.request = .ok out)
      (given : result = .ok reply) (excepted : Excepted exchange.request reply) :
      Stage slot exchange ⟨some out, none, .empty⟩
  | answered (response : Response) (delivery : Delivery) (source : Source)
      (sent : Option Outgoing) (log : Log String)
      (responded : exchange.phase = .responded response delivery)
      (grounds : start.Grounds events id exchange.request result sent response.head source)
      (delivers : Delivers source log slot delivery) :
      Stage slot exchange ⟨sent, some response.head, log⟩

section Stage

variable {slot : Slot} {exchange : Exchange} {seen : Seen}

theorem Stage.more (h : start.Stage events id result slot exchange seen) (more : List Event) :
    start.Stage (events ++ more) id result slot exchange seen := by
  cases h with
  | unsent unsent => exact .unsent unsent
  | sent relation out awaiting => exact .sent relation out awaiting
  | filtering kind response source collector out reply filtering dev sendable given excepted =>
      exact .filtering kind response source collector out reply filtering dev sendable given
        excepted
  | answered response delivery source sent log responded grounds delivers =>
      exact .answered response delivery source sent log responded (grounds.more more) delivers

theorem Stage.beside (h : start.Stage events id result slot exchange seen) {after : Slot}
    (delivers : ∀ delivery source log, Delivers source log slot delivery →
      Delivers source log after delivery) : start.Stage events id result after exchange seen := by
  cases h with
  | unsent unsent => exact .unsent unsent
  | sent relation out awaiting => exact .sent relation out awaiting
  | filtering kind response source collector out reply filtering dev sendable given excepted =>
      exact .filtering kind response source collector out reply filtering dev sendable given
        excepted
  | answered response delivery source sent log responded grounds hdelivers =>
      exact .answered response delivery source sent log responded grounds
        (delivers delivery source log hdelivers)

theorem Stage.after_eq (h : start.Stage events id result slot exchange seen) :
    seen.after (some exchange) = seen := by
  cases h with
  | unsent unsent => cases hphase : exchange.phase <;> simp_all [Phase.isUnsent, Seen.after,
      Seen.nothing, Phase.outgoing?, Phase.head?]
  | sent relation out awaiting => simp [Seen.after, awaiting, Phase.outgoing?, Phase.head?]
  | filtering kind response source collector out reply filtering =>
      simp [Seen.after, filtering, Phase.outgoing?, Phase.head?]
  | answered response delivery source sent log responded =>
      simp [Seen.after, responded, Phase.outgoing?, Phase.head?]

theorem Stage.eq_of_unsent (h : start.Stage events id result slot exchange seen)
    (unsent : exchange.phase.isUnsent = true) : seen = .nothing := by
  cases h with
  | unsent => rfl
  | sent relation out awaiting => rw [awaiting] at unsent; cases unsent
  | filtering kind response source collector out reply filtering =>
      rw [filtering] at unsent
      cases unsent
  | answered response delivery source sent log responded => rw [responded] at unsent; cases unsent

theorem Stage.eq_of_awaiting (h : start.Stage events id result slot exchange seen)
    {relation : Relation} {out : Outgoing} (awaiting : exchange.phase = .awaiting relation out) :
    seen = ⟨some out, none, .empty⟩ := by
  cases h with
  | unsent unsent => rw [awaiting] at unsent; cases unsent
  | sent other request hawaiting => cases awaiting.symm.trans hawaiting; rfl
  | filtering kind response source collector other reply filtering =>
      cases awaiting.symm.trans filtering
  | answered response delivery source sent log responded => cases awaiting.symm.trans responded

theorem Stage.of_filtering (h : start.Stage events id result slot exchange seen)
    {kind : ResourceKind} {response : Response} {source : Source} {collector : Collector}
    (filtering : exchange.phase = .filtering kind response source collector) :
    ∃ out reply, seen = ⟨some out, none, .empty⟩ ∧ start.handler = .dev ∧
      outgoing start.upstream exchange.request = .ok out ∧ result = .ok reply ∧
      Excepted exchange.request reply := by
  cases h with
  | unsent unsent => rw [filtering] at unsent; cases unsent
  | sent relation out awaiting => cases filtering.symm.trans awaiting
  | filtering _ _ _ _ out reply _ dev sendable given excepted =>
      exact ⟨out, reply, rfl, dev, sendable, given, excepted⟩
  | answered _ _ _ _ _ responded => cases filtering.symm.trans responded

theorem Stage.onward (h : start.Stage events id result slot exchange seen)
    (before : exchange.phase.isUnsent = true) (event : Event) {after : Slot} {next : Exchange}
    (unsent : next.phase.isUnsent = true) :
    start.Stage (events ++ [event]) id result after next (seen.after (some next)) := by
  have stage : start.Stage (events ++ [event]) id result after next .nothing := .unsent unsent
  rw [h.eq_of_unsent before, stage.after_eq]
  exact stage

theorem Stage.answer {event : Event} {after : Slot} {next : Exchange} {response : Response}
    {delivery : Delivery} {source : Source} {sent : Option Outgoing}
    (responded : next.phase = .responded response delivery)
    (grounds : start.Grounds (events ++ [event]) id next.request result sent response.head source)
    (delivers : Delivers source .empty after delivery) :
    start.Stage (events ++ [event]) id result after next
      (Seen.after ⟨sent, none, .empty⟩ (some next)) := by
  have stage : start.Stage (events ++ [event]) id result after next
      ⟨sent, some response.head, .empty⟩ :=
    .answered response delivery source sent .empty responded grounds delivers
  have same : Seen.after ⟨sent, none, .empty⟩ (some next) =
      Seen.after ⟨sent, some response.head, .empty⟩ (some next) := by
    simp [Seen.after, responded, Phase.head?]
  rw [same, stage.after_eq]
  exact stage

theorem Stage.answerDirect {event : Event} {after : Slot} {next : Exchange} {response : Response}
    {source : Source} {sent : Option Outgoing}
    (responded : next.phase = .responded response (.direct source))
    (grounds : start.Grounds (events ++ [event]) id next.request result sent response.head source) :
    start.Stage (events ++ [event]) id result after next
      (Seen.after ⟨sent, none, .empty⟩ (some next)) :=
  .answer responded grounds (.direct source (Source.leaves_start source))

end Stage

section Moves

variable {exchange : Exchange} {seen : Seen} {event : Event} {after : Slot}

theorem Turns.staged {phase : Phase} {store : CountedStore}
    (turns : Turns (start.run events) exchange phase store)
    (found : (start.run events).exchange? id = some exchange)
    (h : start.Stage events id result ((start.run events).slot id) exchange seen) :
    start.Forsaken (events ++ [.advance id]) id ∨
      start.Stage (events ++ [.advance id]) id result after { exchange with phase }
        (seen.after (some { exchange with phase })) := by
  cases turns with
  | relay arrived | upgrade arrived | look _ arrived | send arrived =>
      exact .inr (h.onward (by rw [arrived]; rfl) _ rfl)
  | fallBack arrived dev unhealthy =>
      exact .inl ⟨(run_handler start events).symm.trans dev, .now found ⟨arrived, unhealthy⟩⟩
  | miss key looking | missAgain key looking =>
      exact .inr (h.onward (by rw [looking]; rfl) _ rfl)
  | ungated key approaching => exact .inr (h.onward (by rw [approaching]; rfl) _ rfl)
  | admitted key gate deadline waiting => exact .inr (h.onward (by rw [waiting]; rfl) _ rfl)
  | sent relation request sending sendable =>
      rw [h.eq_of_unsent (by rw [sending]; rfl)]
      exact .inr (.sent relation request rfl)
  | gather kind response source rest collector grown filtering =>
      obtain ⟨out, reply, rfl, dev, sendable, given, excepted⟩ := h.of_filtering filtering
      exact .inr (.filtering kind response rest grown out reply rfl dev sendable given excepted)

theorem excepted_of_treatment {tiers : Tiers} {request : Request} {reply : Reply}
    {headers : Headers} {kind : ResourceKind} (plain : isUpgrade request.headers = false)
    (filter : treatment tiers request.info reply.status headers = .filter kind) :
    Excepted request reply := by
  unfold treatment at filter
  split at filter
  · cases filter
  rename_i treated
  simp only [not_or, Bool.not_eq_true', Bool.not_eq_false] at treated
  split at filter
  · cases filter
  rename_i found supported
  split at filter
  · rename_i policy
    obtain ⟨method, verb, resource⟩ := list_of_supportedList? supported
    exact .filtered plain method verb resource policy (by simpa [isTreated] using treated.2)
  · repeat' split at filter
    all_goals cases filter

theorem treatedResponse_payload (info : RequestInfo) (reply : Reply) :
    (treatedResponse info reply).payload = .relayed reply.body := by
  unfold treatedResponse
  simp only
  split <;> rfl

theorem payload_of_filterResponse {wording : Wording} {info : RequestInfo} {kind : ResourceKind}
    {begin : String} {response filtered : Response} {body : Except Unit Bytes}
    (h : filterResponse wording info kind begin response body = .ok filtered) :
    ∃ bytes, filtered.payload = .whole bytes := by
  unfold filterResponse at h
  repeat' split at h
  all_goals cases h
  exact ⟨_, rfl⟩

section Answers

variable (routed : start.Routed events id exchange) (number : exchange.id = id)
  (given : ∀ other, event = .answer id other → other = result)
  (h : start.Stage events id result ((start.run events).slot id) exchange seen)

include routed number given h

theorem Concludes.staged (wellFormed : exchange.WellFormed start.handler)
    (found : (start.run events).exchange? id = some exchange) {response : Response}
    (concludes : Concludes (start.run events) exchange event response) :
    start.Stage (events ++ [event]) id result after
      { exchange with
        gate := none
        phase := .responded response (Delivery.ofPayload response.payload) }
      (seen.after (some { exchange with
        gate := none
        phase := .responded response (Delivery.ofPayload response.payload) })) := by
  subst number
  have upstream : (start.run events).upstream = start.upstream :=
    congrArg Constants.upstream (run_constants start events)
  cases concludes with
  | hit key payload looking present =>
      have looks : exchange.phase.isUnsent = true ∧ exchange.phase.way? = some .treated ∧
          exchange.phase.key? = some key := by
        rcases looking with looking | looking <;> rw [looking] <;> exact ⟨rfl, rfl, rfl⟩
      obtain ⟨unsent, treated, asks⟩ := looks
      obtain ⟨dev, -⟩ := Relation.eq_of_treated (routed.way .treated treated)
      rw [h.eq_of_unsent unsent]
      exact .answerDirect rfl
        (.hit key payload dev (wellFormed.looks key asks) (.now found ⟨looking, present⟩))
  | unsendable relation error sending refused =>
      rw [h.eq_of_unsent (by rw [sending]; rfl)]
      exact .answerDirect rfl (.refused error (upstream ▸ refused))
  | filtered kind before filtered source collector body filtering read filter =>
      obtain ⟨out, reply, rfl, dev, sendable, given, excepted⟩ := h.of_filtering filtering
      obtain ⟨bytes, whole⟩ := payload_of_filterResponse filter
      rw [whole]
      exact .answerDirect rfl (.excepted out reply _ _ dev sendable given excepted)
  | unfiltered kind before error source collector body filtering read filter =>
      obtain ⟨out, reply, rfl, dev, sendable, given, excepted⟩ := h.of_filtering filtering
      exact .answerDirect rfl (.excepted out reply _ _ dev sendable given excepted)
  | failed relation out failure awaiting =>
      obtain ⟨-, sendable⟩ := routed.awaiting awaiting
      rw [h.eq_of_awaiting awaiting]
      exact .answerDirect rfl (.failed out failure sendable (given _ rfl).symm)
  | relayed out reply awaiting =>
      obtain ⟨-, sendable⟩ := routed.awaiting awaiting
      rw [h.eq_of_awaiting awaiting]
      exact .answerDirect rfl (.passed out reply _ sendable (given _ rfl).symm .plain)
  | upgraded out reply awaiting =>
      obtain ⟨way, sendable⟩ := routed.awaiting awaiting
      obtain ⟨dev, upgrade⟩ := Relation.eq_of_upgraded way
      rw [h.eq_of_awaiting awaiting]
      unfold relayUpgrade
      split
      · rename_i switched
        exact .answerDirect rfl
          (.excepted out reply _ _ dev sendable (given _ rfl).symm (.switched upgrade switched))
      · exact .answerDirect rfl (.passed out reply _ sendable (given _ rfl).symm .plain)
  | passed out reply awaiting pass =>
      obtain ⟨way, sendable⟩ := routed.awaiting awaiting
      obtain ⟨dev, -⟩ := Relation.eq_of_treated way
      rw [h.eq_of_awaiting awaiting]
      have head := @passedHead_treated exchange.request reply (.relayed reply.body) nofun
      have payload := treatedResponse_payload exchange.request.info reply
      rw [← payload, ← dev] at head
      have info : exchange.info = exchange.request.info := wellFormed.info
      have direct : Delivery.ofPayload (treatedResponse exchange.request.info reply).payload =
          .direct reply.body := congrArg Delivery.ofPayload payload
      rw [info, direct]
      exact .answerDirect rfl (.passed out reply _ sendable (given _ rfl).symm head)

end Answers

variable (start events id result) in
/-- Where an exchange stands: it is not there yet, or has been left to the cache, or what has been
seen of it fits its phase. -/
inductive Staged (slot : Slot) (seen : Seen) : Prop where
  | absent (absent : slot.exchange = none) (nothing : seen = .nothing)
  | forsaken (exchange : Exchange) (found : slot.exchange = some exchange)
      (forsaken : start.Forsaken events id)
  | present (exchange : Exchange) (found : slot.exchange = some exchange)
      (stage : start.Stage events id result slot exchange seen)

theorem Staged.move {slot : Slot} {exchange next : Exchange}
    (h : start.Staged events id result slot seen) (found : slot.exchange = some exchange)
    (kept : after.exchange = some next)
    (go : start.Stage events id result slot exchange seen →
      start.Forsaken (events ++ [event]) id ∨
        start.Stage (events ++ [event]) id result after next (seen.after (some next))) :
    start.Staged (events ++ [event]) id result after (seen.after after.exchange) := by
  rw [kept]
  cases h with
  | absent absent => cases absent.symm.trans found
  | forsaken other hother forsaken => exact .forsaken next kept (forsaken.more [event])
  | present other hother stage =>
      cases found.symm.trans hother
      rcases go stage with forsaken | stage
      · exact .forsaken next kept forsaken
      · exact .present next kept stage

theorem Move.staged {shared : Shared} (move : Move (start.run events) id event after shared)
    (unread : event ≠ .read id) (stays : event ≠ .abandon id)
    (given : ∀ other, event = .answer id other → other = result)
    (fits : ∀ request reply, start.Arrived id request events → request.method = "GET" →
      result = .ok reply → reply.body.Fits (declaredLength? reply.headers))
    (wellFormed : (start.run events).WellFormed)
    (routed : ∀ exchange, (start.run events).exchange? id = some exchange →
      start.Routed events id exchange)
    (h : start.Staged events id result ((start.run events).slot id) seen) :
    start.Staged (events ++ [event]) id result after (seen.after after.exchange) := by
  have formed := wellFormed id
  have handler := run_handler start events
  cases move with
  | arrive request fresh =>
      have absent : (start.run events).exchange? id = none :=
        congrArg Slot.exchange (formed.fresh (Nat.le_of_eq fresh.symm))
      cases h with
      | absent _ nothing =>
          have stage : start.Stage (events ++ [.arrive request]) id result
              { (start.run events).slot id with exchange := some ⟨id, request,
                RequestInfo.classify request.method request.target, none, .arrived⟩ }
              ⟨id, request, RequestInfo.classify request.method request.target, none, .arrived⟩
              .nothing := .unsent rfl
          rw [absent, Option.none_or, nothing, stage.after_eq]
          exact .present _ rfl stage
      | forsaken exchange found => cases absent.symm.trans found
      | present exchange found => cases absent.symm.trans found
  | turn exchange phase store found turns =>
      exact h.move found rfl fun stage => turns.staged found stage
  | join exchange key tiers gate found approaching opened =>
      exact h.move found rfl fun stage => .inr (stage.onward (by rw [approaching]; rfl) _ rfl)
  | giveUp exchange key gate deadline found waiting unheld late =>
      exact h.move found rfl fun stage => .inr (stage.onward (by rw [waiting]; rfl) _ rfl)
  | conclude exchange _ response found concludes =>
      refine h.move found rfl fun stage => .inr ?_
      exact concludes.staged (routed exchange found) (id_of_exchange? found) given stage
        (handler ▸ formed.exchange exchange found) found
  | filter exchange kind out reply found awaiting filter =>
      refine h.move found rfl fun stage => .inr ?_
      obtain ⟨way, sendable⟩ := (routed exchange found).awaiting awaiting
      obtain ⟨dev, plain⟩ := Relation.eq_of_treated way
      have info : exchange.info = exchange.request.info := (formed.exchange exchange found).info
      rw [stage.eq_of_awaiting awaiting]
      exact .filtering kind _ _ _ out reply rfl dev sendable (given _ rfl).symm
        (excepted_of_treatment plain (info ▸ filter))
  | copy exchange key out reply found awaiting cache =>
      refine h.move found rfl fun stage => .inr ?_
      have bare := formed.bare found (by rw [awaiting]; rfl)
      have untasked : (start.run events).task? id = none := congrArg Slot.task bare
      have unteed : (start.run events).tee? id = none := congrArg Slot.tee bare
      have info : exchange.info = exchange.request.info := (formed.exchange exchange found).info
      obtain ⟨way, sendable⟩ := (routed exchange found).awaiting awaiting
      obtain ⟨dev, -⟩ := Relation.eq_of_treated way
      obtain ⟨method, -⟩ := list_of_ofRequest? (info ▸ key_of_treatment cache)
      have answered := (given _ rfl).symm
      rw [stage.eq_of_awaiting awaiting, untasked, unteed, declaredLength?_treatedResponse]
      have head := @passedHead_treated exchange.request reply .copied nofun
      rw [← dev, ← info] at head
      exact .answer rfl (.passed out reply _ sendable answered head)
        (.copied (declaredLength? reply.headers) _
          (Transcript.start_sound reply.body (start.run events).teeBuffer _)
          (fits exchange.request reply (routed exchange found).arrived method answered) rfl rfl rfl
          (Tee.start_bounded _ _ _) (iff_of_true rfl (collects_of_stage rfl rfl)))
  | readDirect | readCopy => exact absurd rfl unread
  | dropBody | dropCopy | abandon => exact absurd rfl stays
  | work task later tee shared found works =>
      cases h with
      | absent absent nothing =>
          refine .absent absent ?_
          rw [nothing, show Slot.exchange _ = none from absent]
          rfl
      | forsaken exchange hexchange forsaken =>
          exact .forsaken exchange hexchange (forsaken.more _)
      | present exchange hexchange stage =>
          have worked := (stage.more [.work id]).beside fun delivery source log delivers =>
            works.delivers found delivers
          refine .present exchange hexchange ?_
          rw [show Slot.exchange _ = some exchange from hexchange, worked.after_eq]
          exact worked

theorem Staged.keep {slot : Slot} (h : start.Staged events id result slot seen) :
    start.Staged (events ++ [event]) id result slot (seen.after slot.exchange) := by
  cases h with
  | absent absent nothing =>
      rw [absent, nothing]
      exact .absent absent rfl
  | forsaken exchange found forsaken => exact .forsaken exchange found (forsaken.more _)
  | present exchange found stage =>
      rw [found, stage.after_eq]
      exact .present exchange found (stage.more [event])

theorem Staged.read (h : start.Staged events id result ((start.run events).slot id) seen) :
    start.Staged (events ++ [.read id]) id result (((start.run events).step (.read id)).slot id)
      (Seen.after { seen with body := (start.run events).heard id seen.body (.read id) }
        (((start.run events).step (.read id)).exchange? id)) := by
  cases h with
  | absent absent nothing =>
      have gone : (start.run events).exchange? id = none := absent
      have idle : (start.run events).step (.read id) = start.run events := by
        simp only [step, Engine.read, gone]
      rw [idle, gone, nothing]
      simp only [heard, gone]
      exact .absent absent rfl
  | forsaken exchange found forsaken =>
      have there : ((start.run events).exchange? id).isSome :=
        Option.isSome_iff_exists.mpr ⟨exchange, found⟩
      have stays : Event.read id ≠ .abandon id := by simp
      obtain ⟨next, kept⟩ := Option.isSome_iff_exists.mp (step_exchange?_isSome there stays)
      exact .forsaken next kept (forsaken.more [.read id])
  | present exchange found stage =>
      have there : (start.run events).exchange? id = some exchange := found
      cases hdelivering : exchange.phase.isDelivering with
      | false =>
          rw [step_read_idle there hdelivering, heard_idle there _ hdelivering, there]
          have kept := stage.more [.read id]
          exact .present exchange found (kept.after_eq.symm ▸ kept)
      | true =>
          rw [heard_read there _ hdelivering]
          cases stage with
          | unsent unsent =>
              cases hphase : exchange.phase <;> simp_all [Phase.isUnsent, Phase.isDelivering]
          | sent relation out awaiting => simp [awaiting, Phase.isDelivering] at hdelivering
          | filtering _ _ _ _ _ _ filtering => simp [filtering, Phase.isDelivering] at hdelivering
          | answered response delivery source sent log responded grounds delivers =>
              obtain ⟨next, hnext, polled⟩ := delivers.read there responded
              have stage : start.Stage (events ++ [.read id]) id result
                  (((start.run events).step (.read id)).slot id)
                  { exchange with phase := .responded response next }
                  ⟨sent, some response.head, log.note ((start.run events).read id).2⟩ :=
                .answered response next source sent _ rfl (grounds.more [.read id]) polled
              rw [hnext, stage.after_eq]
              exact .present _ hnext stage

end Moves

end Stages

theorem run_staged (settings : Settings) (store : CountedStore) (now : Nat) (events : List Event)
    (id : Nat) (result : Except TransportFailure Reply)
    (given : ∀ other, .answer id other ∈ events → other = result) (stays : .abandon id ∉ events)
    (fits : ∀ request reply, (start settings store now).Arrived id request events →
      request.method = "GET" → result = .ok reply →
      reply.body.Fits (declaredLength? reply.headers)) :
    (start settings store now).Staged events id result
      (((start settings store now).run events).slot id)
      ((start settings store now).seen id events) := by
  induction events using List.reverseRecOn with
  | nil => exact .absent rfl rfl
  | append_singleton before event ih =>
      have earlier := ih (fun other member => given other (List.mem_append_left _ member))
        (fun member => stays (List.mem_append_left _ member))
        fun request reply arrived => fits request reply (arrived.more [event])
      rw [seen_concat, run_concat]
      by_cases reads : event = .read id
      · subst reads
        exact earlier.read
      have unheard : ((start settings store now).run before).heard id
          ((start settings store now).seen id before).body event =
            ((start settings store now).seen id before).body := by
        cases event with
        | read other => simp_all [heard]
        | _ => rfl
      rw [unheard]
      rcases step_slot_cases ((start settings store now).run before) event id with same | move
      · rw [show Engine.exchange? _ id = _ from congrArg Slot.exchange same, same]
        exact earlier.keep
      · refine move.staged reads (fun gone => stays (by simp [gone]))
          (fun other answered => given other (by simp [answered]))
          (fun request reply arrived => fits request reply (arrived.more [event]))
          (run_wellFormed (start_wellFormed settings store now) before)
          (run_routed settings store now before id) earlier

end Engine

end Outpost.Proxy
