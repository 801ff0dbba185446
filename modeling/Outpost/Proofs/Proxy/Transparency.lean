import Outpost.Proofs.Proxy.Readings

/-!
# Transparency

What the upstream and the client see of an exchange while the upstream is healthy does not depend
on the handler: the one that caches sends what the one that does not cache sends, and passes on
what comes back, apart from hits, from filtered lists, from granted upgrades and from the mark on
endless watches.
-/

namespace Outpost.Proxy

open Api Cache Coding Config Http Store Outpost.Stream

/-! ## Comparison -/

def Seen.IsFinished (result : Except TransportFailure Reply) (seen : Seen) : Prop :=
  seen.head.isSome ∧
    (seen.body.ending.isSome ∨ seen.sent.isSome ∧
      ∃ reply, result = .ok reply ∧ reply.body.fate = .stalls ∧
        seen.body.bytes = reply.body.bytes)

/-- Two heads have the same status and the same values of every header, except that the first may
have the mark of an endless watch. -/
structure SameHead (request : Request) (head other : StatusCode × Headers) : Prop where
  status : head.1 = other.1
  values : ∀ name, Headers.values head.2 name = Headers.values other.2 name ∨
    name = "transfer-encoding" ∧ request.info.verb = .watch ∧
      request.info.policy ≠ .passthrough ∧ Headers.has other.2 "content-length" = false ∧
      Headers.values head.2 name = [Bytes.ofText "chunked"] ∧ Headers.values other.2 name = []

theorem SameHead.refl {request : Request} (head : StatusCode × Headers) :
    SameHead request head head :=
  ⟨rfl, fun _ => .inl rfl⟩

/-- What has been seen of an exchange is a part of what is seen of the other one in the end, and
in the end all of it. -/
structure Alike (request : Request) (result : Except TransportFailure Reply)
    (seen other : Seen) : Prop where
  sent : seen.sent = none ∨ seen.sent = other.sent
  head : ∀ head, seen.head = some head →
    seen.sent = other.sent ∧ ∃ same, other.head = some same ∧ SameHead request head same
  body : seen.body.bytes <+: other.body.bytes
  ending : ∀ ending, seen.body.ending = some ending →
    seen.body.bytes = other.body.bytes ∧ other.body.ending = some ending
  whole : seen.IsFinished result →
    seen.body.bytes = other.body.bytes ∧ seen.body.ending = other.body.ending

theorem PassedHead.sameHead {handler : HandlerKind} {request : Request} {reply : Reply}
    {head : StatusCode × Headers} (h : PassedHead handler request reply head) :
    SameHead request head (reply.status, returnedHeaders reply.headers) := by
  cases h with
  | plain => exact ⟨rfl, fun name => .inl rfl⟩
  | marked dev marked =>
      refine ⟨rfl, fun name => ?_⟩
      by_cases own : name = "transfer-encoding"
      · subst own
        exact .inr ⟨rfl, marked.verb, marked.policy, marked.endless, values_insert_self _ _ _,
          values_returnedHeaders _ (by decide)⟩
      · exact .inl (values_insert_of_ne _ _ own)

/-! ### What is relayed -/

def relayed (upstream : Upstream) (request : Request)
    (result : Except TransportFailure Reply) : Option Outgoing × (StatusCode × Headers) × Source :=
  match outgoing upstream request with
  | .error error => (none, error.response.head, Source.ofBytes error.status.encode)
  | .ok out =>
      match result with
      | .error failure =>
          let error := ProxyError.transport failure
          (some out, error.response.head, Source.ofBytes error.status.encode)
      | .ok reply => (some out, (reply.status, returnedHeaders reply.headers), reply.body)

section Relayed

variable {upstream : Upstream} {request : Request} {result : Except TransportFailure Reply}

theorem relayed_refused {error : ProxyError} (refused : outgoing upstream request = .error error) :
    relayed upstream request result =
      (none, error.response.head, Source.ofBytes error.status.encode) := by
  simp only [relayed, refused]

theorem relayed_failed {out : Outgoing} {failure : TransportFailure}
    (sendable : outgoing upstream request = .ok out) :
    relayed upstream request (.error failure) =
      (some out, (ProxyError.transport failure).response.head,
        Source.ofBytes (ProxyError.transport failure).status.encode) := by
  simp only [relayed, sendable]

theorem relayed_passed {out : Outgoing} {reply : Reply}
    (sendable : outgoing upstream request = .ok out) :
    relayed upstream request (.ok reply) =
      (some out, (reply.status, returnedHeaders reply.headers), reply.body) := by
  simp only [relayed, sendable]

section Sent

variable {sent : Option Outgoing} {head same : StatusCode × Headers} {source : Source}
  {log other : Log String} (relays : relayed upstream request result = (sent, same, source))

include relays

theorem sent_of_relayed {out : Outgoing} (sendable : outgoing upstream request = .ok out) :
    sent = some out := by
  cases result with
  | error failure => cases relays.symm.trans (relayed_failed sendable); rfl
  | ok reply => cases relays.symm.trans (relayed_passed sendable); rfl

theorem hearsAll_of_isFinished (finished : Seen.IsFinished result ⟨sent, some head, log⟩) :
    log.HearsAll source := by
  obtain ⟨-, ended | ⟨hsent, reply, rfl, stalls, all⟩⟩ := finished
  · exact .inl ended
  · cases sendable : outgoing upstream request with
    | error error =>
        cases relays.symm.trans (relayed_refused sendable)
        cases hsent
    | ok out =>
        cases relays.symm.trans (relayed_passed sendable)
        exact .inr ⟨all, stalls⟩

theorem alike_of_follows (sameHead : SameHead request head same) (follows : log.Follows source)
    (otherFollows : other.Follows source) (all : other.HearsAll source) :
    Alike request result ⟨sent, some head, log⟩ ⟨sent, some same, other⟩ where
  sent := .inr rfl
  head _ found := by
    cases found
    exact ⟨rfl, same, rfl, sameHead⟩
  body := (follows.le_of_hearsAll otherFollows all).1
  ending := (follows.le_of_hearsAll otherFollows all).2
  whole finished := follows.eq_of_hearsAll otherFollows (hearsAll_of_isFinished relays finished) all

end Sent

theorem alike_of_unanswered {sent : Option Outgoing} {other : Seen}
    (same : sent = none ∨ sent = other.sent) : Alike request result ⟨sent, none, .empty⟩ other where
  sent := same
  head _ found := by cases found
  body := List.nil_prefix
  ending _ ended := by cases ended
  whole finished := by cases finished.1

end Relayed

namespace Engine

/-! ## Dispatches -/

section Dispatches

variable {engine : Engine} {id : Nat} {exchange : Exchange}

def HasLeft (id : Nat) (engine : Engine) : Prop :=
  id < engine.nextId ∧ ∀ exchange, engine.exchange? id = some exchange → exchange.phase ≠ .arrived

theorem Turns.ne_arrived {phase : Phase} {store : CountedStore}
    (turns : Turns engine exchange phase store) : phase ≠ .arrived := by
  cases turns <;> nofun

theorem step_hasLeft (h : HasLeft id engine) (event : Event) : HasLeft id (engine.step event) := by
  refine ⟨Nat.lt_of_lt_of_le h.1 (step_nextId engine event), fun next hnext => ?_⟩
  rcases step_slot_cases engine event id with same | move
  · exact h.2 next ((congrArg Slot.exchange same).symm.trans hnext)
  change ((engine.step event).slot id).exchange = some next at hnext
  generalize (engine.step event).slot id = slot at move hnext
  generalize (engine.step event).shared = shared at move
  cases move with
  | arrive request fresh => exact absurd h.1 (Nat.not_lt_of_le (Nat.le_of_eq fresh.symm))
  | turn exchange phase store found turns =>
      cases hnext
      exact turns.ne_arrived
  | abandon => cases hnext
  | readCopy | work => exact h.2 next hnext
  | _ =>
      cases hnext
      nofun

theorem run_hasLeft (h : HasLeft id engine) (events : List Event) :
    HasLeft id (engine.run events) := by
  induction events generalizing engine with
  | nil => exact h
  | cons event rest ih => exact ih (step_hasLeft h event)

theorem dispatch_left (found : engine.exchange? id = some exchange) :
    ∃ phase, (engine.dispatch exchange).exchange? id = some { exchange with phase } ∧
      phase ≠ .arrived := by
  unfold dispatch
  split
  · exact ⟨_, exchange?_setPhase found _, nofun⟩
  generalize hcounted : (if exchange.info.policy = .volatile then
      { engine with metrics := engine.metrics.recordVolatileRequest } else engine) = counted
  have found : counted.exchange? id = some exchange := by
    rw [← hcounted]
    split <;> exact found
  simp only
  repeat' split
  all_goals exact ⟨_, exchange?_setPhase (by exact found) _, nofun⟩

theorem step_left (wellFormed : engine.WellFormed) (found : engine.exchange? id = some exchange)
    (arrived : exchange.phase = .arrived) : HasLeft id (engine.step (.advance id)) := by
  have known : id < engine.nextId := (wellFormed id).known fun empty => by
    cases (congrArg Slot.exchange empty).symm.trans found
  refine ⟨Nat.lt_of_lt_of_le known (step_nextId engine _), fun next hnext => ?_⟩
  have dispatched : engine.step (.advance id) = engine.dispatch exchange := by
    simp only [step, advance, found, arrived]
  obtain ⟨phase, hphase, left⟩ := dispatch_left found
  rw [dispatched, hphase] at hnext
  cases hnext
  exact left

theorem dispatched_once {settings : Settings} {store : CountedStore} {now : Nat}
    {events : List Event} {first second : List Event → Prop}
    (h : (start settings store now).StepsFrom id (fun before exchange =>
      exchange.phase = .arrived ∧ first before) events)
    (hother : (start settings store now).StepsFrom id (fun before exchange =>
      exchange.phase = .arrived ∧ second before) events) :
    ∃ before, first before ∧ second before := by
  obtain ⟨before, after, exchange, rfl, found, arrived, hfirst⟩ := h
  obtain ⟨earlier, later, other, split, hother, otherArrived, hsecond⟩ := hother
  have apart : ∀ {one more rest : List Event} {here there : Exchange},
      ((start settings store now).run one).exchange? id = some here → here.phase = .arrived →
      more = one ++ .advance id :: rest →
      ((start settings store now).run more).exchange? id = some there →
      there.phase ≠ .arrived := by
    rintro one _ rest here there hhere arrived rfl hthere
    have left := step_left (run_wellFormed (start_wellFormed settings store now) one) hhere arrived
    rw [run_append] at hthere
    exact (run_hasLeft left rest).2 there hthere
  rcases same_or_apart split with ⟨rfl, -⟩ | ⟨between, after⟩ | ⟨between, after⟩
  · exact ⟨before, hfirst, hsecond⟩
  · exact absurd otherArrived (apart found arrived after hother)
  · exact absurd arrived (apart hother otherArrived after found)

end Dispatches

/-! ## Courses -/

section Courses

variable {start : Engine} {id : Nat} {request : Request} {result : Except TransportFailure Reply}
  {events : List Event}

/-- In the run, the request arrived with this number; its client does not go away, the upstream
answers in no other way than this, and the handler that caches dispatched it while the upstream was
healthy. -/
structure Course (start : Engine) (id : Nat) (request : Request)
    (result : Except TransportFailure Reply) (events : List Event) : Prop where
  arrived : start.Arrived id request events
  dispatched : start.handler = .dev → start.DispatchedHealthy id events
  given : ∀ other, .answer id other ∈ events → other = result
  stays : .abandon id ∉ events

theorem Course.more (h : start.Course id request result events) {more : List Event}
    (own : ∀ event ∈ more, event.IsOwn id result) :
    start.Course id request result (events ++ more) where
  arrived := h.arrived.more more
  dispatched dev := (h.dispatched dev).more more
  given other member := by
    rcases List.mem_append.mp member with earlier | later
    · exact h.given other earlier
    · exact (own _ later).2
  stays member := by
    rcases List.mem_append.mp member with earlier | later
    · exact h.stays earlier
    · exact own _ later

variable (start events id request result) in
inductive Told : Seen → Prop where
  | answered (sent : Option Outgoing) (head : StatusCode × Headers) (source : Source)
      (log : Log String) (grounds : start.Grounds events id request result sent head source)
      (follows : log.Follows source) (all : log.HearsAll source) : Told ⟨sent, some head, log⟩
  | excepted (out : Outgoing) (reply : Reply) (dev : start.handler = .dev)
      (given : result = .ok reply) (excepted : Excepted request reply) :
      Told ⟨some out, none, .empty⟩

theorem Told.isFinished {seen : Seen} (h : start.Told id request result events seen) :
    seen.IsFinished result ∨ start.handler = .dev ∧ seen.sent.isSome ∧
      ∃ reply, result = .ok reply ∧ Excepted request reply := by
  cases h with
  | excepted out reply dev given excepted => exact .inr ⟨dev, rfl, reply, given, excepted⟩
  | answered sent head source log grounds follows all =>
      cases grounds with
      | hit | refused | failed => exact .inl ⟨rfl, .inl (all.ended (by simp))⟩
      | passed out reply _ sendable given =>
          refine .inl ⟨rfl, all.imp_right fun ⟨bytes, stalls⟩ => ?_⟩
          exact ⟨rfl, reply, given, stalls, bytes⟩
      | excepted out reply _ _ dev sendable given excepted =>
          exact .inr ⟨dev, rfl, reply, given, excepted⟩

variable (start id request result events) in
def Tells : Prop :=
  ∃ more, (∀ event ∈ more, event.IsOwn id result) ∧
    start.Told id request result (events ++ more) (start.seen id (events ++ more))

theorem Course.tells_of_leads {goal : Engine → Prop}
    (h : start.Course id request result events) (leads : (start.run events).Leads id result goal)
    (next : ∀ more, start.Course id request result (events ++ more) →
      goal (start.run (events ++ more)) → start.Tells id request result (events ++ more)) :
    start.Tells id request result events := by
  obtain ⟨more, own, reached⟩ := leads
  rw [← run_append] at reached
  obtain ⟨further, ownFurther, told⟩ := next more (h.more own) reached
  rw [List.append_assoc] at told
  exact ⟨more ++ further, List.forall_mem_append.mpr ⟨own, ownFurther⟩, told⟩

variable (start id request result events) in
/-- How what has been seen of an exchange compares with what is seen of one that is relayed. -/
inductive Compares (seen other : Seen) : Prop where
  | alike (alike : Alike request result seen other)
  | hit (key : Key) (payload : Bytes) (asks : AsksFor request key)
      (hit : start.Hit events id key payload) (sent : seen.sent = none)
      (head : seen.head = some (Response.json 200 payload).head)
      (body : seen.body.Follows (Source.ofBytes payload))
  | excepted (reply : Reply) (given : result = .ok reply) (excepted : Excepted request reply)
      (sent : seen.sent = other.sent)

theorem run_exchange?_isSome {engine : Engine} (there : (engine.exchange? id).isSome)
    (stays : .abandon id ∉ events) : ((engine.run events).exchange? id).isSome := by
  induction events generalizing engine with
  | nil => exact there
  | cons event rest ih =>
      rw [List.mem_cons, not_or] at stays
      exact ih (step_exchange?_isSome there (Ne.symm stays.1)) stays.2

theorem Course.exchange?_isSome (h : start.Course id request result events) :
    ((start.run events).exchange? id).isSome := by
  obtain ⟨before, after, rfl, number⟩ := h.arrived
  have stays : .abandon id ∉ after := fun gone => h.stays (by simp [gone])
  have there : (((start.run before).step (.arrive request)).exchange? id).isSome := by
    refine (congrArg Option.isSome (@exchange?_arrive (start.run before) request id)).trans ?_
    rw [if_pos number]
    simp
  have kept : ((((start.run before).step (.arrive request)).run after).exchange? id).isSome :=
    run_exchange?_isSome there stays
  rw [run_append]
  exact kept

end Courses

section Runs

variable {settings : Settings} {store : CountedStore} {now id : Nat} {request : Request}
  {result : Except TransportFailure Reply} {events : List Event}
  (fits : request.method = "GET" → ∀ reply, result = .ok reply →
    reply.body.Fits (declaredLength? reply.headers))
  (course : (start settings store now).Course id request result events)

include fits course

theorem Course.stage :
    ∃ exchange, ((start settings store now).run events).exchange? id = some exchange ∧
      exchange.request = request ∧
      (start settings store now).Stage events id result
        (((start settings store now).run events).slot id) exchange
        ((start settings store now).seen id events) := by
  have staged := run_staged settings store now events id result course.given course.stays
    fun other reply arrived method given => by
      cases arrived.unique course.arrived
      exact fits method reply given
  cases staged with
  | absent absent =>
      have there := course.exchange?_isSome
      rw [show Engine.exchange? _ id = none from absent] at there
      cases there
  | forsaken exchange found forsaken =>
      obtain ⟨before, healthy, unhealthy⟩ :=
        dispatched_once (course.dispatched forsaken.1) forsaken.2
      cases healthy.symm.trans unhealthy
  | present exchange found stage =>
      have routed := run_routed settings store now events id exchange found
      exact ⟨exchange, found, routed.arrived.unique course.arrived, stage⟩

omit fits in
theorem Course.ne_arrived (dev : (start settings store now).handler = .dev) {exchange : Exchange}
    (found : ((start settings store now).run events).exchange? id = some exchange) :
    exchange.phase ≠ .arrived := by
  obtain ⟨before, after, other, rfl, hother, arrived, -⟩ := course.dispatched dev
  have wellFormed := run_wellFormed (start_wellFormed settings store now) before
  rw [run_append] at found
  exact (run_hasLeft (step_left wellFormed hother arrived) after).2 exchange found

theorem Course.answered {exchange : Exchange} {response : Response} {delivery : Delivery}
    (found : ((start settings store now).run events).exchange? id = some exchange)
    (responded : exchange.phase = .responded response delivery) :
    ∃ sent log source,
      (start settings store now).seen id events = ⟨sent, some response.head, log⟩ ∧
      (start settings store now).Grounds events id request result sent response.head source ∧
      Delivers source log (((start settings store now).run events).slot id) delivery := by
  obtain ⟨other, hother, rfl, stage⟩ := course.stage fits
  cases found.symm.trans hother
  generalize (start settings store now).seen id events = seen at stage
  cases stage with
  | unsent unsent => rw [responded] at unsent; cases unsent
  | sent relation out awaiting => cases responded.symm.trans awaiting
  | filtering _ _ _ _ _ _ filtering => cases responded.symm.trans filtering
  | answered _ _ source sent log hresponded grounds delivers =>
      cases responded.symm.trans hresponded
      exact ⟨sent, log, source, rfl, grounds, delivers⟩

theorem Course.told_of_atLast (last : AtLast id ((start settings store now).run events)) :
    (start settings store now).Told id request result (events ++ [.read id])
      ((start settings store now).seen id (events ++ [.read id])) := by
  cases last with
  | direct exchange response rest found responded last =>
      obtain ⟨sent, log, source, seen, grounds, delivers⟩ := course.answered fits found responded
      obtain ⟨next, -, polled⟩ := delivers.read found responded
      rw [seen_read found responded delivers seen]
      refine .answered sent response.head source _ (grounds.more [.read id]) polled.follows ?_
      cases delivers with
      | direct _ leaves =>
          rw [read_direct found responded]
          exact leaves.hearsAll _ last
  | copied exchange response tee found responded copied last =>
      obtain ⟨sent, log, source, seen, grounds, delivers⟩ := course.answered fits found responded
      obtain ⟨next, -, polled⟩ := delivers.read found responded
      rw [seen_read found responded delivers seen]
      refine .answered sent response.head source _ (grounds.more [.read id]) polled.follows ?_
      cases delivers with
      | copied expectedLength transcript sound _ present there heard =>
          cases copied.symm.trans present
          rw [read_copied found responded copied, ← heard]
          exact sound.hearsAll _ last

theorem Course.tells_of_atLast (last : AtLast id ((start settings store now).run events)) :
    (start settings store now).Tells id request result events :=
  ⟨[.read id], by simp [Event.IsOwn], course.told_of_atLast fits last⟩

theorem Course.tells_of_responded {exchange : Exchange} {response : Response}
    {delivery : Delivery}
    (found : ((start settings store now).run events).exchange? id = some exchange)
    (responded : exchange.phase = .responded response delivery) :
    (start settings store now).Tells id request result events := by
  obtain ⟨sent, log, source, seen, grounds, delivers⟩ := course.answered fits found responded
  cases delivers with
  | direct rest leaves =>
      exact course.tells_of_leads (leads_of_direct found responded) fun more later last =>
        later.tells_of_atLast fits last
  | copied expectedLength transcript sound _ present there heard bounded collects =>
      have copies : Copies id transcript.tee ((start settings store now).run events) :=
        ⟨⟨exchange, response, found, responded⟩, present, bounded,
          fun receiving => collects.mp (sound.receiving.symm.trans receiving)⟩
      exact course.tells_of_leads (leads_of_copies copies) fun more later last =>
        later.tells_of_atLast fits last

theorem Course.tells_of_replied
    (replied : Stands id request (Phase.isReplied · = true)
      ((start settings store now).run events)) :
    (start settings store now).Tells id request result events := by
  obtain ⟨exchange, found, rfl, replied⟩ := replied
  cases hphase : exchange.phase with
  | responded response delivery => exact course.tells_of_responded fits found hphase
  | filtering kind response source collector =>
      obtain ⟨other, hother, -, stage⟩ := course.stage fits
      cases found.symm.trans hother
      obtain ⟨out, reply, seen, dev, -, given, excepted⟩ := stage.of_filtering hphase
      refine ⟨[], nofun, ?_⟩
      rw [List.append_nil, seen]
      exact .excepted out reply dev given excepted
  | arrived | firstLook | approaching | waiting | secondLook | sending | awaiting =>
      rw [hphase] at replied
      cases replied

theorem Course.tells_of_left
    (left : Stands id request (·.isUnsent = false) ((start settings store now).run events)) :
    (start settings store now).Tells id request result events := by
  obtain ⟨exchange, found, rfl, left⟩ := left
  cases hphase : exchange.phase with
  | awaiting relation out =>
      have wellFormed := run_wellFormed (start_wellFormed settings store now) events
      exact course.tells_of_leads (leads_of_awaiting wellFormed found hphase)
        fun more later replied => later.tells_of_replied fits replied
  | filtering | responded =>
      exact course.tells_of_replied fits ⟨exchange, found, rfl, by rw [hphase]; rfl⟩
  | arrived | firstLook | approaching | waiting | secondLook | sending =>
      rw [hphase] at left
      cases left

/-- Nothing but its own client or the upstream can keep an exchange from coming to its end. -/
theorem Course.tells : (start settings store now).Tells id request result events := by
  obtain ⟨exchange, found, rfl, stage⟩ := course.stage fits
  cases unsent : exchange.phase.isUnsent with
  | false => exact course.tells_of_left fits ⟨exchange, found, rfl, unsent⟩
  | true =>
      have wellFormed := run_wellFormed (start_wellFormed settings store now) events id
      have handler := run_handler (start settings store now) events
      have formed := wellFormed.exchange exchange found
      refine course.tells_of_leads (leads_of_unsent formed found unsent fun arrived dev => ?_)
        fun more later left => later.tells_of_left fits left
      exact absurd arrived (course.ne_arrived (handler.symm.trans dev) found)

/-! ## Handlers compared -/

theorem Course.eq_relayed (sample : settings.handler = .sample)
    (finished : ((start settings store now).seen id events).IsFinished result) :
    ∃ sent head source log, relayed settings.upstream request result = (sent, head, source) ∧
      (start settings store now).seen id events = ⟨sent, some head, log⟩ ∧
      log.Follows source ∧ log.HearsAll source := by
  have other : (start settings store now).handler ≠ .dev := by
    have handler : (start settings store now).handler = .sample := sample
    rw [handler]
    nofun
  obtain ⟨exchange, found, rfl, stage⟩ := course.stage fits
  generalize (start settings store now).seen id events = seen at finished stage
  cases stage with
  | unsent | sent | filtering => cases finished.1
  | answered response delivery source sent log responded grounds delivers =>
      generalize response.head = head at grounds finished
      have relays : relayed settings.upstream exchange.request result = (sent, head, source) := by
        cases grounds with
        | hit key payload dev | excepted _ _ _ _ dev => exact absurd dev other
        | refused error refused => exact relayed_refused refused
        | failed out failure sendable given => exact given ▸ relayed_failed sendable
        | passed out reply head sendable given passed =>
            cases passed with
            | plain => exact given ▸ relayed_passed sendable
            | marked dev => exact absurd dev other
      exact ⟨sent, head, source, log, relays, rfl, delivers.follows,
        hearsAll_of_isFinished relays finished⟩

theorem Course.compares {sent : Option Outgoing} {same : StatusCode × Headers} {source : Source}
    {log : Log String} (relays : relayed settings.upstream request result = (sent, same, source))
    (follows : log.Follows source) (all : log.HearsAll source) :
    (start settings store now).Compares id request result events
      ((start settings store now).seen id events) ⟨sent, some same, log⟩ := by
  obtain ⟨exchange, found, rfl, stage⟩ := course.stage fits
  have routed := run_routed settings store now events id exchange found
  generalize (start settings store now).seen id events = seen at stage
  cases stage with
  | unsent => exact .alike (alike_of_unanswered (.inl rfl))
  | sent relation out awaiting =>
      obtain ⟨-, sendable⟩ := routed.awaiting awaiting
      exact .alike (alike_of_unanswered (.inr (sent_of_relayed relays sendable).symm))
  | filtering _ _ _ _ out reply filtering dev sendable given excepted =>
      exact .excepted reply given excepted (sent_of_relayed relays sendable).symm
  | answered response delivery body shown heard responded grounds delivers =>
      have hears := delivers.follows
      generalize response.head = head at grounds
      cases grounds with
      | hit key payload dev asks hit => exact .hit key payload asks hit rfl rfl hears
      | refused error refused =>
          cases relays.symm.trans (relayed_refused refused)
          exact .alike (alike_of_follows relays (.refl _) hears follows all)
      | failed out failure sendable given =>
          subst given
          cases relays.symm.trans (relayed_failed sendable)
          exact .alike (alike_of_follows relays (.refl _) hears follows all)
      | passed out reply _ sendable given passed =>
          subst given
          cases relays.symm.trans (relayed_passed sendable)
          exact .alike (alike_of_follows relays passed.sameHead hears follows all)
      | excepted out reply _ _ dev sendable given excepted =>
          exact .excepted reply given excepted (sent_of_relayed relays sendable).symm

end Runs

/-- Whatever the run has left behind, a request that arrives next takes its course. -/
theorem course_of_arrival (settings : Settings) (store : CountedStore) (now : Nat)
    (events : List Event) (request : Request) (result : Except TransportFailure Reply)
    (healthy : settings.handler = .dev →
      ((start settings store now).run events).health.isHealthy = true)
    (unheard : ∀ event ∈ events,
      event.exchange? ≠ some ((start settings store now).run events).nextId) :
    (start settings store now).Course ((start settings store now).run events).nextId request
      result (events ++ [.arrive request,
        .advance ((start settings store now).run events).nextId]) where
  arrived := ⟨events, _, rfl, rfl⟩
  dispatched dev := by
    have wellFormed := run_wellFormed (start_wellFormed settings store now) events
    have found := exchange?_arrival wellFormed request
    rw [← run_concat] at found
    refine ⟨events ++ [.arrive request], [], _, by simp, found, rfl, ?_⟩
    rw [run_concat]
    exact healthy dev
  given other member := by
    rcases List.mem_append.mp member with earlier | later
    · exact absurd rfl (unheard _ earlier)
    · simp at later
  stays member := by
    rcases List.mem_append.mp member with earlier | later
    · exact absurd rfl (unheard _ earlier)
    · simp at later

/-- For a request that the upstream answers so, the first handler shows nothing but what the second
one shows in the end, but for the exceptions; and on either side events of the exchange's own, after
any others, take it to the end. -/
structure Transparent (caching plain : Engine) (request : Request)
    (result : Except TransportFailure Reply) : Prop where
  compares : ∀ id events other more, caching.Course id request result events →
    plain.Course other request result more → (plain.seen other more).IsFinished result →
    caching.Compares id request result events (caching.seen id events) (plain.seen other more)
  finishes : ∀ id events, caching.Course id request result events →
    ∃ more, (∀ event ∈ more, event.IsOwn id result) ∧
      ((caching.seen id (events ++ more)).IsFinished result ∨
        (caching.seen id (events ++ more)).sent.isSome ∧
          ∃ reply, result = .ok reply ∧ Excepted request reply)
  finishesPlain : ∀ id events, plain.Course id request result events →
    ∃ more, (∀ event ∈ more, event.IsOwn id result) ∧
      (plain.seen id (events ++ more)).IsFinished result

/-- A declared length fits the body where it may decide when a copy is complete: an answer to a
`HEAD` request declares the length of a body that it does not have. -/
theorem dev_transparent (settings : Settings) (store plainStore : CountedStore)
    (now plainNow : Nat) (request : Request) (result : Except TransportFailure Reply)
    (fits : request.method = "GET" → ∀ reply, result = .ok reply →
      reply.body.Fits (declaredLength? reply.headers)) :
    Transparent (start { settings with handler := .dev } store now)
      (start { settings with handler := .sample } plainStore plainNow) request result where
  compares id events other more course plain finished := by
    obtain ⟨sent, head, source, log, relays, shown, follows, all⟩ :=
      plain.eq_relayed fits rfl finished
    rw [shown]
    exact course.compares fits relays follows all
  finishes id events course := by
    obtain ⟨more, own, told⟩ := course.tells fits
    exact ⟨more, own, told.isFinished.imp_right fun excepted => excepted.2⟩
  finishesPlain id events course := by
    obtain ⟨more, own, told⟩ := course.tells fits
    exact ⟨more, own, told.isFinished.resolve_right fun excepted => nomatch excepted.1⟩

/-- A list of the durable policy, whose body is copied into the cache on its way. -/
theorem dev_transparent_copied :
    let reply : Reply := {
      status := 200
      headers := [("content-length", Bytes.ofText "2"), ("keep-alive", Bytes.ofText "timeout=5")]
      body := ⟨[.chunk [0x7B], .hold, .chunk [0x7D]]⟩ }
    let caching := start { Settings.default default with handler := .dev } .inMemory 0
    let plain := start { Settings.default default with handler := .sample } .inMemory 0
    let reads : List Event := [.read 0, .read 0, .read 0, .read 0]
    let course : List Event := [.arrive podsRequest, .advance 0] ++
      ([.advance 0, .answer 0 (.ok reply)] ++ reads)
    (∀ other, (.ok reply : Except TransportFailure Reply) = .ok other →
      other.body.Fits (declaredLength? other.headers)) ∧
      caching.Course 0 podsRequest (.ok reply) (.probed true :: course) ∧
      plain.Course 0 podsRequest (.ok reply) course ∧
      ((caching.run (.probed true :: course)).tee? 0).isSome ∧
      (caching.seen 0 (.probed true :: course)).body.bytes = [0x7B, 0x7D] ∧
      (caching.seen 0 (.probed true :: course)).IsFinished (.ok reply) ∧
      (plain.seen 0 course).IsFinished (.ok reply) ∧
      Transparent caching plain podsRequest (.ok reply) := by
  intro reply caching plain reads course
  have fits : ∀ other, (.ok reply : Except TransportFailure Reply) = .ok other →
      other.body.Fits (declaredLength? other.headers) := by
    rintro other ⟨⟩ length declared
    have measure : declaredLength? reply.headers = some 2 := by decide +kernel
    cases measure.symm.trans declared
    decide
  have own : ∀ event ∈ ([.advance 0, .answer 0 (.ok reply)] ++ reads : List Event),
      event.IsOwn 0 (.ok reply) := by simp [reads, Event.IsOwn]
  refine ⟨fits, ?_, ?_, by decide +kernel, by decide +kernel, ⟨by decide +kernel, ?_⟩,
    ⟨by decide +kernel, ?_⟩,
    dev_transparent (Settings.default default) .inMemory .inMemory 0 0 podsRequest _ fun _ => fits⟩
  · exact (course_of_arrival { Settings.default default with handler := .dev } .inMemory 0
      [.probed true] podsRequest (.ok reply) (fun _ => rfl) (by simp [Event.exchange?])).more own
  · exact (course_of_arrival { Settings.default default with handler := .sample } .inMemory 0
      [] podsRequest (.ok reply) nofun nofun).more own
  · exact .inl (by decide +kernel)
  · exact .inl (by decide +kernel)

end Engine

end Outpost.Proxy
