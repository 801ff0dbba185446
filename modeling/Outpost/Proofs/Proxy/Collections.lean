import Outpost.Proofs.Proxy.Courses
import Outpost.Proofs.Proxy.Eligibility

/-!
# Whose list is answered from the volatile tier

An entry of the volatile tier was put there for one request, whose kind and namespace are those of
its key.  The group of the API is not in the key: a hit may bring the list of another group, as soon
as two groups are asked for the same key.
-/

namespace Outpost.Proxy

open Api Cache Coding Config Http Store Outpost.Stream

/-- Requests for one collection, in whatever version. -/
structure SameCollection (first second : Request) : Prop where
  group : first.info.apiGroup = second.info.apiGroup
  resource : first.info.resource = second.info.resource
  scope : first.info.scope = second.info.scope

theorem sameCollection_iff {first second : Request} {key : Key}
    (hfirst : Key.ofRequest? first.info = some key)
    (hsecond : Key.ofRequest? second.info = some key) :
    SameCollection first second ↔ first.info.apiGroup = second.info.apiGroup := by
  have named : ∀ {request : Request}, Key.ofRequest? request.info = some key →
      request.info.resource = key.kind.name ∧ request.info.scope = key.scope := by
    intro request h
    unfold Key.ofRequest? at h
    obtain ⟨kind, supported, h⟩ := Option.bind_eq_some_iff.mp h
    obtain ⟨queryClass, -, h⟩ := Option.bind_eq_some_iff.mp h
    cases h
    unfold RequestInfo.supportedList? at supported
    split at supported
    · exact ⟨ResourceKind.ofName?_eq_some_iff.mp supported, rfl⟩
    · cases supported
  obtain ⟨resource, scope⟩ := named hfirst
  obtain ⟨resourceSecond, scopeSecond⟩ := named hsecond
  exact ⟨fun h => h.group, fun group =>
    ⟨group, resource.trans resourceSecond.symm, scope.trans scopeSecond.symm⟩⟩

theorem AsksFor.resourceUsage {request : Request} {key : Key}
    (asks : AsksFor request key) : key.queryClass = .resourceUsage := by
  have policy := Key.policy_of_ofRequest? asks.asked
  rw [asks.volatile] at policy
  exact (Option.some.inj policy).symm

namespace Engine

section Stored

variable {settings : Settings} {store : CountedStore} {now : Nat} {events : List Event}
  {id other : Nat} {request asking : Request} {key : Key} {reply given : Reply}
  {payload bytes : Bytes}

/-- In the run, the entry of the key was put into the volatile tier by the caching task of this
request, which had collected it from this reply. -/
structure Stored (start : Engine) (id : Nat) (request : Request) (key : Key) (reply : Reply)
    (payload : Bytes) (events : List Event) : Prop where
  arrived : start.Arrived id request events
  commissioned : start.Commissioned id request key reply events
  drawn : Drawn reply payload
  inserted : ∃ before after, events = before ++ .work id :: after ∧
    (start.run before).tiers.volatile? key = none ∧
    ((start.run before).step (.work id)).tiers.volatile? key = some payload

theorem Stored.more {start : Engine} (h : start.Stored id request key reply payload events)
    (more : List Event) : start.Stored id request key reply payload (events ++ more) := by
  obtain ⟨arrived, commissioned, drawn, before, after, rfl, absent, present⟩ := h
  exact ⟨arrived.more more, commissioned.more more, drawn, before, after ++ more, by simp, absent,
    present⟩

theorem Stored.answered {start : Engine}
    (h : start.Stored id request key reply payload events) : .answer id (.ok reply) ∈ events := by
  obtain ⟨before, after, -, -, rfl, -⟩ := h.commissioned
  simp

theorem Commissioned.arrived
    (h : (Engine.start settings store now).Commissioned id request key reply events) :
    (Engine.start settings store now).Arrived id request events := by
  obtain ⟨before, after, exchange, out, rfl, found, rfl, -⟩ := h
  exact (run_routed settings store now before id exchange found).arrived.more _

theorem inserting_of_volatile? {engine : Engine} {event : Event}
    (absent : engine.tiers.volatile? key = none)
    (present : (engine.step event).tiers.volatile? key = some payload) :
    ∃ id task, event = .work id ∧ engine.task? id = some task ∧ task.key = key ∧
      task.stage = .inserting payload := by
  have changed : (engine.step event).tiers.volatile ≠ engine.tiers.volatile := by
    intro same
    rw [Tiers.volatile?_congr same, absent] at present
    cases present
  obtain ⟨id, caches⟩ := step_caches (.inl changed)
  have tiers : (engine.step event).tiers = (engine.step event).shared.tiers := rfl
  rw [tiers] at present
  cases caches with
  | insert task collected _ found inserting inserted same =>
      rw [inserted] at present
      rcases Tiers.volatile?_of_insertVolatile present with earlier | ⟨rfl, rfl⟩
      · cases absent.symm.trans earlier
      · exact ⟨id, task, rfl, found, rfl, inserting⟩
  | populate task population progress _ found populating step =>
      have kept := Population.step_volatile? engine.tiers engine.store population key
      rw [step, absent] at kept
      cases kept.symm.trans present

theorem run_stored
    (present : ((Engine.start settings store now).run events).tiers.volatile? key =
      some payload) :
    ∃ id request reply, (Engine.start settings store now).Stored id request key reply payload
      events := by
  induction events using List.reverseRecOn with
  | nil => cases present
  | append_singleton before event ih =>
      rw [run_concat] at present
      cases absent : ((Engine.start settings store now).run before).tiers.volatile? key with
      | some found =>
          have wellFormed := run_wellFormed (start_wellFormed settings store now) before
          cases (step_volatile? wellFormed absent event).symm.trans present
          obtain ⟨id, request, reply, stored⟩ := ih absent
          exact ⟨id, request, reply, stored.more [event]⟩
      | none =>
          obtain ⟨id, task, rfl, found, rfl, inserting⟩ := inserting_of_volatile? absent present
          have due := run_filed settings store now before id task found
          rw [inserting] at due
          obtain ⟨-, request, reply, commissioned, drawn⟩ := due
          exact ⟨id, request, reply, commissioned.arrived.more _, commissioned.more _, drawn,
            before, [], rfl, absent, present⟩

/-- An entry is stored once. -/
theorem Stored.unique
    (h : (Engine.start settings store now).Stored id request key reply payload events)
    (hother : (Engine.start settings store now).Stored other asking key given bytes events) :
    request = asking := by
  obtain ⟨arrived, -, -, before, after, rfl, absent, present⟩ := h
  obtain ⟨arrivedOther, -, -, earlier, later, split, absentOther, presentOther⟩ := hother
  have apart : ∀ {first second : List Event} {number : Nat} {entry : Bytes} {rest : List Event},
      (((Engine.start settings store now).run first).step (.work number)).tiers.volatile? key =
        some entry →
      ((Engine.start settings store now).run second).tiers.volatile? key = none →
      second ≠ first ++ .work number :: rest := by
    rintro first second number entry rest there missing rfl
    rw [run_append] at missing
    have wellFormed := run_wellFormed (start_wellFormed settings store now) first
    cases missing.symm.trans (run_volatile? (step_wellFormed wellFormed (.work number)) there rest)
  rcases same_or_apart split with ⟨-, same⟩ | ⟨between, after⟩ | ⟨between, after⟩
  · cases same
    exact arrived.unique arrivedOther
  · exact absurd after (apart present absentOther)
  · exact absurd after (apart presentOther absent)

end Stored

/-- Whenever a request is answered with an entry, the entry was stored for a request of the same
collection. -/
def AnswersWithinCollections (start : Engine) (events : List Event) : Prop :=
  ∀ before after id exchange key payload, events = before ++ .advance id :: after →
    (start.run before).exchange? id = some exchange →
    (exchange.phase = .firstLook key ∨ exchange.phase = .secondLook key) →
    (start.run before).tiers.volatile? key = some payload →
    ∃ origin request reply, start.Stored origin request key reply payload before ∧
      SameCollection request exchange.request

/-! ## How an entry comes about -/

section Filling

variable {engine : Engine} {id : Nat} {request : Request} {key : Key}

structure Fills (reply : Reply) (payload : Bytes) : Prop where
  treated : isTreated reply.status = true
  json : isJson reply.headers = true
  completes : ∀ now buffer, (Collector.start (declared? reply.headers)).Completes payload
    ((Tee.start reply.body buffer (declaredLength? reply.headers)).pollForeground
      now).1.pollBackground.2

def emptyReply : Reply := ⟨200, [], ⟨[]⟩⟩

theorem fills_emptyReply : Fills emptyReply [] := ⟨rfl, rfl, fun _ _ => rfl⟩

theorem treatment_asked {reply : Reply} (tiers : Tiers) (asks : AsksFor request key)
    (treated : isTreated reply.status = true) (json : isJson reply.headers = true) :
    treatment tiers request.info reply.status (treatedResponse request.info reply).headers =
      .cache key := by
  have asked : Key.ofRequest? request.info = some key := asks.asked
  have volatile : request.info.policy = .volatile := asks.volatile
  obtain ⟨kind, supported⟩ : ∃ kind, request.info.supportedList? = some kind := by
    unfold Key.ofRequest? at asked
    obtain ⟨kind, supported, -⟩ := Option.bind_eq_some_iff.mp asked
    exact ⟨kind, supported⟩
  have json : isJson (treatedResponse request.info reply).headers = true := by
    unfold isJson at json ⊢
    rwa [firstText?_treatedResponse request.info reply (by decide) (by decide)]
  unfold treatment
  simp [volatile, treated, supported, asked, asks.resourceUsage, json]

theorem leads_to_entry {reply : Reply} {payload : Bytes} (wellFormed : engine.WellFormed)
    (asks : AsksFor request key) (fills : Fills reply payload)
    (h : Stands id request (fun phase => ∃ out, phase = .awaiting .treated out) engine) :
    engine.Leads id (.ok reply) fun after => (after.tiers.volatile? key).isSome := by
  obtain ⟨exchange, found, rfl, out, awaiting⟩ := h
  have number := id_of_exchange? found
  subst number
  have formed := (wellFormed exchange.id).exchange exchange found
  have bare := (wellFormed exchange.id).bare found (by rw [awaiting]; rfl)
  have treatment := treatment_asked engine.tiers asks fills.treated fills.json
  refine .step (.answer exchange.id (.ok reply)) ⟨rfl, rfl⟩ ?_
  rw [step_treat found reply awaiting]
  unfold treat
  have info : exchange.info = exchange.request.info := formed.info
  rw [← info] at treatment
  simp only [treatment]
  have copied := slot_copyForCache key (treatedResponse exchange.info reply) reply.body bare
  rw [declared?_treatedResponse, declaredLength?_treatedResponse] at copied
  generalize engine.copyForCache exchange key (treatedResponse exchange.info reply)
    reply.body = answered at copied ⊢
  refine .step (.read exchange.id) rfl ?_
  rw [step_readCopy (congrArg Slot.exchange copied) rfl (congrArg Slot.tee copied)]
  have completes := fills.completes answered.now engine.teeBuffer
  generalize (Tee.start reply.body engine.teeBuffer
    (declaredLength? reply.headers)).pollForeground answered.now = polled at completes ⊢
  generalize hread : answered.setTee exchange.id polled.1 = delivered
  have read : delivered.slot exchange.id =
      { answered.slot exchange.id with tee := some polled.1 } := by
    rw [← hread]
    exact slot_setTee_self (congrArg Slot.tee copied)
  rw [copied] at read
  have worked : delivered.task? exchange.id = some {
      exchange := exchange.id, key, gate := exchange.gate
      stage := .collecting (Collector.start (declared? reply.headers)) } :=
    congrArg Slot.task read
  rcases brought : polled.1.pollBackground with ⟨rest, poll⟩
  rw [brought] at completes
  refine .step (.work exchange.id) rfl ?_
  rw [step_collected worked rfl (congrArg Slot.tee read) brought completes]
  have stored := task?_collected worked rest (.ok payload)
  have inserting : stageAfter key (.ok payload) = .inserting payload := if_pos asks.resourceUsage
  simp only [inserting] at stored
  refine .step (.work exchange.id) rfl (.here ?_)
  rw [step_insert stored rfl, Tiers.volatile?_insertVolatile, if_pos rfl, Option.isSome_or]
  exact Bool.or_true _

theorem leads_from_arrival {settings : Settings} (dev : settings.handler = .dev)
    (asks : AsksFor request key) {out : Outgoing}
    (sendable : outgoing settings.upstream request = .ok out) {reply : Reply} {payload : Bytes}
    (fills : Fills reply payload) :
    ((start settings .inMemory 0).run [.probed true, .arrive request]).Leads 0 (.ok reply)
      fun after => (after.tiers.volatile? key).isSome := by
  let events : List Event := [.probed true, .arrive request]
  have found : ((start settings .inMemory 0).run events).exchange? 0 =
      some ⟨0, request, request.info, none, .arrived⟩ := rfl
  obtain ⟨own, hown, settled⟩ := leads_of_arrived dev rfl found rfl rfl
  have upstream : (((start settings .inMemory 0).run events).run own).upstream =
      settings.upstream :=
    congrArg Constants.upstream ((run_constants _ _).trans (run_constants _ _))
  cases settled with
  | sent h =>
      obtain ⟨exchange, found, same, sent⟩ := h
      rw [← run_append] at found
      have routed := run_routed settings .inMemory 0 (events ++ own) 0 exchange found
      have treated : ∃ out, exchange.phase = .awaiting .treated out := by
        cases hphase : exchange.phase <;> rw [hphase] at sent <;> try cases sent
        rename_i relation request
        obtain ⟨way, -⟩ := routed.awaiting hphase
        have handler : (start settings .inMemory 0).handler = .dev := dev
        rw [same, handler] at way
        simp only [Relation.of, asks.plain, Bool.false_eq_true, if_false] at way
        exact ⟨request, by rw [way]⟩
      obtain ⟨more, hmore, filled⟩ := leads_to_entry
        (run_wellFormed (start_wellFormed settings .inMemory 0) _) asks fills
        ⟨exchange, found, same, treated⟩
      rw [← run_append, List.append_assoc, run_append] at filled
      exact ⟨own ++ more, List.forall_mem_append.mpr ⟨hown, hmore⟩, filled⟩
  | refused error refused h =>
      rw [upstream, sendable] at refused
      cases refused
  | hit other payload asksOther present h =>
      cases asks.unique asksOther
      exact ⟨own, hown, Option.isSome_iff_exists.mpr ⟨payload, present⟩⟩

/-- A request that can be sent upstream fills its entry in some run of its own, with whatever reply
its entry can be filled. -/
theorem exists_entry {settings : Settings} (dev : settings.handler = .dev)
    (asks : AsksFor request key) {out : Outgoing}
    (sendable : outgoing settings.upstream request = .ok out) {reply : Reply} {payload : Bytes}
    (fills : Fills reply payload) :
    ∃ events : List Event, (∀ other, .arrive other ∈ events → other = request) ∧
      (∀ other given, .answer other (.ok given) ∈ events → given = reply) ∧
      (((start settings .inMemory 0).run events).tiers.volatile? key).isSome := by
  obtain ⟨own, hown, filled⟩ := leads_from_arrival dev asks sendable fills
  rw [← run_append] at filled
  refine ⟨[.probed true, .arrive request] ++ own, fun other member => ?_,
    fun other given member => ?_, filled⟩
  · rcases List.mem_append.mp member with first | later
    · simpa using first
    · exact (hown _ later).elim
  · rcases List.mem_append.mp member with first | later
    · simp at first
    · exact Except.ok.inj (hown _ later).2

theorem exchange?_look (wellFormed : engine.WellFormed) (dev : engine.handler = .dev)
    (asks : AsksFor request key) :
    (engine.run [.probed true, .arrive request, .advance engine.nextId]).exchange? engine.nextId =
      some ⟨engine.nextId, request, request.info, none, .firstLook key⟩ := by
  refine (exchange?_taken wellFormed dev request).trans ?_
  have plain : isUpgrade request.headers = false := asks.plain
  have asked : Key.ofRequest? request.info = some key := asks.asked
  have volatile : request.info.policy = .volatile := asks.volatile
  simp [firstPhase, plain, asked, volatile]

theorem run_look {events : List Event} {payload : Bytes}
    (wellFormed : (engine.run events).WellFormed) (dev : engine.handler = .dev)
    (asks : AsksFor request key)
    (present : (engine.run events).tiers.volatile? key = some payload) :
    let number := (engine.run events).nextId
    let later := engine.run (events ++ [.probed true, .arrive request, .advance number])
    later.exchange? number = some ⟨number, request, request.info, none, .firstLook key⟩ ∧
      later.tiers.volatile? key = some payload := by
  intro number later
  have split : later =
      (engine.run events).run [.probed true, .arrive request, .advance number] := run_append ..
  rw [split]
  exact ⟨exchange?_look wellFormed ((run_handler engine events).trans dev) asks,
    run_volatile? wellFormed present _⟩

end Filling

/-! ## When hits stay within collections -/

/-- The hits of all runs on certain requests stay within collections just when no two of them that
ask for one key, of which the first can be sent upstream, name different groups. -/
theorem answersWithinCollections_iff (settings : Settings) (dev : settings.handler = .dev)
    (allowed : Request → Prop) :
    (∀ store now events, (∀ request, .arrive request ∈ events → allowed request) →
      (start settings store now).AnswersWithinCollections events) ↔
    ∀ first second key out, allowed first → allowed second → AsksFor first key →
      AsksFor second key → outgoing settings.upstream first = .ok out →
      first.info.apiGroup = second.info.apiGroup := by
  constructor
  · intro within first second key out hfirst hsecond asks asksSecond sendable
    obtain ⟨events, only, -, filled⟩ := exists_entry dev asks sendable fills_emptyReply
    obtain ⟨payload, present⟩ := Option.isSome_iff_exists.mp filled
    obtain ⟨id, request, reply, stored⟩ := run_stored present
    have same : request = first := by
      obtain ⟨before, after, rfl, -⟩ := stored.arrived
      exact only request (by simp)
    subst same
    obtain ⟨looking, still⟩ := run_look
      (run_wellFormed (start_wellFormed settings .inMemory 0) events) dev asksSecond present
    generalize ((start settings .inMemory 0).run events).nextId = number at looking still
    let arrival : List Event := [.probed true, .arrive second, .advance number]
    obtain ⟨origin, other, given, storedOther, collection⟩ := within .inMemory 0
      (events ++ arrival ++ [.advance number]) (by
        intro other member
        simp only [arrival, List.mem_append, List.mem_cons, List.not_mem_nil, or_false,
          reduceCtorEq, false_or, Event.arrive.injEq] at member
        rcases member with member | rfl
        · exact only other member ▸ hfirst
        · exact hsecond)
      (events ++ arrival) [] number _ key payload rfl looking (.inl rfl) still
    cases (stored.more arrival).unique storedOther
    exact collection.group
  · rintro groups store now events arrivals before after id exchange key payload rfl found looking
      present
    obtain ⟨origin, request, reply, stored⟩ := run_stored present
    have routed := run_routed settings store now before id exchange found
    have wellFormed := run_wellFormed (start_wellFormed settings store now) before id
    have asks : AsksFor exchange.request key := by
      refine (wellFormed.exchange exchange found).looks key ?_
      rcases looking with looking | looking <;> rw [looking] <;> rfl
    have known : ∀ {number : Nat} {asking : Request},
        (start settings store now).Arrived number asking before → allowed asking := by
      rintro number asking ⟨earlier, later, rfl, -⟩
      exact arrivals asking (by simp)
    obtain ⟨-, -, _, -, eligible⟩ := stored.commissioned.entitled dev
    have asksFirst : AsksFor request key :=
      ⟨eligible.plain, eligible.key, volatile_of_resourceUsage eligible.key asks.resourceUsage⟩
    obtain ⟨earlier, later, first, out, rfl, sent, rfl, awaiting, -⟩ := stored.commissioned
    have asked := run_routed settings store now earlier origin first sent
    obtain ⟨-, sendable⟩ := asked.awaiting awaiting
    refine ⟨origin, _, reply, stored, (sameCollection_iff asksFirst.asked asks.asked).mpr ?_⟩
    exact groups _ _ key out (known stored.arrived) (known routed.arrived) asksFirst asks sendable

/-- Within the core group all hits bring what was asked for. -/
theorem answersWithinCollections_iff_core :
    (Settings.default default).handler = .dev ∧
      ∀ store now events, (∀ request, .arrive request ∈ events → request.info.apiGroup = "") →
        (start (Settings.default default) store now).AnswersWithinCollections events :=
  ⟨rfl, (answersWithinCollections_iff (Settings.default default) rfl
    fun request => request.info.apiGroup = "").mpr
      fun _ _ _ _ first second _ _ _ => first.trans second.symm⟩

/-! ### Two groups with pods -/

def volatileRequest (path : String) : Request where
  method := "GET"
  target := ⟨path, some "labelSelector=type%3Dresourceusage",
    some (path ++ "?labelSelector=type%3Dresourceusage")⟩
  headers := []
  body := []

def metricsRequest : Request := volatileRequest "/apis/metrics.k8s.io/v1beta1/pods"

def metricsList : Bytes := Bytes.ofText "\x7b\"kind\":\"PodMetricsList\",\"items\":[]\x7d"

def metricsRun : List Event :=
  [.probed true, .arrive metricsRequest, .advance 0, .advance 0, .advance 0, .advance 0, .advance 0,
    .advance 0, .answer 0 (.ok ⟨200, [], ⟨[.chunk metricsList]⟩⟩), .read 0, .work 0, .read 0,
    .work 0, .work 0]

/-- After that, whoever asks for the pods themselves is answered with their metrics. -/
theorem pods_answered_with_metrics :
    let begin := start (Settings.default default) .inMemory 0
    let pods := volatileRequest "/api/v1/pods"
    let events := metricsRun ++ [.probed true, .arrive pods, .advance 1] ++ [.advance 1]
    Key.ofRequest? metricsRequest.info = Key.ofRequest? pods.info ∧
      metricsRequest.info.apiGroup = "metrics.k8s.io" ∧ pods.info.apiGroup = "" ∧
      ((begin.run events).exchange? 1).bind answer? = some (200, Source.ofBytes metricsList) ∧
      ¬ begin.AnswersWithinCollections events := by
  intro begin pods events
  refine ⟨by decide +kernel, by decide +kernel, by decide +kernel, by decide +kernel,
    fun within => ?_⟩
  let key : Key := ⟨.pods, "", .resourceUsage⟩
  have asks : AsksFor pods key := ⟨rfl, by decide +kernel, by decide +kernel⟩
  have number : (begin.run metricsRun).nextId = 1 := by decide +kernel
  have looking := exchange?_look
    (run_wellFormed (start_wellFormed (Settings.default default) .inMemory 0) metricsRun)
    (run_handler begin metricsRun) asks
  rw [number, ← run_append] at looking
  have present :
      (begin.run (metricsRun ++ [.probed true, .arrive pods, .advance 1])).tiers.volatile? key =
        some metricsList := by decide +kernel
  obtain ⟨origin, request, reply, stored, collection⟩ :=
    within _ [] 1 _ key metricsList rfl looking (.inl rfl) present
  obtain rfl : origin = 0 := by
    have member := stored.answered
    simp only [metricsRun, List.mem_append, List.mem_cons, List.not_mem_nil, or_false, false_or,
      reduceCtorEq, Event.answer.injEq] at member
    exact member.1
  have arrived : begin.Arrived 0 metricsRequest
      (metricsRun ++ [.probed true, .arrive pods, .advance 1]) := ⟨[.probed true], _, rfl, rfl⟩
  cases stored.arrived.unique arrived
  have differ : metricsRequest.info.apiGroup ≠ pods.info.apiGroup := by decide +kernel
  exact differ collection.group

end Engine

end Outpost.Proxy
