import Outpost.Proofs.Proxy.Framing
import Outpost.Proofs.Proxy.Hearings

/-!
# Filtering on the way

The reply to a request for a filtered list is read to its end before the client gets anything, and
what it comes to decides the answer.  Events of the exchange's own take it there, whatever others
do, and none of them touches a tier or the store.
-/

namespace Outpost.Proxy

open Api Cache Coding Config Http Store Outpost.Stream

namespace Engine

/-! ## Exchanges beside the cache -/

section Uncached

variable {engine : Engine} {id : Nat} {event : Event} {request : Request}

theorem fallback_of_uncached {info : RequestInfo} (uncached : Key.ofRequest? info = none)
    (store : CountedStore) : (fallback store info).1 = store := by
  unfold fallback
  cases answered : fallbackKey info with
  | error error => rfl
  | ok key =>
      cases uncached.symm.trans (fallbackKey_ok answered).1

theorem step_uncached (wellFormed : engine.WellFormed)
    (same : ∀ exchange, engine.exchange? id = some exchange → exchange.request = request)
    (uncached : Key.ofRequest? request.info = none) (own : event.exchange? = some id) :
    (engine.step event).tiers = engine.tiers ∧ (engine.step event).store = engine.store := by
  have keyless : ∀ exchange, engine.exchange? id = some exchange →
      Key.ofRequest? exchange.info = none := by
    intro exchange found
    rw [((wellFormed id).exchange exchange found).info, same exchange found]
    exact uncached
  rcases step_moved engine event with unmoved | ⟨moved, hmoved⟩
  · exact ⟨congrArg Shared.tiers unmoved.shared, congrArg Shared.store unmoved.shared⟩
  have move := hmoved.move
  have tiers : (engine.step event).tiers = (engine.step event).shared.tiers := rfl
  have store : (engine.step event).store = (engine.step event).shared.store := rfl
  rw [tiers, store]
  generalize (engine.step event).slot moved = slot at move
  generalize (engine.step event).shared = shared at move
  cases move with
  | arrive request fresh => cases own
  | turn exchange phase store found turns =>
      cases own
      refine ⟨rfl, ?_⟩
      cases turns with
      | fallBack arrived dev unhealthy => exact fallback_of_uncached (keyless exchange found) _
      | _ => rfl
  | join exchange key tiers gate found approaching =>
      cases own
      have asks := ((wellFormed id).exchange exchange found).looks key (by rw [approaching]; rfl)
      rw [same exchange found] at asks
      cases uncached.symm.trans asks.asked
  | work task after tee shared worked works =>
      cases own
      have there : (engine.slot id).task = some task := worked
      obtain ⟨exchange, found, -⟩ := (wellFormed id).answered (.inl (by rw [there]; rfl))
      have key := (wellFormed id).key task exchange there found
      cases (keyless exchange found).symm.trans key
  | _ => exact ⟨rfl, rfl⟩

end Uncached

/-! ## Reading a reply to filter it -/

/-- How an exchange stands once the reply to a filtered list has come. -/
inductive Filters (wording : Wording) (request : Request) (kind : ResourceKind)
    (reply : Reply) : Option Exchange → Prop where
  | reading (exchange : Exchange) (source : Source) (collector : Collector)
      (same : exchange.request = request)
      (filtering : exchange.phase = .filtering kind (relay reply) source collector)
      (undecided : collector.Undecided) (outcome : collector.outcome? source = reply.outcome?) :
      Filters wording request kind reply (some exchange)
  | answered (exchange : Exchange) (response : Response) (delivery : Delivery)
      (body : Except Unit Bytes) (bytes : Bytes)
      (responded : exchange.phase = .responded response delivery)
      (outcome : reply.outcome? = some body) (whole : response.payload = .whole bytes)
      (answers : AnswersList wording request kind reply bytes response.head body) :
      Filters wording request kind reply (some exchange)
  | gone : Filters wording request kind reply none

section Filters

variable {wording : Wording} {engine : Engine} {id : Nat} {request : Request}
  {kind : ResourceKind} {reply : Reply}

theorem awaiting_of_sent (sent : Stands id request (·.outgoing?.isSome) engine) :
    ∃ exchange relation out, engine.exchange? id = some exchange ∧ exchange.request = request ∧
      exchange.phase = .awaiting relation out := by
  obtain ⟨exchange, found, same, sent⟩ := sent
  cases hphase : exchange.phase with
  | awaiting relation out => exact ⟨exchange, relation, out, found, same, hphase⟩
  | _ =>
      rw [hphase] at sent
      cases sent

theorem filters_of_answer {exchange : Exchange} {out : Outgoing}
    (found : engine.exchange? id = some exchange)
    (awaiting : exchange.phase = .awaiting .treated out)
    (info : exchange.info = exchange.request.info) (asks : AsksToFilter exchange.request kind)
    (status : isTreated reply.status = true) :
    Filters wording exchange.request kind reply
      ((engine.step (.answer id (.ok reply))).exchange? id) := by
  have treated : engine.treat exchange reply = engine.setPhase exchange
      (.filtering kind (relay reply) reply.body
        (Collector.start (declared? (relay reply).headers))) := by
    unfold treat
    simp only [info, asks.treatedResponse_eq, asks.treatment_eq _ _ status]
  rw [step_treat found reply awaiting, treated, exchange?_setPhase found]
  refine .reading _ _ _ rfl rfl (Collector.start_undecided _) ?_
  rw [declared?_relay]
  rfl

theorem Filters.step (begin : engine.filterStart = skipStart) (worded : engine.wording = wording)
    (wellFormed : engine.WellFormed) (known : id < engine.nextId)
    (h : Filters wording request kind reply (engine.exchange? id)) (event : Event) :
    Filters wording request kind reply ((engine.step event).exchange? id) := by
  rcases step_slot_cases engine event id with same | move
  · have kept : (engine.step event).exchange? id = engine.exchange? id :=
      congrArg Slot.exchange same
    exact kept.symm ▸ h
  generalize current : engine.exchange? id = before at h
  cases h with
  | gone =>
      change Filters wording request kind reply ((engine.step event).slot id).exchange
      generalize (engine.step event).slot id = slot at move
      generalize (engine.step event).shared = shared at move
      cases move with
      | arrive request fresh => omega
      | work task after tee shared worked works =>
          change Filters wording request kind reply (engine.exchange? id)
          exact current.symm ▸ .gone
      | readCopy exchange response tee found => cases current.symm.trans found
      | abandon exchange found => exact .gone
      | turn _ _ _ found | join _ _ _ _ found | giveUp _ _ _ _ found | conclude _ _ _ found
      | filter _ _ _ _ found | copy _ _ _ _ found | readDirect _ _ _ found
      | dropBody _ _ _ found | dropCopy _ _ _ found => cases current.symm.trans found
  | answered exchange response delivery body bytes responded outcome whole answers =>
      obtain ⟨next, left, hnext, hleft⟩ :=
        HasResponse.step ⟨exchange, delivery, current, responded⟩ event
      rw [hnext]
      exact .answered next response left body bytes hleft outcome whole answers
  | reading exchange source collector hrequest filtering undecided outcome =>
      have info : exchange.info = request.info :=
        hrequest ▸ ((wellFormed id).exchange exchange current).info
      have looks := collectItems_collected engine.now collector source.items undecided
      change Filters wording request kind reply ((engine.step event).slot id).exchange
      generalize (engine.step event).slot id = slot at move
      generalize (engine.step event).shared = shared at move
      cases move with
      | arrive other fresh =>
          rw [current]
          exact .reading exchange source collector hrequest filtering undecided outcome
      | work task after tee shared worked works =>
          change Filters wording request kind reply (engine.exchange? id)
          rw [current]
          exact .reading exchange source collector hrequest filtering undecided outcome
      | abandon other found unanswered => exact .gone
      | turn other phase store found turns =>
          cases current.symm.trans found
          cases turns with
          | gather _ _ _ rest _ grown gathering unfinished =>
              cases filtering.symm.trans gathering
              rw [unfinished] at looks
              obtain ⟨still, same⟩ := looks
              exact .reading _ rest grown hrequest rfl still (same.trans outcome)
          | _ => simp_all
      | conclude other event response found concludes =>
          cases current.symm.trans found
          cases concludes with
          | filtered _ _ _ _ _ body gathering read result =>
              cases filtering.symm.trans gathering
              rw [info, begin, worded] at result
              obtain ⟨bytes, whole, answers⟩ := answersList_of_ok result
              exact .answered _ response _ body bytes rfl
                (outcome.symm.trans (looks.outcome_eq read)) whole answers
          | unfiltered _ _ error _ _ body gathering read result =>
              cases filtering.symm.trans gathering
              rw [info, begin, worded] at result
              obtain ⟨bytes, whole, answers⟩ := answersList_of_error result
              exact .answered _ error.response _ body bytes rfl
                (outcome.symm.trans (looks.outcome_eq read)) whole answers
          | _ => simp_all
      | _ => simp_all

theorem Filters.run (begin : engine.filterStart = skipStart) (worded : engine.wording = wording)
    (wellFormed : engine.WellFormed) (known : id < engine.nextId)
    (h : Filters wording request kind reply (engine.exchange? id)) (events : List Event) :
    Filters wording request kind reply ((engine.run events).exchange? id) := by
  induction events generalizing engine with
  | nil => exact h
  | cons event rest ih =>
      have kept := step_constants engine event
      exact ih ((congrArg Constants.filterStart kept).trans begin)
        ((congrArg Constants.wording kept).trans worded) (step_wellFormed wellFormed event)
        (Nat.lt_of_lt_of_le known (step_nextId engine event))
        (h.step begin worded wellFormed known event)

/-- Whoever looks whenever something is due gets to an answer, unless the body stalls before
anything is known. -/
theorem leads_of_filtering {result : Except TransportFailure Reply} {exchange : Exchange}
    {response : Response} {source : Source} {collector : Collector}
    (found : engine.exchange? id = some exchange)
    (filtering : exchange.phase = .filtering kind response source collector)
    (undecided : collector.Undecided) (decides : (collector.outcome? source).isSome) :
    engine.Leads id result (Stands id exchange.request (·.isResponded)) := by
  generalize hleft : Source.pollsLeft source.items = left
  induction left using Nat.strongRecOn generalizing engine exchange source collector with
  | ind left ih =>
      let due := (source.wakeTime?).getD 0
      have later : (engine.step (.pass due)).exchange? id = some exchange := found
      have isDue := isDue_pass engine source
      have looks := collectItems_collected (engine.step (.pass due)).now collector source.items
        undecided
      have fewer := pollsLeft_collectItems_lt collector isDue
      have last := collectItems_of_pollsLeft (engine.step (.pass due)).now undecided decides
      refine .step (.pass due) trivial (.step (.advance id) rfl ?_)
      have look : (engine.step (.pass due)).step (.advance id) =
          ((engine.step (.pass due)).advance id).1 := rfl
      rw [look]
      unfold advance
      simp only [later, filtering]
      generalize collectItems (engine.step (.pass due)).now collector source.items = seen
        at looks fewer last
      obtain ⟨items, grown, known⟩ := seen
      cases known with
      | some body =>
          simp only
          split <;> exact .here (stands_conclude later rfl _)
      | none =>
          obtain ⟨still, same⟩ := looks
          have more : Source.pollsLeft source.items ≠ 0 := fun spent => by cases last spent
          have next := exchange?_setPhase later (.filtering kind response ⟨items⟩ grown)
          have onward := ih _ (hleft ▸ fewer more) next rfl still (same ▸ decides) rfl
          exact onward

end Filters

/-! ## Answers to filtered lists -/

/-- What becomes of a filtered list in a run in which the upstream has replied to it, with these
events after the reply. -/
structure FiltersList (start : Engine) (id : Nat) (request : Request) (kind : ResourceKind)
    (reply : Reply) (events after : List Event) : Prop where
  answers : ∀ head, (start.seen id events).head = some head →
    ∃ body bytes, reply.outcome? = some body ∧
      AnswersList start.wording request kind reply bytes head body ∧
      (start.seen id events).body.Follows (Source.ofBytes bytes)
  comes : .abandon id ∉ after → reply.outcome?.isSome →
    ∃ more, (∀ event ∈ more, event.IsOwn id (.ok reply)) ∧
      (start.seen id (events ++ more)).head.isSome ∧
      (start.seen id (events ++ more)).body.ending = some (.ok ())
  spares : ∀ earlier event later, events = earlier ++ event :: later →
    event.exchange? = some id →
    ((start.run earlier).step event).tiers = (start.run earlier).tiers ∧
      ((start.run earlier).step event).store = (start.run earlier).store

section Runs

variable {wording : Wording} {settings : Settings} {store : CountedStore} {now : Nat}
  {events : List Event} {id : Nat} {request : Request} {kind : ResourceKind} {reply : Reply}

theorem Filters.answer (h : Filters wording request kind reply
      (((start settings store now).run events).exchange? id))
    {response : Response}
    (given : ((start settings store now).run events).HasResponse id response) :
    ∃ body bytes, reply.outcome? = some body ∧ response.payload = .whole bytes ∧
      AnswersList wording request kind reply bytes response.head body := by
  obtain ⟨exchange, delivery, found, responded⟩ := given
  rw [found] at h
  cases h with
  | reading _ source collector same filtering => cases filtering.symm.trans responded
  | answered _ other left body bytes hother outcome whole answers =>
      cases responded.symm.trans hother
      exact ⟨body, bytes, outcome, whole, answers⟩

theorem filters_of_sent (dev : settings.handler = .dev)
    (sent : Stands id request (·.outgoing?.isSome) ((start settings store now).run events))
    (asks : AsksToFilter request kind) (status : isTreated reply.status = true)
    (after : List Event) : Filters settings.wording request kind reply
      (((start settings store now).run
        (events ++ .answer id (.ok reply) :: after)).exchange? id) := by
  obtain ⟨exchange, relation, out, found, rfl, awaiting⟩ := awaiting_of_sent sent
  have treated : relation = .treated := by
    obtain ⟨way, -⟩ := (run_routed settings store now events id exchange found).awaiting awaiting
    have handler : (start settings store now).handler = .dev := dev
    rw [way, handler, Relation.of, asks.plain]
    rfl
  subst treated
  have wellFormed := run_wellFormed (start_wellFormed settings store now)
  have kept := run_constants (start settings store now)
  have replied : Filters settings.wording exchange.request kind reply
      (((start settings store now).run (events ++ [.answer id (.ok reply)])).exchange? id) := by
    rw [run_concat]
    exact filters_of_answer found awaiting ((wellFormed events id).exchange exchange found).info
      asks status
  have known : id < ((start settings store now).run
      (events ++ [.answer id (.ok reply)])).nextId := by
    refine Nat.lt_of_lt_of_le ((wellFormed events id).known fun empty => ?_)
      (run_concat (start settings store now) events _ ▸ step_nextId _ _)
    cases (congrArg Slot.exchange empty).symm.trans found
  rw [List.append_cons, run_append]
  exact replied.run (congrArg Constants.filterStart (kept _))
    (congrArg Constants.wording (kept _)) (wellFormed _) known after

theorem hasResponse_of_head {head : StatusCode × Headers}
    (got : ((start settings store now).seen id events).head = some head) :
    ∃ response, ((start settings store now).run events).HasResponse id response ∧
      response.head = head ∧ ∀ source, Delivery.ofPayload response.payload = .direct source →
        ((start settings store now).seen id events).body.Follows source := by
  cases run_hears (start settings store now) id rfl events with
  | unanswered _ none => cases none.symm.trans got
  | answered exchange response delivery found responded shown body =>
      exact ⟨response, ⟨exchange, delivery, found, responded⟩,
        Option.some.inj (shown.symm.trans got), fun source direct => (body source direct).1⟩

theorem Filters.comes (h : ∀ more, Filters wording request kind reply
      (((start settings store now).run (events ++ more)).exchange? id))
    (attended : ((start settings store now).run events).Attended id)
    (decides : reply.outcome?.isSome) (result : Except TransportFailure Reply) :
    ∃ more, (∀ event ∈ more, event.IsOwn id result) ∧
      ((start settings store now).seen id (events ++ more)).head.isSome ∧
      ((start settings store now).seen id (events ++ more)).body.ending = some (.ok ()) := by
  have answered : ((start settings store now).run events).Leads id result fun after =>
      ∃ response, after.HasResponse id response := by
    have before := h []
    obtain ⟨exchange, found, heeded⟩ := attended
    rw [List.append_nil, found] at before
    cases before with
    | reading _ source collector same filtering undecided outcome =>
        refine (leads_of_filtering found filtering undecided (outcome ▸ decides)).mono ?_
        rintro after ⟨next, hnext, -, responded⟩
        cases hphase : next.phase with
        | responded response delivery => exact ⟨response, next, delivery, hnext, hphase⟩
        | _ =>
            rw [hphase] at responded
            cases responded
    | answered _ response delivery body bytes responded =>
        exact .here ⟨response, exchange, delivery, found, responded⟩
  obtain ⟨more, own, response, given⟩ := answered
  have heeded := attended.run (not_abandon_of_own own)
  rw [← run_append] at given heeded
  obtain ⟨body, bytes, -, whole, -⟩ := (h more).answer given
  have direct : Delivery.ofPayload response.payload = .direct (Source.ofBytes bytes) := by
    rw [whole]
    rfl
  obtain ⟨further, ownFurther, heard⟩ := exists_hasHeard rfl direct result given heeded
  refine ⟨more ++ further, List.forall_mem_append.mpr ⟨own, ownFurther⟩, ?_⟩
  rw [← List.append_assoc]
  obtain ⟨ending, ended⟩ := Option.isSome_iff_exists.mp (heard.all.ended (by simp))
  have fate := (heard.follows.whole ending ended).2
  rw [Source.fate_ofBytes] at fate
  refine ⟨by rw [heard.head]; rfl, ended.trans ?_⟩
  cases ending with
  | ok => rfl
  | error message => cases fate

end Runs

theorem stands_of_arrival {engine : Engine} {request : Request} {kind : ResourceKind}
    {out : Outgoing} (wellFormed : engine.WellFormed) (dev : engine.handler = .dev)
    (asks : AsksToFilter request kind) (sendable : outgoing engine.upstream request = .ok out) :
    Stands engine.nextId request (·.outgoing?.isSome) (engine.run
      [.probed true, .arrive request, .advance engine.nextId, .advance engine.nextId]) := by
  have taken := exchange?_taken wellFormed dev request
  have turned : firstPhase ⟨engine.nextId, request, request.info, none, .arrived⟩ =
      .sending .treated := by
    simp [firstPhase, asks.plain, asks.uncached]
  rw [turned] at taken
  have upstream : (engine.run [.probed true, .arrive request, .advance engine.nextId]).upstream =
      engine.upstream := congrArg Constants.upstream (run_constants engine _)
  have sendable := upstream.symm ▸ sendable
  have sent := exchange?_setPhase taken (.awaiting .treated out)
  rw [← step_send taken rfl sendable] at sent
  exact ⟨_, sent, rfl, rfl⟩

/-- A list under the filter policy gets what is left of it, framed anew, or a refusal, just as
reading and decoding the body of the reply comes out, and the cache has no part in it. -/
theorem run_filtersList (settings : Settings) (dev : settings.handler = .dev)
    (store : CountedStore) (now : Nat) (before after : List Event) (id : Nat)
    (request : Request) (kind : ResourceKind) (reply : Reply)
    (sent : Stands id request (·.outgoing?.isSome) ((start settings store now).run before))
    (asks : AsksToFilter request kind)
    (status : 200 ≤ reply.status ∧ reply.status ≤ 206) :
    (start settings store now).FiltersList id request kind reply
      (before ++ .answer id (.ok reply) :: after) after := by
  have treated : isTreated reply.status = true := by simp [isTreated, status]
  have filters := filters_of_sent dev sent asks treated
  obtain ⟨exchange, relation, out, found, rfl, awaiting⟩ := awaiting_of_sent sent
  constructor
  case answers =>
    intro head got
    obtain ⟨response, given, rfl, follows⟩ := hasResponse_of_head got
    obtain ⟨body, bytes, outcome, whole, answers⟩ := (filters after).answer given
    exact ⟨body, bytes, outcome, answers, follows _ (by rw [whole]; rfl)⟩
  case comes =>
    intro stays decides
    have heeded : ((start settings store now).run before).Attended id :=
      ⟨exchange, found, fun response same => by cases awaiting.symm.trans same⟩
    have stay : .abandon id ∉ (.answer id (.ok reply) :: after : List Event) := by simp [stays]
    have attended := heeded.run stay
    rw [← run_append] at attended
    have later : ∀ more, Filters settings.wording exchange.request kind reply
        (((start settings store now).run
        (before ++ .answer id (.ok reply) :: after ++ more)).exchange? id) := by
      intro more
      rw [List.append_assoc, List.cons_append]
      exact filters (after ++ more)
    exact Filters.comes later attended decides (.ok reply)
  case spares =>
    intro earlier event later events own
    have wellFormed := run_wellFormed (start_wellFormed settings store now) earlier
    refine step_uncached wellFormed (fun other hother => ?_) asks.uncached own
    have arrived := (run_routed settings store now before id exchange found).arrived.more
      (.answer id (.ok reply) :: after)
    rw [events] at arrived
    exact ((run_routed settings store now earlier id other hother).arrived.more
      (event :: later)).unique arrived

/-! ## Two pods -/

def podsToFilter : Request where
  method := "GET"
  target := ⟨"/api/v1/pods", some "labelSelector=type%3Dfilter",
    some "/api/v1/pods?labelSelector=type%3Dfilter"⟩
  headers := []
  body := []

theorem asksToFilter_pods : AsksToFilter podsToFilter .pods :=
  ⟨rfl, by decide +kernel, by decide +kernel⟩

def podsSent : List Event := [.probed true, .arrive podsToFilter, .advance 0, .advance 0]

theorem stands_podsSent : Stands 0 podsToFilter (·.outgoing?.isSome)
    ((start (Settings.default default) .inMemory 0).run podsSent) := by
  obtain ⟨out, sendable⟩ : ∃ out, outgoing (Settings.default default).upstream podsToFilter =
      .ok out := ⟨_, rfl⟩
  exact stands_of_arrival (start_wellFormed (Settings.default default) .inMemory 0) rfl
    asksToFilter_pods sendable

def podsNamed (names : List String) : Bytes :=
  Bytes.ofText ("\x7b\"kind\":\"PodList\",\"items\":[" ++ ",".intercalate (names.map fun name =>
    "\x7b\"metadata\":\x7b\"name\":\"" ++ name ++ "\"\x7d\x7d") ++ "]\x7d")

def deflatedReply : Reply :=
  let stream : Bytes := [0x78, 0x01, 0x01, 0x55, 0x00, 0xAA, 0xFF] ++ podsNamed ["skip-a", "b"] ++
    [0xC6, 0x73, 0x1C, 0x9B]
  { status := 203
    headers := [("content-length", Bytes.ofText "96"), ("x-up", Bytes.ofText "1"),
      ("content-encoding", Bytes.ofText " Deflate "), ("content-length", Bytes.ofText "85"),
      ("keep-alive", Bytes.ofText "timeout=5")]
    body := ⟨[.chunk (stream.take 40), .hold, .chunk (stream.drop 40)]⟩ }

theorem run_filtersList_deflated :
    let begin := start (Settings.default default) .inMemory 0
    let after : List Event := [.advance 0, .advance 0, .read 0, .read 0]
    let events := podsSent ++ .answer 0 (.ok deflatedReply) :: after
    (Settings.default default).handler = .dev ∧
      Stands 0 podsToFilter (·.outgoing?.isSome) (begin.run podsSent) ∧
      AsksToFilter podsToFilter .pods ∧
      (200 ≤ deflatedReply.status ∧ deflatedReply.status ≤ 206) ∧
      (begin.seen 0 events).head = some (203, [("x-up", Bytes.ofText "1"),
        ("content-length", Bytes.ofText "54")]) ∧
      (begin.seen 0 events).body.bytes = podsNamed ["b"] ∧
      (begin.seen 0 events).body.ending = some (.ok ()) ∧
      begin.FiltersList 0 podsToFilter .pods deflatedReply events after := by
  intro begin after events
  have heard : (begin.seen 0 events).head = some (203, [("x-up", Bytes.ofText "1"),
        ("content-length", Bytes.ofText "54")]) ∧
      (begin.seen 0 events).body.bytes = podsNamed ["b"] ∧
      (begin.seen 0 events).body.ending = some (.ok ()) := by decide +kernel
  exact ⟨rfl, stands_podsSent, asksToFilter_pods, by decide, heard.1, heard.2.1, heard.2.2,
    run_filtersList (Settings.default default) rfl .inMemory 0 podsSent after 0 podsToFilter .pods
      deflatedReply stands_podsSent asksToFilter_pods (by decide)⟩

/-! ## Lists of another kind -/

def listNamed (kind : String) : Bytes :=
  Bytes.ofText ("\x7b\"kind\":\"" ++ kind ++ "\",\"items\":[]\x7d")

/-- What the list calls itself is quoted to the client, so refusals differ with the payload even
where the same check fails. -/
theorem refusal_quotes_kind :
    let begin := start (Settings.default default) .inMemory 0
    let seen (kind : String) := begin.seen 0 (podsSent ++
      [.answer 0 (.ok ⟨200, [], ⟨[.chunk (listNamed kind)]⟩⟩), .advance 0, .read 0, .read 0])
    let quoting (kind : String) := (Status.badGateway ("failed to modify response of list pods: " ++
      "/api/v1/pods?labelSelector=type%3Dfilter: decoded object is " ++ kind ++
      ", expected PodList")).encode
    ((seen "ServiceList").head.map (·.1) = some 502 ∧
        (seen "ServiceList").body.bytes = quoting "ServiceList") ∧
      ((seen "NodeList").head.map (·.1) = some 502 ∧
        (seen "NodeList").body.bytes = quoting "NodeList") ∧
      ¬ ∃ refusal, ∀ kind, (seen kind).head.map (·.1) = some 502 →
        (seen kind).body.bytes = refusal := by
  intro begin seen quoting
  have services : (seen "ServiceList").head.map (·.1) = some 502 ∧
      (seen "ServiceList").body.bytes = quoting "ServiceList" := by decide +kernel
  have nodes : (seen "NodeList").head.map (·.1) = some 502 ∧
      (seen "NodeList").body.bytes = quoting "NodeList" := by decide +kernel
  refine ⟨services, nodes, ?_⟩
  rintro ⟨refusal, always⟩
  have same : quoting "ServiceList" = quoting "NodeList" :=
    services.2.symm.trans ((always _ services.1).trans ((always _ nodes.1).symm.trans nodes.2))
  exact absurd same (by decide +kernel)

end Engine

end Outpost.Proxy
