import Outpost.Proofs.Proxy.Provenance

/-!
# Answers while the upstream is unhealthy

A request that comes to be dispatched while the upstream is unhealthy gets no list but a snapshot,
which is cut from a whole payload that the upstream has sent before.  Requests that were dispatched
while it was healthy are still answered in the way they have taken.
-/

namespace Outpost.Proxy

open Api Cache Coding Config Http Store Outpost.Stream

/-! ## The fallback -/

theorem fallbackKey_ok {info : RequestInfo} {key : Key} (h : fallbackKey info = .ok key) :
    Key.ofRequest? info = some key ∧ info.policy = .durable := by
  unfold fallbackKey at h
  split at h
  · cases h
  split at h
  · cases h
  split at h
  · rename_i asked
    split at h
    · rename_i durable
      cases h
      exact ⟨asked, durable⟩
    · cases h
  · cases h

theorem ProxyError.status_ne_ok (error : ProxyError) : error.response.status ≠ 200 := by
  change error.statusCode ≠ 200
  unfold statusCode
  split <;> decide

/-- An answer of 200 without the upstream is the entry of the request's key. -/
theorem fallback_of_ok {store : CountedStore} {info : RequestInfo}
    (ok : (fallback store info).2.status = 200) :
    ∃ key contents, Key.ofRequest? info = some key ∧ key.queryClass = .consistency ∧
      store.backend.contents? key.storageKey = some contents ∧
      (fallback store info).2 = Response.json 200 contents := by
  unfold fallback at ok ⊢
  split at ok
  · rename_i error refused
    exact absurd ok error.status_ne_ok
  rename_i key allowed
  obtain ⟨asked, durable⟩ := fallbackKey_ok allowed
  have policy := Key.policy_of_ofRequest? asked
  rw [durable] at policy
  unfold queryDurable at ok ⊢
  simp only at ok ⊢
  cases found : (store.get key.storageKey).2 with
  | ok contents =>
      exact ⟨key, contents, asked, (Option.some.inj policy).symm,
        CountedStore.contents?_of_get found, rfl⟩
  | error error =>
      rw [found] at ok
      unfold Except.mapError at ok
      simp only at ok
      split at ok <;> exact absurd ok (ProxyError.status_ne_ok _)

namespace Engine

section Dispatches

variable {start engine : Engine} {events : List Event} {id : Nat} {event : Event} {slot : Slot}
  {shared : Shared}

/-- In the run, the exchange was dispatched while the upstream was healthy. -/
def DispatchedHealthy (start : Engine) (id : Nat) : List Event → Prop :=
  start.StepsFrom id fun before exchange =>
    exchange.phase = .arrived ∧ (start.run before).health.isHealthy = true

def Accounted (start : Engine) (events : List Event) (id : Nat) (exchange : Exchange) : Prop :=
  exchange.phase = .arrived ∨ exchange.phase.isResponded = true ∨
    start.DispatchedHealthy id events

theorem Accounted.more {exchange : Exchange} (h : start.Accounted events id exchange)
    (more : List Event) : start.Accounted (events ++ more) id exchange :=
  h.imp_right fun h => h.imp_right fun dispatched => dispatched.more more

theorem Accounted.onTheWay {exchange after : Exchange} (h : start.Accounted events id exchange)
    (left : exchange.phase ≠ .arrived) (unanswered : exchange.phase.isResponded = false) :
    start.Accounted (events ++ [event]) id after := by
  rcases h with arrived | responded | dispatched
  · exact absurd arrived left
  · cases unanswered.symm.trans responded
  · exact .inr (.inr (dispatched.more [event]))

theorem Turns.accounted {exchange : Exchange} {phase : Phase} {store : CountedStore}
    (turns : Turns (start.run events) exchange phase store)
    (dev : (start.run events).handler = .dev)
    (found : (start.run events).exchange? id = some exchange)
    (h : start.Accounted events id exchange) :
    start.Accounted (events ++ [.advance id]) id { exchange with phase } := by
  cases turns with
  | relay arrived sample => cases sample.symm.trans dev
  | upgrade arrived dev healthy upgrade => exact .inr (.inr (.now found ⟨arrived, healthy⟩))
  | look key arrived dev healthy plain asked volatile =>
      exact .inr (.inr (.now found ⟨arrived, healthy⟩))
  | send arrived dev healthy plain other => exact .inr (.inr (.now found ⟨arrived, healthy⟩))
  | fallBack arrived dev unhealthy => exact .inr (.inl rfl)
  | miss key looking absent => exact h.onTheWay (by rw [looking]; nofun) (by rw [looking]; rfl)
  | ungated key approaching closed =>
      exact h.onTheWay (by rw [approaching]; nofun) (by rw [approaching]; rfl)
  | admitted key gate deadline waiting held =>
      exact h.onTheWay (by rw [waiting]; nofun) (by rw [waiting]; rfl)
  | missAgain key looking absent =>
      exact h.onTheWay (by rw [looking]; nofun) (by rw [looking]; rfl)
  | sent relation request sending sendable =>
      exact h.onTheWay (by rw [sending]; nofun) (by rw [sending]; rfl)
  | gather kind response source rest collector grown filtering unfinished =>
      exact h.onTheWay (by rw [filtering]; nofun) (by rw [filtering]; rfl)

theorem Move.accounted (move : Move (start.run events) id event slot shared)
    (wellFormed : (start.run events).WellFormed) (dev : (start.run events).handler = .dev)
    (h : ∀ exchange, (start.run events).exchange? id = some exchange →
      start.Accounted events id exchange)
    {after : Exchange} (hafter : slot.exchange = some after) :
    start.Accounted (events ++ [event]) id after := by
  cases move with
  | arrive request fresh =>
      have empty := (wellFormed id).fresh (Nat.le_of_eq fresh.symm)
      have absent : (start.run events).exchange? id = none := congrArg Slot.exchange empty
      rw [absent] at hafter
      cases hafter
      exact .inl rfl
  | turn exchange phase store found turns =>
      cases hafter
      exact turns.accounted dev found (h exchange found)
  | join exchange key tiers gate found approaching opened =>
      exact (h exchange found).onTheWay (by rw [approaching]; nofun) (by rw [approaching]; rfl)
  | giveUp exchange key gate deadline found waiting unheld late =>
      exact (h exchange found).onTheWay (by rw [waiting]; nofun) (by rw [waiting]; rfl)
  | filter exchange kind request reply found awaiting filter =>
      exact (h exchange found).onTheWay (by rw [awaiting]; nofun) (by rw [awaiting]; rfl)
  | readCopy exchange response tee found responded copied => exact (h after hafter).more _
  | abandon exchange found unanswered => cases hafter
  | work task later tee shared found works => exact (h after hafter).more _
  | _ =>
      cases hafter
      exact .inr (.inl rfl)

theorem run_accounted (settings : Settings) (dev : settings.handler = .dev) (store : CountedStore)
    (now : Nat) (events : List Event) :
    ∀ id exchange, ((Engine.start settings store now).run events).exchange? id = some exchange →
      (Engine.start settings store now).Accounted events id exchange := by
  induction events using List.reverseRecOn with
  | nil => exact fun id exchange found => by cases found
  | append_singleton before event ih =>
      intro id exchange found
      have wellFormed := run_wellFormed (start_wellFormed settings store now) before
      have handler := (run_handler (Engine.start settings store now) before).trans dev
      rw [run_append] at found
      rcases step_slot_cases ((Engine.start settings store now).run before) event id with
        same | move
      · have kept := congrArg Slot.exchange same
        exact (ih id exchange (kept.symm.trans found)).more [event]
      · exact move.accounted wellFormed handler (ih id) found

/-! ## Dispatches without the upstream -/

theorem Concludes.ne_arrived {exchange : Exchange} {response : Response}
    (concludes : Concludes engine exchange event response) : exchange.phase ≠ .arrived := by
  cases concludes with
  | hit key payload looking present =>
      rcases looking with looking | looking <;> rw [looking] <;> nofun
  | _ => simp_all

variable {exchange answered : Exchange} {response : Response} {delivery : Delivery}

theorem Move.fallBack (move : Move engine id event slot shared)
    (found : engine.exchange? id = some exchange) (arrived : exchange.phase = .arrived)
    (after : slot.exchange = some answered)
    (responded : answered.phase = .responded response delivery) :
    response = (fallback engine.store exchange.info).2 ∧
      delivery = Delivery.ofPayload response.payload := by
  have untouched : engine.exchange? id ≠ some answered := by
    intro same
    cases found.symm.trans same
    cases arrived.symm.trans responded
  cases move with
  | arrive request fresh =>
      simp only [found, Option.some_or] at after
      exact absurd (found.trans after) untouched
  | turn other phase store hother turns =>
      cases found.symm.trans hother
      cases after
      cases turns with
      | fallBack arrived dev unhealthy =>
          cases responded
          exact ⟨rfl, rfl⟩
      | _ => cases responded
  | conclude other event response hother concludes =>
      cases found.symm.trans hother
      exact absurd arrived concludes.ne_arrived
  | readCopy other response tee hother hresponded copied => exact absurd after untouched
  | abandon other hother unanswered => cases after
  | work task later tee shared htask works => exact absurd after untouched
  | join other | giveUp other | filter other | copy other | readDirect other | dropBody other
  | dropCopy other =>
      cases found.symm.trans ‹engine.exchange? id = some other›
      simp_all

end Dispatches

/-! ## All answers -/

/-- What is answered while the upstream is unhealthy, and what may be. -/
structure ServesSnapshots (start : Engine) (events : List Event) : Prop where
  answers : ∀ before event after id exchange answered response delivery,
    events = before ++ event :: after → (start.run before).health.isHealthy = false →
    (start.run before).exchange? id = some exchange → exchange.phase.isResponded = false →
    ¬ start.DispatchedHealthy id before →
    (start.run (before ++ [event])).exchange? id = some answered →
    answered.phase = .responded response delivery → response.status = 200 →
    ∃ key list,
      Key.ofRequest? (RequestInfo.classify exchange.request.method exchange.request.target) =
        some key ∧
      start.Sourced before key list ∧
      response = Response.json 200
        (list.retain fun item => item.label? "type" == some "consistency").encode ∧
      delivery = Delivery.ofPayload response.payload
  entries : ∀ method target key contents,
    Key.ofRequest? (RequestInfo.classify method target) = some key →
    (start.run events).store.backend.contents? key.storageKey = some contents →
    ∃ list, start.Sourced events key list ∧
      contents = (list.retain (retains key.queryClass)).encode

theorem run_servesSnapshots (settings : Settings) (dev : settings.handler = .dev)
    (store : CountedStore) (now : Nat) (events : List Event) (sound : store.backend.Sound)
    (empty : ∀ key, store.backend.contents? key = none)
    (framed : ∀ id reply, .answer id (.ok reply) ∈ events → Framed reply) :
    (start settings store now).ServesSnapshots events := by
  refine ⟨?_, fun method target key contents asked present =>
    (run_recorded settings store now events sound empty framed).entries key contents
      (Key.slashless_of_ofRequest? asked) present⟩
  rintro before event after id exchange answered response delivery rfl unhealthy found unanswered
    late given responded ok
  have recorded := run_recorded settings store now before sound empty fun id reply sent =>
    framed id reply (List.mem_append_left _ sent)
  have arrived : exchange.phase = .arrived := by
    rcases run_accounted settings dev store now before id exchange found with
      arrived | answered | dispatched
    · exact arrived
    · cases unanswered.symm.trans answered
    · exact absurd dispatched late
  have info := ((run_wellFormed (start_wellFormed settings store now) before id).exchange exchange
    found).info
  rw [run_append] at given
  obtain ⟨rfl, rfl⟩ : response = (fallback ((start settings store now).run before).store
      exchange.info).2 ∧ delivery = Delivery.ofPayload response.payload := by
    rcases step_slot_cases ((start settings store now).run before) event id with same | move
    · have kept := congrArg Slot.exchange same
      cases (found.symm.trans kept.symm).trans given
      cases arrived.symm.trans responded
    · exact move.fallBack found arrived given responded
  obtain ⟨key, contents, asked, queryClass, present, response⟩ := fallback_of_ok ok
  rw [info] at asked
  obtain ⟨list, sourced, rfl⟩ :=
    recorded.entries key contents (Key.slashless_of_ofRequest? asked) present
  rw [queryClass] at response
  exact ⟨key, list, asked, sourced, response, rfl⟩

/-! ## An outage -/

def podOfType (name type : String) : String :=
  "\x7b\"metadata\":\x7b\"name\":\"" ++ name ++ "\",\"labels\":\x7b\"type\":\"" ++ type ++
    "\"\x7d\x7d\x7d"

def podList (pods : String) : Bytes := Bytes.ofText ("\x7b\"items\":[" ++ pods ++ "]\x7d")

def podsRequest : Request where
  method := "GET"
  target := ⟨"/api/v1/pods", some "labelSelector=type%3Dconsistency",
    some "/api/v1/pods?labelSelector=type%3Dconsistency"⟩
  headers := []
  body := []

def podsReply (pods : String) : Reply := ⟨200, [], ⟨[.chunk (podList pods)]⟩⟩

def mixedReply : Reply := podsReply (podOfType "a" "consistency" ++ "," ++ podOfType "b" "other")

def snapshotRun : List Event :=
  [.probed true, .arrive podsRequest, .advance 0, .advance 0, .advance 0,
    .answer 0 (.ok mixedReply), .read 0, .work 0, .read 0, .work 0, .work 0, .work 0, .work 0,
    .work 0, .work 0, .work 0]

theorem framed_podsReply (pods : String) : Framed (podsReply pods) := by
  intro length declared
  have undeclared : declaredLength? (podsReply pods).headers = none := rfl
  cases undeclared.symm.trans declared

theorem contents?_inMemory (key : String) : CountedStore.inMemory.backend.contents? key = none := by
  change (MemoryStore.empty.get key).toOption = none
  unfold MemoryStore.get
  cases validateKey key <;> rfl

def answer? (exchange : Exchange) : Option (StatusCode × Source) :=
  match exchange.phase with
  | .responded response (.direct source) => some (response.status, source)
  | _ => none

theorem run_servesSnapshots_outage :
    let begin := start (Settings.default default) .inMemory 0
    let events := snapshotRun ++ [.arrive podsRequest, .probed false, .advance 1]
    (∀ id reply, .answer id (.ok reply) ∈ events → Framed reply) ∧
      ((begin.run events).exchange? 1).bind answer? =
        some (200, Source.ofBytes (podList (podOfType "a" "consistency"))) ∧
      begin.ServesSnapshots events := by
  intro begin events
  have framed : ∀ id reply, .answer id (.ok reply) ∈ events → Framed reply := by
    intro id reply sent
    have same : id = 0 ∧ reply = mixedReply := by simpa [events, snapshotRun] using sent
    rw [same.2]
    exact framed_podsReply _
  exact ⟨framed, by decide +kernel, run_servesSnapshots (Settings.default default) rfl .inMemory 0
    events trivial contents?_inMemory framed⟩

/-- The reply to a request that was sent before the outage comes through, though it is no
snapshot. -/
theorem late_reply_is_no_snapshot :
    let begin := start (Settings.default default) .inMemory 0
    let before := snapshotRun ++ [.arrive podsRequest, .advance 1, .advance 1, .probed false]
    let late := podsReply (podOfType "c" "consistency")
    let events := before ++ [.answer 1 (.ok late)]
    (∀ id reply, .answer id (.ok reply) ∈ events → Framed reply) ∧
      (begin.run before).health.isHealthy = false ∧ (begin.run events).health.isHealthy = false ∧
      ((begin.run before).exchange? 1).map (fun exchange => exchange.phase.isResponded) =
        some false ∧
      ((begin.run events).exchange? 1).bind answer? = some (200, late.body) ∧
      ¬ ∃ key list, begin.Sourced before key list ∧
        late.body.bytes =
          (list.retain fun item => item.label? "type" == some "consistency").encode := by
  intro begin before late events
  have framed : ∀ id reply, .answer id (.ok reply) ∈ events → Framed reply := by
    intro id reply sent
    have same : id = 0 ∧ reply = mixedReply ∨ id = 1 ∧ reply = late := by
      simpa [events, before, snapshotRun] using sent
    rcases same with ⟨-, rfl⟩ | ⟨-, rfl⟩ <;> exact framed_podsReply _
  have course : (begin.run before).health.isHealthy = false ∧
      (begin.run events).health.isHealthy = false ∧
      ((begin.run before).exchange? 1).map (fun exchange => exchange.phase.isResponded) =
        some false ∧
      ((begin.run events).exchange? 1).bind answer? = some (200, late.body) := by
    decide +kernel
  obtain ⟨down, stillDown, waits, given⟩ := course
  refine ⟨framed, down, stillDown, waits, given, ?_⟩
  rintro ⟨key, list, ⟨asked, payload, -, -, ⟨reply, answered, whole⟩, decoded⟩, same⟩
  obtain ⟨id, sent⟩ := answered.mem
  have earlier : id = 0 ∧ reply = mixedReply := by simpa [before, snapshotRun] using sent
  rw [earlier.2] at whole
  have all : payload = mixedReply.body.bytes := by
    cases whole with
    | ended plain all ends => exact all
    | measured length plain measure => cases measure
    | decoded format coded contents => cases coded
  have differs : ∀ kind, (ObjectList.decode kind mixedReply.body.bytes).map (fun list =>
      (list.retain fun item => item.label? "type" == some "consistency").encode) ≠
        .ok late.body.bytes := by
    intro kind
    cases kind <;> decide +kernel
  refine differs key.kind ?_
  rw [← all, decoded]
  exact congrArg Except.ok same.symm

end Engine

end Outpost.Proxy
