import Outpost.Proofs.Proxy.Commissions

/-!
# What may touch the cache

Only the caching task of an exchange changes the volatile tier or the backend of the store, and it
does so for a list that was asked for and answered in a way that its class allows.  The policy of
the request decides which of the two it is.
-/

namespace Outpost.Proxy

open Api Cache Coding Config Http Store Outpost.Stream

/-! ## Selectors -/

theorem ofSelector_eq_volatile {selector : String}
    (h : Policy.ofSelector selector = .volatile) :
    Text.contains selector "type=resourceusage" = true ∧
      Text.contains selector "type=benchmark" = false ∧
      Text.contains selector "type=functional" = false ∧
      Text.contains selector "type=filter" = false := by
  unfold Policy.ofSelector Policy.tokens at h
  split at h
  · cases h
  simp only [List.find?_cons, List.find?_nil] at h
  repeat' split at h
  all_goals simp_all

theorem ofSelector_eq_unselected {selector : String}
    (h : Policy.ofSelector selector = .unselected) : selector = "" := by
  unfold Policy.ofSelector Policy.tokens at h
  split at h
  · assumption
  simp only [List.find?_cons, List.find?_nil] at h
  repeat' split at h
  all_goals simp_all

/-! ## Requests and replies -/

/-- A request for a list that has an entry under the key, and a reply that may be cached. -/
structure Eligible (request : Request) (key : Key) (reply : Reply) : Prop where
  plain : isUpgrade request.headers = false
  method : request.method = "GET"
  verb : request.info.verb = .list
  resource : request.info.resource = "pods" ∨ request.info.resource = "configmaps"
  key : Key.ofRequest? request.info = some key
  status : 200 ≤ reply.status ∧ reply.status ≤ 206
  contentType : ∀ value text, reply.headers.first? "content-type" = some value →
    Headers.text? value = some text → Text.contains text "json" = true

def IsUncached (request : Request) : Prop :=
  request.info.policy ∈ [.passthrough, .functional, .filter, .other] ∨
    request.method = "HEAD" ∨ request.info.verb = .watch ∨ request.info.verb.isRead = false

section Keys

variable {request : Request} {key : Key}

theorem list_of_supportedList? {kind : ResourceKind}
    (supported : request.info.supportedList? = some kind) :
    request.method = "GET" ∧ request.info.verb = .list ∧
      (request.info.resource = "pods" ∨ request.info.resource = "configmaps") := by
  unfold RequestInfo.supportedList? at supported
  split at supported
  · rename_i list
    have method : request.info.method = request.method := by
      unfold Request.info RequestInfo.classify
      simp only
      split <;> rfl
    rw [ResourceKind.ofName?_eq_some_iff] at supported
    refine ⟨method.symm.trans list.1, list.2.1, ?_⟩
    rw [supported]
    cases kind
    · exact .inl rfl
    · exact .inr rfl
  · cases supported

theorem list_of_ofRequest? (h : Key.ofRequest? request.info = some key) :
    request.method = "GET" ∧ request.info.verb = .list ∧
      (request.info.resource = "pods" ∨ request.info.resource = "configmaps") := by
  unfold Key.ofRequest? at h
  obtain ⟨kind, supported, -⟩ := Option.bind_eq_some_iff.mp h
  exact list_of_supportedList? supported

theorem volatile_of_resourceUsage (h : Key.ofRequest? request.info = some key)
    (own : key.queryClass = .resourceUsage) : request.info.policy = .volatile := by
  have policy := Key.policy_of_ofRequest? h
  rw [own] at policy
  unfold QueryClass.ofPolicy? at policy
  split at policy <;> simp_all

theorem not_isUncached (h : Key.ofRequest? request.info = some key) :
    ¬ IsUncached request := by
  obtain ⟨method, verb, -⟩ := list_of_ofRequest? h
  have policy := Key.policy_of_ofRequest? h
  rintro (other | head | watch | write)
  · unfold QueryClass.ofPolicy? at policy
    split at policy <;> simp_all
  · rw [method] at head
    revert head
    decide
  · cases verb.symm.trans watch
  · rw [verb] at write
    cases write

end Keys

theorem json_of_isJson {headers : Headers} (h : isJson headers = true) (value : Bytes)
    (text : String) (first : headers.first? "content-type" = some value)
    (readable : Headers.text? value = some text) : Text.contains text "json" = true := by
  have found : headers.firstText? "content-type" = some text := by
    unfold Headers.firstText?
    rw [first]
    exact readable
  unfold isJson at h
  rwa [found] at h

namespace Engine

/-! ## Who changes the tiers and the store -/

/-- The step of a caching task that puts a payload into the volatile tier, or that takes a
population one stage further. -/
inductive Caches (engine : Engine) (id : Nat) : Event → Shared → Prop where
  | insert (task : CachingTask) (payload : Bytes) (shared : Shared)
      (found : engine.task? id = some task) (inserting : task.stage = .inserting payload)
      (tiers : shared.tiers = (engine.tiers.insertVolatile task.key payload).1)
      (store : shared.store = engine.store) : Caches engine id (.work id) shared
  | populate (task : CachingTask) (population : Population) (progress : Population.Progress)
      (shared : Shared) (found : engine.task? id = some task)
      (populating : task.stage = .populating population)
      (step : population.step engine.tiers engine.store =
        (shared.tiers, shared.store, progress)) : Caches engine id (.work id) shared

theorem Move.caches {engine : Engine} {id : Nat} {event : Event} {slot : Slot} {shared : Shared}
    (move : Move engine id event slot shared) :
    shared.tiers.volatile = engine.tiers.volatile ∧
        shared.store.backend = engine.store.backend ∨
      Caches engine id event shared := by
  cases move with
  | turn exchange phase store found turns => exact .inl ⟨rfl, turns.backend⟩
  | join exchange key tiers gate found approaching opened =>
      rcases Tiers.gate?_cases opened with ⟨-, rfl⟩ | ⟨-, -, rfl⟩ <;> exact .inl ⟨rfl, rfl⟩
  | work task after tee shared found works =>
      cases works with
      | insert payload inserting => exact .inr (.insert task payload _ found inserting rfl rfl)
      | populate population stage tiers store populating step =>
          exact .inr (.populate task population _ _ found populating step)
      | populated population result tiers store populating step =>
          exact .inr (.populate task population _ _ found populating step)
      | _ => exact .inl ⟨rfl, rfl⟩
  | _ => exact .inl ⟨rfl, rfl⟩

theorem step_caches {engine : Engine} {event : Event}
    (changed : (engine.step event).tiers.volatile ≠ engine.tiers.volatile ∨
      (engine.step event).store.backend ≠ engine.store.backend) :
    ∃ id, Caches engine id event (engine.step event).shared := by
  rcases step_moved engine event with unmoved | ⟨id, moved⟩
  · have shared := unmoved.shared
    have volatile : (engine.step event).tiers.volatile = engine.tiers.volatile :=
      congrArg (fun shared => shared.tiers.volatile) shared
    have backend : (engine.step event).store.backend = engine.store.backend :=
      congrArg (fun shared => shared.store.backend) shared
    rcases changed with changed | changed
    · exact absurd volatile changed
    · exact absurd backend changed
  · rcases moved.move.caches with ⟨volatile, backend⟩ | caches
    · rcases changed with changed | changed
      · exact absurd volatile changed
      · exact absurd backend changed
    · exact ⟨id, caches⟩

/-! ## The request behind a caching task -/

section Entitled

variable {start : Engine} {events : List Event} {id : Nat} {request : Request} {key : Key}
  {reply : Reply}

def RepliedTo (start : Engine) (id : Nat) (reply : Reply) (events : List Event) : Prop :=
  ∃ before after exchange relation out, events = before ++ .answer id (.ok reply) :: after ∧
    (start.run before).exchange? id = some exchange ∧ exchange.phase = .awaiting relation out

/-- In the run, the request with this number arrived, was dispatched while the upstream was healthy
and was answered with a reply that may be cached under the key. -/
structure Entitled (start : Engine) (id : Nat) (request : Request) (key : Key)
    (events : List Event) : Prop where
  arrived : start.Arrived id request events
  dispatched : start.DispatchedHealthy id events
  answered : ∃ reply, start.RepliedTo id reply events ∧ Eligible request key reply

theorem Entitled.asked (h : start.Entitled id request key events) :
    Key.ofRequest? request.info = some key := by
  obtain ⟨-, -, reply, -, eligible⟩ := h
  exact eligible.key

theorem Commissioned.entitled {settings : Settings} (dev : settings.handler = .dev)
    {store : CountedStore} {now : Nat}
    (h : (Engine.start settings store now).Commissioned id request key reply events) :
    (Engine.start settings store now).Entitled id request key events := by
  obtain ⟨before, after, exchange, out, rfl, found, rfl, awaiting, cache⟩ := h
  have routed := run_routed settings store now before id exchange found
  have wellFormed := run_wellFormed (start_wellFormed settings store now) before id
  have info := (wellFormed.exchange exchange found).info
  obtain ⟨-, plain⟩ := Relation.eq_of_treated (routed.awaiting awaiting).1
  have dispatched : (Engine.start settings store now).DispatchedHealthy id before := by
    rcases run_accounted settings dev store now before id exchange found with
      arrived | responded | dispatched
    · cases awaiting.symm.trans arrived
    · rw [awaiting] at responded
      cases responded
    · exact dispatched
  have asked := info ▸ key_of_treatment cache
  obtain ⟨method, verb, resource⟩ := list_of_ofRequest? asked
  have treated := isTreated_of_treatment cache
  have json := isJson_of_treatment cache
  unfold isJson at json
  rw [firstText?_treatedResponse exchange.info reply (by decide) (by decide)] at json
  refine ⟨routed.arrived.more _, dispatched.more _, reply,
    ⟨before, after, exchange, .treated, out, rfl, found, awaiting⟩, ?_⟩
  exact {
    plain, method, verb, resource
    key := asked
    status := by simpa [isTreated] using treated
    contentType := json_of_isJson json }

end Entitled

/-! ## Populations under way -/

theorem Move.populating_cases {engine : Engine} {id : Nat} {event : Event} {slot : Slot}
    {shared : Shared} (move : Move engine id event slot shared) {task : CachingTask}
    (found : slot.task = some task) {population : Population}
    (populating : task.stage = .populating population) :
    (∃ before, engine.task? id = some before ∧ before.stage = .populating population) ∨
      (∃ key payload, population = Population.start key payload) ∨
      ∃ before earlier stage, engine.task? id = some before ∧
        before.stage = .populating earlier ∧ population = { earlier with stage } ∧
        earlier.step engine.tiers engine.store = (shared.tiers, shared.store, .next stage) := by
  have collected : ∀ {key : Key} {body : Except Unit Bytes},
      stageAfter key body = .populating population →
        ∃ key payload, population = Population.start key payload := by
    intro key body populating
    cases body with
    | error _ => cases populating
    | ok payload =>
        change storing key payload = _ at populating
        unfold storing at populating
        split at populating
        · cases populating
        · cases populating
          exact ⟨key, payload, rfl⟩
  cases move with
  | copy exchange key request reply hexchange awaiting cache =>
      cases known : engine.task? id with
      | none =>
          simp only [known, Option.none_or] at found
          cases found
          cases populating
      | some before =>
          simp only [known, Option.some_or] at found
          exact .inl ⟨task, found, populating⟩
  | work before after tee shared hbefore works =>
      have number := exchange_of_task? hbefore
      subst number
      cases works with
      | starved => exact .inl ⟨task, found, populating⟩
      | ended => cases found; exact .inr (.inl (collected populating))
      | decoded => cases found; exact .inr (.inl (collected populating))
      | populate earlier stage tiers store hearlier step =>
          cases found
          cases populating
          exact .inr (.inr ⟨before, earlier, stage, hbefore, hearlier, rfl, step⟩)
      | close => cases found
      | _ => cases found; cases populating
  | _ => exact .inl ⟨task, found, populating⟩

structure Keeps (start engine : Engine) : Prop where
  sound : engine.store.backend.Sound
  base : engine.store.backend.base? = start.store.backend.base?
  prepared : ∀ id task population, engine.task? id = some task →
    task.stage = .populating population → population.Prepared start.store.backend.base?

section Keeping

variable {start engine : Engine} (h : start.Keeps engine)

include h

theorem Move.backend_kept {id : Nat} {event : Event} {slot : Slot} {shared : Shared}
    (move : Move engine id event slot shared) :
    shared.store.backend.Sound ∧ shared.store.backend.base? = start.store.backend.base? := by
  rcases move.backend_cases with same | ⟨task, population, progress, found, populating, step⟩
  · rw [same]
    exact ⟨h.sound, h.base⟩
  · have prepared := h.prepared id task population found populating
    have leads := Population.step_leads h.sound (h.base ▸ prepared) step
    exact ⟨leads.sound, leads.base.trans h.base⟩

theorem step_keeps (event : Event) : start.Keeps (engine.step event) := by
  rcases step_moved engine event with unmoved | ⟨moved, hmoved⟩
  · have store : (engine.step event).store = engine.store := congrArg Shared.store unmoved.shared
    refine ⟨store ▸ h.sound, store ▸ h.base, fun id task population found => ?_⟩
    exact h.prepared id task population ((congrArg Slot.task (unmoved.slots id)).symm.trans found)
  · obtain ⟨sound, base⟩ := hmoved.move.backend_kept h
    refine ⟨sound, base, fun id task population found populating => ?_⟩
    by_cases same : id = moved
    · subst same
      rcases hmoved.move.populating_cases found populating with
        ⟨before, hbefore, earlier⟩ | ⟨key, payload, rfl⟩ |
          ⟨before, earlier, stage, hbefore, hearlier, rfl, step⟩
      · exact h.prepared id before population hbefore earlier
      · exact Population.start_prepared _ key payload
      · have prepared := h.prepared id before earlier hbefore hearlier
        rw [← h.base] at prepared ⊢
        exact (Population.step_leads h.sound prepared step).prepared stage rfl
    · exact h.prepared id task population
        ((congrArg Slot.task (hmoved.others id same)).symm.trans found) populating

end Keeping

theorem run_keeps {start engine : Engine} (h : start.Keeps engine) (events : List Event) :
    start.Keeps (engine.run events) := by
  induction events generalizing engine with
  | nil => exact h
  | cons event rest ih => exact ih (step_keeps h event)

theorem start_keeps (settings : Settings) (store : CountedStore) (now : Nat)
    (sound : store.backend.Sound) :
    (start settings store now).Keeps (start settings store now) :=
  ⟨sound, rfl, fun _ _ _ found => by cases found⟩

/-! ## Runs -/

/-- Who changes the volatile tier and the backend of the store in a run, and how. -/
structure CachesEligible (start : Engine) (events : List Event) : Prop where
  volatile : ∀ before event after, events = before ++ event :: after →
    ((start.run before).step event).tiers.volatile ≠ (start.run before).tiers.volatile →
    ∃ id request key, event = .work id ∧ start.Entitled id request key before ∧
      request.info.policy = .volatile ∧
      Text.contains request.info.labelSelector "type=resourceusage" = true ∧
      Text.contains request.info.labelSelector "type=benchmark" = false ∧
      Text.contains request.info.labelSelector "type=functional" = false ∧
      Text.contains request.info.labelSelector "type=filter" = false ∧
      ∀ other, other ≠ key → ((start.run before).step event).tiers.volatile? other =
        (start.run before).tiers.volatile? other
  /-- A step that changes the backend is a part of a put under the key of a request that has the
  durable policy or no selector.  Where no links lead astray, it changes no other entry. -/
  durable : ∀ before event after, events = before ++ event :: after →
    ((start.run before).step event).store.backend ≠ (start.run before).store.backend →
    ∃ id request key, event = .work id ∧ start.Entitled id request key before ∧
      (request.info.policy = .durable ∨ request.info.labelSelector = "") ∧
      Backend.PutsUnder key.storageKey (start.run before).store.backend
        ((start.run before).step event).store.backend ∧
      (start.store.backend.Sound → ∀ (asking : Request) other,
        Key.ofRequest? asking.info = some other →
        other.storageKey ≠ key.storageKey →
        ((start.run before).step event).store.backend.contents? other.storageKey =
          (start.run before).store.backend.contents? other.storageKey)
  apart : ∀ id before after earlier later, events = before ++ .work id :: after →
    events = earlier ++ .work id :: later →
    ((start.run before).step (.work id)).tiers.volatile ≠ (start.run before).tiers.volatile →
    ((start.run earlier).step (.work id)).store.backend = (start.run earlier).store.backend
  uncached : ∀ before event after id request, events = before ++ event :: after →
    event.exchange? = some id → start.Arrived id request before → IsUncached request →
    ((start.run before).step event).tiers.volatile = (start.run before).tiers.volatile ∧
      ((start.run before).step event).store.backend = (start.run before).store.backend

section Runs

variable {settings : Settings} (dev : settings.handler = .dev) {store : CountedStore} {now : Nat}
  {before : List Event} {event : Event}

include dev

theorem volatile_changed
    (changed : (((start settings store now).run before).step event).tiers.volatile ≠
      ((start settings store now).run before).tiers.volatile) :
    ∃ id request key, event = .work id ∧
      (start settings store now).Entitled id request key before ∧
      key.queryClass = .resourceUsage ∧
      ∀ other, other ≠ key →
        (((start settings store now).run before).step event).tiers.volatile? other =
          ((start settings store now).run before).tiers.volatile? other := by
  obtain ⟨id, caches⟩ := step_caches (.inl changed)
  generalize hshared : (((start settings store now).run before).step event).shared = shared
    at caches
  have tiers : (((start settings store now).run before).step event).tiers = shared.tiers :=
    congrArg Shared.tiers hshared
  rw [tiers] at changed ⊢
  cases caches with
  | insert task payload _ found inserting inserted same =>
      have due := run_filed settings store now before id task found
      rw [inserting] at due
      obtain ⟨own, request, reply, commissioned, -⟩ := due
      refine ⟨id, request, task.key, rfl, commissioned.entitled dev, own, fun other differs => ?_⟩
      rw [inserted, Tiers.volatile?_insertVolatile, if_neg differs]
  | populate task population progress _ found populating step =>
      have kept := Population.step_tiers ((start settings store now).run before).tiers
        ((start settings store now).run before).store population
      rw [step] at kept
      refine absurd ?_ changed
      rcases kept with same | marked
      · exact congrArg Tiers.volatile same
      · exact (congrArg Tiers.volatile marked).trans (Tiers.markPopulated_volatile _ _)

theorem backend_changed
    (changed : (((start settings store now).run before).step event).store.backend ≠
      ((start settings store now).run before).store.backend) :
    ∃ id request key, event = .work id ∧
      (start settings store now).Entitled id request key before ∧
      key.queryClass ≠ .resourceUsage ∧
      Backend.PutsUnder key.storageKey ((start settings store now).run before).store.backend
        (((start settings store now).run before).step event).store.backend ∧
      (store.backend.Sound → ∀ (asking : Request) other,
        Key.ofRequest? asking.info = some other →
        other.storageKey ≠ key.storageKey →
        (((start settings store now).run before).step event).store.backend.contents?
            other.storageKey =
          ((start settings store now).run before).store.backend.contents? other.storageKey) := by
  obtain ⟨id, caches⟩ := step_caches (.inr changed)
  generalize hshared : (((start settings store now).run before).step event).shared = shared
    at caches
  have after : (((start settings store now).run before).step event).store = shared.store :=
    congrArg Shared.store hshared
  rw [after] at changed ⊢
  cases caches with
  | insert task payload _ found inserting tiers same =>
      exact absurd (congrArg CountedStore.backend same) changed
  | populate task population progress _ found populating step =>
      have due := run_filed settings store now before id task found
      rw [populating] at due
      obtain ⟨other, own, request, reply, commissioned⟩ := due
      have entitled := commissioned.entitled dev
      refine ⟨id, request, task.key, rfl, entitled, other, ?_, ?_⟩
      · rw [← own]
        exact (Population.step_backend step).resolve_left changed
      · intro sound asking key asked differs
        have keeps := run_keeps (start_keeps settings store now sound) before
        have prepared := keeps.prepared id task population found populating
        rw [← keeps.base] at prepared
        rw [← own] at differs
        have slashless := Key.slashless_of_ofRequest? entitled.asked
        rw [← own] at slashless
        exact Population.step_contents? keeps.sound prepared step differs
          (Key.keySegments_ne_unfinishedSegments (Key.slashless_of_ofRequest? asked) slashless)

end Runs

theorem run_cachesEligible (settings : Settings) (dev : settings.handler = .dev)
    (store : CountedStore) (now : Nat) (events : List Event) :
    (start settings store now).CachesEligible events where
  volatile := by
    intro before event after split changed
    obtain ⟨id, request, key, work, entitled, own, others⟩ := volatile_changed dev changed
    have policy := volatile_of_resourceUsage entitled.asked own
    obtain ⟨wanted, benchmark, functional, filter⟩ :=
      ofSelector_eq_volatile ((policy_classify _ _).symm.trans policy)
    exact ⟨id, request, key, work, entitled, policy, wanted, benchmark, functional, filter, others⟩
  durable := by
    intro before event after split changed
    obtain ⟨id, request, key, work, entitled, other, put, others⟩ := backend_changed dev changed
    refine ⟨id, request, key, work, entitled, ?_, put, others⟩
    have chosen := Key.policy_of_ofRequest? entitled.asked
    unfold QueryClass.ofPolicy? at chosen
    split at chosen
    · rename_i unselected
      exact .inr (ofSelector_eq_unselected ((policy_classify _ _).symm.trans unselected))
    · rename_i durable
      exact .inl durable
    · exact absurd (Option.some.inj chosen).symm other
    · cases chosen
  apart := by
    rintro id before after earlier later rfl split changed
    by_contra other
    obtain ⟨first, request, key, work, entitled, own, -⟩ := volatile_changed dev changed
    obtain ⟨second, asking, put, put_work, entitledPut, differs, -⟩ := backend_changed dev other
    cases work
    cases put_work
    have arrived := entitled.arrived.more (.work id :: after)
    have arrivedPut := entitledPut.arrived.more (.work id :: later)
    rw [← split] at arrivedPut
    cases arrived.unique arrivedPut
    cases entitled.asked.symm.trans entitledPut.asked
    exact differs own
  uncached := by
    rintro before event after id request rfl about arrived uncached
    have never : ∀ {asking : Request} {key : Key},
        (start settings store now).Entitled id asking key before → False := by
      intro asking key entitled
      cases arrived.unique entitled.arrived
      exact not_isUncached entitled.asked uncached
    constructor
    · by_contra changed
      obtain ⟨other, asking, key, rfl, entitled, -⟩ := volatile_changed dev changed
      cases about
      exact never entitled
    · by_contra changed
      obtain ⟨other, asking, key, rfl, entitled, -⟩ := backend_changed dev changed
      cases about
      exact never entitled

/-- A list of the durable policy is cached, and then one of the volatile policy. -/
theorem run_cachesEligible_pods :
    let request : Request := {
      method := "GET"
      target := ⟨"/api/v1/pods", some "labelSelector=type%3Dresourceusage",
        some "/api/v1/pods?labelSelector=type%3Dresourceusage"⟩
      headers := [], body := [] }
    let begin := start (Settings.default default) .inMemory 0
    let events := snapshotRun ++ [.arrive request, .advance 1, .advance 1, .advance 1, .advance 1,
      .advance 1, .advance 1, .answer 1 (.ok mixedReply), .read 1, .work 1, .read 1, .work 1]
    (Settings.default default).handler = .dev ∧
      ((begin.run events).store.backend.contents? "cache/pods/_cluster/consistency").isSome ∧
      (begin.run events).tiers.volatile = [] ∧
      ((begin.run events).step (.work 1)).tiers.volatile =
        [(⟨.pods, "", .resourceUsage⟩, mixedReply.body.bytes)] ∧
      begin.CachesEligible (events ++ [.work 1]) := by
  intro request begin events
  exact ⟨rfl, by decide +kernel, by decide +kernel, by decide +kernel,
    run_cachesEligible (Settings.default default) rfl .inMemory 0 _⟩

end Engine

end Outpost.Proxy
