import Outpost.Proofs.Api.Request
import Outpost.Proofs.Proxy.Courses
import Outpost.Proofs.Proxy.Refusals

/-!
# The answers of an outage

A request that is dispatched while the upstream is unhealthy is answered at once, out of a table
that leaves no request out: a snapshot for the lists that have one, and a refusal for everything
else.  Nothing is sent for it, then or later, and nothing that the proxy holds is changed.
-/

namespace Outpost.Proxy

open Api Cache Config Http Store Outpost.Stream

/-! ## The table -/

structure Servable (info : RequestInfo) : Prop where
  method : info.method = "GET"
  verb : info.verb = .list
  resource : info.resource = "pods" ∨ info.resource = "configmaps"
  policy : info.policy = .durable

def snapshotPath (info : RequestInfo) : String :=
  "cache/" ++ info.resource ++ "/" ++ (if info.scope = "" then "_cluster" else info.scope) ++
    "/consistency"

def Refuses (code : StatusCode) (response : Response) : Prop :=
  ∃ status : Status, status.code = code ∧ TellsStatus response status

/-- What a request is answered with while the upstream is unhealthy. -/
structure OutageAnswer (store : CountedStore) (info : RequestInfo) (response : Response) :
    Prop where
  unnamed : info.isResourceRequest = false → Refuses 400 response
  deletion : info.isResourceRequest = true → info.verb = .delete ∨ info.verb = .deleteCollection →
    ∃ status : Status, status.code = 403 ∧
      status.details = some ⟨info.name, info.apiGroup, info.resource⟩ ∧
      TellsStatus response status
  stored : info.isResourceRequest = true → Servable info → ∀ contents,
    (store.get (snapshotPath info)).2 = .ok contents →
    response = ⟨200, [("content-type", Bytes.ofText "application/json")], .whole contents⟩
  missing : info.isResourceRequest = true → Servable info → ∀ error,
    (store.get (snapshotPath info)).2 = .error error → error = .notFound ∨ error = .noContent →
    Refuses 404 response
  failed : info.isResourceRequest = true → Servable info → ∀ error,
    (store.get (snapshotPath info)).2 = .error error → error ≠ .notFound → error ≠ .noContent →
    Refuses 500 response
  unservable : info.isResourceRequest = true → info.verb ≠ .delete →
    info.verb ≠ .deleteCollection → ¬ Servable info → Refuses 400 response

theorem ProxyError.refuses (error : ProxyError) : Refuses error.statusCode error.response :=
  ⟨error.status, error.code_status, error.response_told⟩

variable {info : RequestInfo}

theorem supportedList?_eq_some {kind : ResourceKind} : info.supportedList? = some kind ↔
    (info.method = "GET" ∧ info.verb = .list ∧ info.subresource = "") ∧
      info.resource = kind.name := by
  unfold RequestInfo.supportedList?
  split
  · rename_i list
    rw [ResourceKind.ofName?_eq_some_iff]
    exact (and_iff_right list).symm
  · rename_i other
    exact iff_of_false nofun fun list => other list.1

theorem fallbackKey_of_servable (named : info.isResourceRequest = true) (servable : Servable info)
    (whole : info.subresource = "") :
    ∃ key, fallbackKey info = .ok key ∧ key.storageKey = snapshotPath info := by
  obtain ⟨kind, resource⟩ : ∃ kind : ResourceKind, info.resource = kind.name :=
    servable.resource.elim (fun pods => ⟨.pods, pods⟩) fun maps => ⟨.configMaps, maps⟩
  have list := supportedList?_eq_some.mpr ⟨⟨servable.method, servable.verb, whole⟩, resource⟩
  have key : Key.ofRequest? info = some ⟨kind, info.scope, .consistency⟩ := by
    rw [Key.ofRequest?, list, servable.policy]
    rfl
  refine ⟨⟨kind, info.scope, .consistency⟩, ?_, ?_⟩
  · unfold fallbackKey
    simp [named, servable.verb, servable.policy, key]
  · rw [snapshotPath, resource, Key.storageKey, String.append_assoc]
    rfl

theorem fallbackKey_of_unservable (named : info.isResourceRequest = true)
    (noDelete : info.verb ≠ .delete) (noCollection : info.verb ≠ .deleteCollection)
    (unservable : ¬ Servable info) :
    fallbackKey info = .error (.unsupportedWhenUnhealthy info.render) := by
  cases key : fallbackKey info with
  | ok key =>
      obtain ⟨asked, durable⟩ := fallbackKey_ok key
      obtain ⟨kind, list, _⟩ := Option.bind_eq_some_iff.mp asked
      obtain ⟨⟨method, verb, _⟩, resource⟩ := supportedList?_eq_some.mp list
      refine absurd ⟨method, verb, ?_, durable⟩ unservable
      rw [resource]
      cases kind
      · exact .inl rfl
      · exact .inr rfl
  | error error =>
      unfold fallbackKey at key
      simp only [named, noDelete, noCollection, Bool.not_true, Bool.false_eq_true, or_self,
        if_false] at key
      split at key
      · split at key <;> cases key
        rfl
      · cases key
        rfl

theorem fallback_of_error {store : CountedStore} {error : ProxyError}
    (refused : fallbackKey info = .error error) :
    (fallback store info).2 = error.response := by
  unfold fallback
  rw [refused]

theorem fallback_of_key {store : CountedStore} {key : Key} (allowed : fallbackKey info = .ok key) :
    (fallback store info).2 =
      match (store.get key.storageKey).2 with
      | .ok contents => Response.json 200 contents
      | .error error =>
          if error.isNotFound then
            (ProxyError.notFoundInCache info.apiGroup info.resource info.name).response
          else (ProxyError.cache (.store error)).response := by
  unfold fallback queryDurable
  rw [allowed]
  simp only
  cases (store.get key.storageKey).2 <;> rfl

/-- The table is what requests are answered from, whatever the store has. -/
theorem outageAnswer_fallback (store : CountedStore)
    (whole : info.verb = .list → info.subresource = "") :
    OutageAnswer store info (fallback store info).2 := by
  constructor
  case unnamed =>
    intro unnamed
    have key : fallbackKey info = .error (.unsupportedWhenUnhealthy info.render) := by
      simp [fallbackKey, unnamed]
    rw [fallback_of_error key]
    exact ProxyError.refuses (.unsupportedWhenUnhealthy info.render)
  case deletion =>
    intro named deletes
    have key : fallbackKey info = .error (.forbidden info.name info.apiGroup info.resource) := by
      simp [fallbackKey, named, deletes]
    rw [fallback_of_error key]
    exact ⟨_, rfl, rfl, ProxyError.response_told _⟩
  case unservable =>
    intro named noDelete noCollection unservable
    rw [fallback_of_error (fallbackKey_of_unservable named noDelete noCollection unservable)]
    exact ProxyError.refuses (.unsupportedWhenUnhealthy info.render)
  case stored =>
    intro named servable contents present
    obtain ⟨key, allowed, path⟩ := fallbackKey_of_servable named servable (whole servable.verb)
    rw [fallback_of_key allowed, path, present]
    rfl
  case missing =>
    intro named servable error absent nothing
    obtain ⟨key, allowed, path⟩ := fallbackKey_of_servable named servable (whole servable.verb)
    have isNotFound : error.isNotFound = true := by
      rcases nothing with rfl | rfl <;> rfl
    rw [fallback_of_key allowed, path, absent]
    simp only [isNotFound, if_true]
    exact ProxyError.refuses (.notFoundInCache info.apiGroup info.resource info.name)
  case failed =>
    intro named servable error failed found content
    obtain ⟨key, allowed, path⟩ := fallbackKey_of_servable named servable (whole servable.verb)
    have isOther : error.isNotFound = false := by
      cases error <;> first | rfl | contradiction
    rw [fallback_of_key allowed, path, failed]
    simp only [isOther, Bool.false_eq_true, if_false]
    exact ProxyError.refuses (.cache (.store error))

/-! ## The dispatch -/

namespace Engine

variable {engine : Engine} {id : Nat} {exchange : Exchange} {response : Response}
  {delivery : Delivery}

/-- The exchange has been given this response, whatever of its body was delivered. -/
def HasResponse (engine : Engine) (id : Nat) (response : Response) : Prop :=
  ∃ exchange delivery, engine.exchange? id = some exchange ∧
    exchange.phase = .responded response delivery

/-- Once there is a response, no step gives another or begins anything else for the exchange. -/
theorem HasResponse.step (h : engine.HasResponse id response) (event : Event) :
    (engine.step event).HasResponse id response := by
  obtain ⟨exchange, delivery, found, responded⟩ := h
  rcases step_slot_cases engine event id with same | move
  · exact ⟨exchange, delivery, (congrArg Slot.exchange same).trans found, responded⟩
  have here : (engine.step event).exchange? id = ((engine.step event).slot id).exchange := rfl
  unfold HasResponse
  rw [here]
  generalize (engine.step event).slot id = slot at move
  generalize (engine.step event).shared = shared at move
  have answered : exchange.phase.isResponded = true := by rw [responded]; rfl
  cases move with
  | arrive request fresh => exact ⟨exchange, delivery, by rw [found]; rfl, responded⟩
  | turn other phase store hother turns =>
      cases found.symm.trans hother
      cases answered.symm.trans turns.unanswered
  | conclude other event response hother concludes =>
      cases found.symm.trans hother
      cases answered.symm.trans concludes.unanswered
  | readCopy other response tee hother copying copied =>
      exact ⟨exchange, delivery, found, responded⟩
  | work task after tee shared worked works => exact ⟨exchange, delivery, found, responded⟩
  | abandon other hother unanswered =>
      cases found.symm.trans hother
      exact absurd responded (unanswered _ _)
  | readDirect other given source hother direct =>
      cases found.symm.trans hother
      cases responded.symm.trans direct
      exact ⟨_, _, rfl, rfl⟩
  | dropBody other given delivery hother dropped uncopied =>
      cases found.symm.trans hother
      cases responded.symm.trans dropped
      exact ⟨_, _, rfl, rfl⟩
  | dropCopy other given tee hother dropped copied =>
      cases found.symm.trans hother
      cases responded.symm.trans dropped
      exact ⟨_, _, rfl, rfl⟩
  | join other key tiers gate hother before
  | giveUp other key gate deadline hother before
  | filter other kind request reply hother before
  | copy other key request reply hother before =>
      cases found.symm.trans hother
      cases responded.symm.trans before

theorem HasResponse.run (h : engine.HasResponse id response) (events : List Event) :
    (engine.run events).HasResponse id response := by
  induction events generalizing engine with
  | nil => exact h
  | cons event events ih => exact ih (h.step event)

theorem step_fallBack (found : engine.exchange? id = some exchange)
    (arrived : exchange.phase = .arrived) (dev : engine.handler = .dev)
    (unhealthy : engine.health.isHealthy = false) :
    ∃ metrics, engine.step (.advance id) =
      { engine with metrics, store := (fallback engine.store exchange.info).1 }.setPhase exchange
        (.responded (fallback engine.store exchange.info).2
          (Delivery.ofPayload (fallback engine.store exchange.info).2.payload)) := by
  have dispatched := dispatch_eq exchange dev
  rw [if_neg (by rw [unhealthy]; decide)] at dispatched
  refine ⟨(engine.countDispatch exchange).recordEnd (fallback engine.store exchange.info).2.status,
    ?_⟩
  simp only [step, advance, found, arrived, dispatched]

theorem fallback_store (store : CountedStore) (info : RequestInfo) :
    (fallback store info).1 = { store with gets := (fallback store info).1.gets } := by
  unfold fallback
  split <;> rfl

/-- What the dispatch of an exchange does while the upstream is unhealthy. -/
structure AnswersAlone (engine : Engine) (exchange : Exchange) (after : Engine) : Prop where
  /-- The request has its answer out of the table, all of it at hand, and keeps it whatever comes
  later: nothing is ever sent for it. -/
  answer : ∃ response, OutageAnswer engine.store exchange.request.info response ∧
    after.exchange? exchange.id = some { exchange with
      phase := .responded response (Delivery.ofPayload response.payload) } ∧
    ∀ later, (after.run later).HasResponse exchange.id response
  store : after.store = { engine.store with gets := after.store.gets }
  tiers : after.tiers = engine.tiers
  lines : after.lines = engine.lines
  tasks : after.tasks = engine.tasks
  tees : after.tees = engine.tees
  others : ∀ other, other ≠ exchange.id → after.exchange? other = engine.exchange? other

/-- Every request that is dispatched while the upstream is unhealthy is answered without it, out
of the table and with nothing changed. -/
theorem dispatch_answersAlone (dev : engine.handler = .dev)
    (unhealthy : engine.health.isHealthy = false) (found : engine.exchange? id = some exchange)
    (arrived : exchange.phase = .arrived) (read : exchange.info = exchange.request.info) :
    engine.AnswersAlone exchange (engine.step (.advance id)) := by
  have number := id_of_exchange? found
  subst number
  obtain ⟨metrics, after⟩ := step_fallBack found arrived dev unhealthy
  rw [after]
  have table : OutageAnswer engine.store exchange.info (fallback engine.store exchange.info).2 :=
    outageAnswer_fallback engine.store fun list => by
      rw [read] at list ⊢
      exact RequestInfo.subresource_of_list list
  have here : { engine with metrics, store := (fallback engine.store exchange.info).1 }.exchange?
      exchange.id = some exchange := found
  have given := exchange?_setPhase here (.responded (fallback engine.store exchange.info).2
    (Delivery.ofPayload (fallback engine.store exchange.info).2.payload))
  constructor
  case answer =>
    exact ⟨_, read ▸ table, given, fun later => .run ⟨_, _, given, rfl⟩ later⟩
  case store => exact fallback_store _ _
  case tiers => rfl
  case lines => rfl
  case tasks => rfl
  case tees => rfl
  case others =>
    intro other different
    refine (exchange?_setExchange other).trans ?_
    rw [if_neg different]
    rfl

/-- A snapshot is served to the first request, before any probe has found the upstream healthy. -/
theorem dispatch_answersAlone_snapshot :
    let snapshot := podList (podOfType "a" "consistency")
    let store := (CountedStore.inMemory.put "cache/pods/_cluster/consistency" snapshot).1
    let engine := (start (Settings.default default) store 0).step (.arrive podsRequest)
    let exchange : Exchange := ⟨0, podsRequest, podsRequest.info, none, .arrived⟩
    engine.handler = .dev ∧ engine.health.isHealthy = false ∧
      engine.exchange? 0 = some exchange ∧ exchange.phase = .arrived ∧
      exchange.info = exchange.request.info ∧
      ((engine.step (.advance 0)).exchange? 0).bind answer? =
        some (200, Source.ofBytes snapshot) ∧
      engine.AnswersAlone exchange (engine.step (.advance 0)) := by
  intro snapshot store engine exchange
  have found : engine.exchange? 0 = some exchange := rfl
  have read : exchange.info = exchange.request.info := Eq.refl podsRequest.info
  exact ⟨rfl, rfl, found, rfl, read, by decide +kernel,
    dispatch_answersAlone rfl rfl found rfl read⟩

end Engine

end Outpost.Proxy
