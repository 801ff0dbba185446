import Outpost.Proofs.Proxy.Outage

/-!
# Deletes in an outage

While the upstream is unhealthy the delete of a resource is refused as forbidden, and the refusal
names the resource, whatever the query and the shape of the path.  The one exception are the paths
with the legacy watch segment: whoever deletes there counts as a watcher, and is refused for another
reason.
-/

namespace Outpost.Api

/-- The segments of a path in which the legacy watch segment stands before the resource. -/
def BehindWatch (parts : List String) : Prop :=
  (∃ version next rest, parts = "api" :: version :: "watch" :: next :: rest) ∨
    ∃ group version next rest, parts = "apis" :: group :: version :: "watch" :: next :: rest

namespace ResourcePath

theorem splitWatch_fst_iff (collection : List String) :
    (splitWatch collection).1 = true ↔ ∃ next rest, collection = "watch" :: next :: rest := by
  unfold splitWatch
  split
  · simp
  · rename_i other
    simpa using other

variable {resource : ResourcePath} {parts : List String}

theorem legacyWatch_of_ofCollection? {group version : String}
    (h : ofCollection? group version parts = some resource) :
    resource.legacyWatch = true ↔ ∃ next rest, parts = "watch" :: next :: rest := by
  unfold ofCollection? at h
  split at h <;> cases h
  exact splitWatch_fst_iff parts

theorem legacyWatch_iff (h : ofSegments? parts = some resource) :
    resource.legacyWatch = true ↔ BehindWatch parts := by
  unfold ofSegments? at h
  split at h
  · rw [legacyWatch_of_ofCollection? h]
    simp [BehindWatch]
  · rw [legacyWatch_of_ofCollection? h]
    simp [BehindWatch]
  · cases h

end ResourcePath

namespace RequestInfo

variable {target : Http.Target}

/-- The verb of a delete depends on the path alone: nothing in the query makes it a watch. -/
theorem verbOn_delete (resource : ResourcePath) (watching : Bool) :
    verbOn "DELETE" resource watching =
      if resource.legacyWatch then .watch
      else if resource.name = "" then .deleteCollection else .delete := by
  have plain : Verb.ofMethod "DELETE" = .delete := by decide
  unfold verbOn
  cases resource.legacyWatch <;> by_cases unnamed : resource.name = "" <;>
    simp [plain, unnamed, Verb.onCollection]

structure Deletes (info : RequestInfo) (target : Http.Target) (resource : ResourcePath) :
    Prop where
  read : ResourcePath.ofSegments? (segments target.path) = some resource
  method : info.method = "DELETE"
  named : info.name = resource.name ∧ info.apiGroup = resource.group ∧
    info.resource = resource.resource
  verb : info.verb =
    if resource.legacyWatch then .watch
    else if resource.name = "" then .deleteCollection else .delete

theorem deletes_classify (named : (classify "DELETE" target).isResourceRequest = true) :
    ∃ resource, (classify "DELETE" target).Deletes target resource := by
  cases read : ResourcePath.ofSegments? (segments target.path) with
  | none =>
      simp only [classify, read] at named
      cases named
  | some resource =>
      refine ⟨resource, read, ?_, ?_, ?_⟩
      · simp only [classify, read]
      · simp only [classify, read, and_self]
      · simp only [classify, read, verbOn_delete]

end RequestInfo

end Outpost.Api

namespace Outpost.Proxy

open Api Cache Config Http Store Outpost.Stream

section Keys

variable {info : RequestInfo} {target : Target} {resource : ResourcePath}
  (deletes : info.Deletes target resource) (named : info.isResourceRequest = true)

include deletes named

theorem fallbackKey_of_delete (plain : ¬ BehindWatch (segments target.path)) :
    fallbackKey info = .error (.forbidden resource.name resource.group resource.resource) := by
  have unwatched : resource.legacyWatch = false := by
    rwa [← ResourcePath.legacyWatch_iff deletes.read, Bool.not_eq_true] at plain
  have verb : info.verb = .delete ∨ info.verb = .deleteCollection := by
    rw [deletes.verb, unwatched]
    by_cases unnamed : resource.name = "" <;> simp [unnamed]
  obtain ⟨name, group, kind⟩ := deletes.named
  simp [fallbackKey, named, verb, name, group, kind]

theorem fallbackKey_of_watched_delete (behind : BehindWatch (segments target.path)) :
    fallbackKey info = .error (.unsupportedWhenUnhealthy info.render) := by
  have verb : info.verb = .watch := by
    rw [deletes.verb, (ResourcePath.legacyWatch_iff deletes.read).mpr behind]
    rfl
  refine fallbackKey_of_unservable named (by simp [verb]) (by simp [verb]) fun servable => ?_
  have method := servable.method
  rw [deletes.method] at method
  exact absurd method (by decide)

end Keys

namespace Engine

variable {engine : Engine} {id : Nat} {exchange : Exchange}

/-- The exchange is answered with a refusal that forbids to delete the resource, now and
whatever comes later. -/
def ForbidsDelete (engine : Engine) (id : Nat) (resource : ResourcePath) : Prop :=
  ∃ status : Status, status.code = 403 ∧ status.reason = .forbidden ∧
    status.details = some ⟨resource.name, resource.group, resource.resource⟩ ∧
    ∃ response, TellsStatus response status ∧ ∀ later, (engine.run later).HasResponse id response

theorem HasResponse.unique {response other : Response} (h : engine.HasResponse id response)
    (hother : engine.HasResponse id other) : response = other := by
  obtain ⟨exchange, delivery, found, responded⟩ := h
  obtain ⟨same, again, foundAgain, respondedAgain⟩ := hother
  cases found.symm.trans foundAgain
  cases responded.symm.trans respondedAgain
  rfl

theorem step_refuse (found : engine.exchange? id = some exchange)
    (arrived : exchange.phase = .arrived) (dev : engine.handler = .dev)
    (unhealthy : engine.health.isHealthy = false) {error : ProxyError}
    (refused : fallbackKey exchange.info = .error error) :
    (engine.step (.advance id)).store = engine.store ∧
      ∀ later, ((engine.step (.advance id)).run later).HasResponse id error.response := by
  obtain ⟨metrics, after⟩ := step_fallBack found arrived dev unhealthy
  have answer : fallback engine.store exchange.info = (engine.store, error.response) := by
    unfold fallback
    rw [refused]
  rw [after, answer]
  exact ⟨rfl, .run ⟨_, _, exchange?_setPhase found _, rfl⟩⟩

structure RefusesDelete (engine after : Engine) (exchange : Exchange) (resource : ResourcePath) :
    Prop where
  forbidden : after.ForbidsDelete exchange.id resource ↔
    ¬ BehindWatch (segments exchange.request.target.path)
  unsupported : BehindWatch (segments exchange.request.target.path) → ∀ later,
    (after.run later).HasResponse exchange.id
      (ProxyError.unsupportedWhenUnhealthy exchange.request.info.render).response
  untouched : after.store = engine.store

theorem step_refusesDelete (found : engine.exchange? id = some exchange)
    (arrived : exchange.phase = .arrived) (dev : engine.handler = .dev)
    (unhealthy : engine.health.isHealthy = false) (read : exchange.info = exchange.request.info)
    {resource : ResourcePath}
    (deletes : exchange.request.info.Deletes exchange.request.target resource)
    (named : exchange.request.info.isResourceRequest = true) :
    engine.RefusesDelete (engine.step (.advance id)) exchange resource := by
  have number := id_of_exchange? found
  subst number
  have refuse {error : ProxyError} (h : fallbackKey exchange.request.info = .error error) :=
    step_refuse found arrived dev unhealthy (read ▸ h)
  by_cases behind : BehindWatch (segments exchange.request.target.path)
  · obtain ⟨untouched, answered⟩ := refuse (fallbackKey_of_watched_delete deletes named behind)
    refine ⟨iff_of_false ?_ (not_not_intro behind), fun _ => answered, untouched⟩
    rintro ⟨status, code, -, -, response, told, forbidden⟩
    have same : (403 : StatusCode) = 400 := code.symm.trans (told.code.symm.trans
      (congrArg Response.status ((forbidden []).unique (answered []))))
    exact absurd same (by decide)
  · obtain ⟨untouched, answered⟩ := refuse (fallbackKey_of_delete deletes named behind)
    exact ⟨iff_of_true ⟨_, rfl, rfl, rfl, _, ProxyError.response_told _, answered⟩ behind,
      fun other => absurd other behind, untouched⟩

/-- In every run, a delete of a resource that is dispatched while the upstream is unhealthy is
refused as forbidden just where the legacy watch segment does not stand before the resource. -/
theorem run_refusesDelete (settings : Settings) (dev : settings.handler = .dev)
    (store : CountedStore) (now : Nat) (events : List Event)
    (unhealthy : ((start settings store now).run events).health.isHealthy = false)
    (found : ((start settings store now).run events).exchange? id = some exchange)
    (arrived : exchange.phase = .arrived) (delete : exchange.request.method = "DELETE")
    (named : exchange.request.info.isResourceRequest = true) :
    ∃ resource,
      ResourcePath.ofSegments? (segments exchange.request.target.path) = some resource ∧
      ((start settings store now).run events).RefusesDelete
        ((start settings store now).run (events ++ [.advance id])) exchange resource := by
  have wellFormed := run_wellFormed (start_wellFormed settings store now) events
  have read : exchange.info = exchange.request.info :=
    ((wellFormed id).exchange exchange found).info
  have handler : ((start settings store now).run events).handler = .dev := by
    rw [run_handler]
    exact dev
  obtain ⟨resource, deletes⟩ : ∃ resource,
      exchange.request.info.Deletes exchange.request.target resource := by
    unfold Request.info at named ⊢
    rw [delete] at named ⊢
    exact RequestInfo.deletes_classify named
  rw [run_concat]
  exact ⟨resource, deletes.read,
    step_refusesDelete found arrived handler unhealthy read deletes named⟩

/-! ### A delete with and without the legacy segment -/

def deleteRequest (path : String) : Request where
  method := "DELETE"
  target := ⟨path, some "watch=true", some (path ++ "?watch=true")⟩
  headers := []
  body := []

theorem exchange?_first (request : Request) :
    ((start (Settings.default default) .inMemory 0).run [.arrive request]).exchange? 0 =
      some ⟨0, request, request.info, none, .arrived⟩ :=
  exchange?_arrival (start_wellFormed (Settings.default default) .inMemory 0) request

theorem run_refusesDelete_pod :
    let begin := start (Settings.default default) .inMemory 0
    let request := deleteRequest "/api/v1/namespaces/default/pods/web-1"
    let exchange : Exchange := ⟨0, request, request.info, none, .arrived⟩
    (begin.run [.arrive request]).health.isHealthy = false ∧
      (begin.run [.arrive request]).exchange? 0 = some exchange ∧
      exchange.phase = .arrived ∧ exchange.request.method = "DELETE" ∧
      exchange.request.info.isResourceRequest = true ∧
      ((begin.run [.arrive request, .advance 0]).exchange? 0).bind answer? =
        some (403, Source.ofBytes (ProxyError.forbidden "web-1" "" "pods").status.encode) ∧
      ∃ resource,
        ResourcePath.ofSegments? (segments exchange.request.target.path) = some resource ∧
        (begin.run [.arrive request]).RefusesDelete
          (begin.run ([.arrive request] ++ [.advance 0])) exchange resource := by
  intro begin request exchange
  have found : (begin.run [.arrive request]).exchange? 0 = some exchange := exchange?_first request
  have named : exchange.request.info.isResourceRequest = true := by decide +kernel
  exact ⟨rfl, found, rfl, rfl, named, by decide +kernel,
    run_refusesDelete (Settings.default default) rfl .inMemory 0 [.arrive request] rfl found rfl rfl
      named⟩

/-- Behind the legacy segment nothing forbids to delete the same pod. -/
theorem watched_delete_is_not_forbidden :
    let begin := start (Settings.default default) .inMemory 0
    let request := deleteRequest "/api/v1/watch/namespaces/default/pods/web-1"
    request.method = "DELETE" ∧ request.info.isResourceRequest = true ∧
      (begin.run [.arrive request]).health.isHealthy = false ∧
      ((begin.run [.arrive request, .advance 0]).exchange? 0).bind answer? =
        some (400, Source.ofBytes
          (ProxyError.unsupportedWhenUnhealthy request.info.render).status.encode) ∧
      ¬ ∃ resource, (begin.run [.arrive request, .advance 0]).ForbidsDelete 0 resource := by
  intro begin request
  have given : ((begin.run [.arrive request, .advance 0]).exchange? 0).bind answer? =
      some (400, Source.ofBytes
        (ProxyError.unsupportedWhenUnhealthy request.info.render).status.encode) := by
    decide +kernel
  refine ⟨rfl, by decide +kernel, rfl, given, ?_⟩
  rintro ⟨resource, status, code, -, -, response, told, forbidden⟩
  obtain ⟨exchange, delivery, found, responded⟩ := forbidden []
  replace found : (begin.run [.arrive request, .advance 0]).exchange? 0 = some exchange := found
  rw [found, Option.bind_some, answer?, responded] at given
  cases delivery with
  | direct source =>
      have same : (403 : StatusCode) = 400 :=
        code.symm.trans (told.code.symm.trans (congrArg Prod.fst (Option.some.inj given)))
      exact absurd same (by decide)
  | copied => cases given
  | dropped => cases given

end Engine

end Outpost.Proxy
