import Outpost.Cache.Population
import Outpost.Proofs.Cache.Key

/-!
# Keys that share an entry

The path of an entry tells the keys of requests apart, but for one pair of scopes.  The segment that
stands for the whole cluster is meant to be a name that no namespace has, yet a request may name a
namespace so; its list then has the entry of the list of the whole cluster.
-/

namespace Outpost.Cache

open Api Http Store

namespace Key

variable {key other : Key}

/-- One of the keys is for the whole cluster, the other for a namespace that is called like the
segment for the whole cluster, and nothing else tells them apart. -/
structure Confused (key other : Key) : Prop where
  kind : key.kind = other.kind
  queryClass : key.queryClass = other.queryClass
  scopes : key.scope = "" ∧ other.scope = clusterScope ∨
    key.scope = clusterScope ∧ other.scope = ""

theorem Confused.ne (confused : Confused key other) : key ≠ other := by
  intro same
  subst same
  rcases confused.scopes with ⟨whole, named⟩ | ⟨named, whole⟩
  · exact absurd (whole.symm.trans named) (by decide)
  · exact absurd (whole.symm.trans named) (by decide)

theorem scopeSegment_eq_iff : key.scopeSegment = other.scopeSegment ↔ key.scope = other.scope ∨
    key.scope = "" ∧ other.scope = clusterScope ∨ key.scope = clusterScope ∧ other.scope = "" := by
  unfold scopeSegment
  by_cases whole : key.scope = "" <;> by_cases otherWhole : other.scope = ""
  · simp [whole, otherWhole]
  · simp [whole, otherWhole, eq_comm]
  · simp [whole, otherWhole]
  · simp [whole, otherWhole]

theorem storageKey_eq_iff (slashless : '/' ∉ key.scope.toList)
    (slashlessOther : '/' ∉ other.scope.toList) :
    key.storageKey = other.storageKey ↔ key.kind = other.kind ∧
      key.scopeSegment = other.scopeSegment ∧ key.queryClass = other.queryClass := by
  constructor
  · intro same
    obtain ⟨kind, queryClass⟩ := kind_and_class_of_storageKey slashless slashlessOther same
    have segments := congrArg keySegments same
    rw [keySegments_storageKey slashless, keySegments_storageKey slashlessOther] at segments
    have directories := (List.append_inj' segments rfl).1
    simp only [entryDirectory, List.cons.injEq, and_true, true_and] at directories
    exact ⟨kind, directories.2, queryClass⟩
  · rintro ⟨kind, scope, queryClass⟩
    rw [storageKey_eq, storageKey_eq, kind, scope, queryClass]

/-- The keys of two requests share an entry just if they are the same key or are confused. -/
theorem storageKey_eq_iff_of_requests {method otherMethod : Method} {target otherTarget : Target}
    (ofRequest : ofRequest? (RequestInfo.classify method target) = some key)
    (ofOther : ofRequest? (RequestInfo.classify otherMethod otherTarget) = some other) :
    key.storageKey = other.storageKey ↔ key = other ∨ Confused key other := by
  rw [storageKey_eq_iff (slashless_of_ofRequest? ofRequest) (slashless_of_ofRequest? ofOther),
    scopeSegment_eq_iff]
  constructor
  · rintro ⟨kind, same | scopes, queryClass⟩
    · refine .inl ?_
      cases key
      cases other
      rw [mk.injEq]
      exact ⟨kind, same, queryClass⟩
    · exact .inr ⟨kind, queryClass, scopes⟩
  · rintro (rfl | confused)
    · exact ⟨rfl, .inl rfl, rfl⟩
    · exact ⟨confused.kind, .inr confused.scopes, confused.queryClass⟩

end Key

/-! ## A namespace called like the segment -/

def consistentPods (path : String) : Target :=
  let query := "labelSelector=type%3Dconsistency"
  ⟨path, some query, some (path ++ "?" ++ query)⟩

def podsOfCluster : Target := consistentPods "/api/v1/pods"

def podsOfScope (scope : String) : Target :=
  consistentPods ("/api/v1/namespaces/" ++ scope ++ "/pods")

theorem Key.storageKey_eq_iff_of_requests_pods :
    Key.ofRequest? (RequestInfo.classify "GET" podsOfCluster) =
        some ⟨.pods, "", .consistency⟩ ∧
      Key.ofRequest? (RequestInfo.classify "GET" (podsOfScope "default")) =
        some ⟨.pods, "default", .consistency⟩ ∧
      ((Key.mk .pods "" .consistency).storageKey =
          (Key.mk .pods "default" .consistency).storageKey ↔
        Key.mk .pods "" .consistency = Key.mk .pods "default" .consistency ∨
          Key.Confused ⟨.pods, "", .consistency⟩ ⟨.pods, "default", .consistency⟩) := by
  have cluster : Key.ofRequest? (RequestInfo.classify "GET" podsOfCluster) =
      some ⟨.pods, "", .consistency⟩ := by
    decide +kernel
  have scope : Key.ofRequest? (RequestInfo.classify "GET" (podsOfScope "default")) =
      some ⟨.pods, "default", .consistency⟩ := by
    decide +kernel
  exact ⟨cluster, scope, Key.storageKey_eq_iff_of_requests cluster scope⟩

/-- What is cached for the namespace is what the whole cluster is then said to hold. -/
theorem namespace_list_answers_for_cluster :
    ∃ key other : Key,
      Key.ofRequest? (RequestInfo.classify "GET" (podsOfScope Key.clusterScope)) = some key ∧
      Key.ofRequest? (RequestInfo.classify "GET" podsOfCluster) = some other ∧
      key ≠ other ∧ key.storageKey = other.storageKey ∧
      let payload := Bytes.ofText "\x7b\"kind\":\"PodList\",\"items\":[]\x7d"
      let (_, store, outcome) := cacheList .empty .inMemory key payload
      outcome.toOption = some (.stored 0) ∧
        (queryDurable store other).2.toOption = some payload := by
  have confused : Key.Confused ⟨.pods, Key.clusterScope, .consistency⟩ ⟨.pods, "", .consistency⟩ :=
    ⟨rfl, rfl, .inr ⟨rfl, rfl⟩⟩
  refine ⟨_, _, ?_, ?_, confused.ne, ?_, ?_⟩
  · decide +kernel
  · decide +kernel
  · decide +kernel
  · decide +kernel

end Outpost.Cache
