import Mathlib.Control.Monad.Basic
import Outpost.Proofs.Config.Upstream
import Outpost.Proofs.Url.Paths
import Outpost.Proofs.Url.Queries
import Outpost.Proxy.Forward
import Outpost.Url.Alphabets

/-!
# What is asked for upstream

A request is read from the path as the client wrote it, and sent to the URL that is read from the
same path.  Where the path is plain, the URL asks for the same thing; where backslashes or dot
segments are in it, the request is sent to another path than it was read from.
-/

namespace Outpost

open Api Config Http Url

def Url.target (url : Url) : Target where
  path := url.renderPath
  query := url.query
  pathAndQuery := some (url.renderPath ++ match url.query with
    | none => ""
    | some query => "?" ++ query)

namespace Api

/-! ## Escaped segments -/

def pathWords : List String :=
  ["", "api", "apis", "watch", "namespaces", "status", "finalize"]

theorem recode_word (word : String) (h : word ∈ pathWords) (segment : String) :
    recode segment = word ↔ segment = word := by
  have kept : pathWords.all (fun word => word.toList.all fun char =>
      (char != '%') && escapesInPath char == false) = true := by decide
  have plain := List.all_eq_true.mp (List.all_eq_true.mp kept word h)
  simp only [Bool.and_eq_true, bne_iff_ne, beq_iff_eq] at plain
  exact recode_eq_iff (fun inside => (plain _ inside).1 rfl)
    fun char inside => (plain char inside).2

theorem recode_self (word : String) (h : word ∈ pathWords) : recode word = word :=
  (recode_word word h word).mpr rfl

theorem getD_map_recode (parts : List String) (index : Nat) :
    (parts.map recode).getD index "" = recode (parts.getD index "") := by
  have empty : recode "" = "" := recode_self _ (by decide)
  simp only [List.getD_eq_getElem?_getD, List.getElem?_map]
  cases parts[index]? <;> simp [empty]

namespace ResourcePath

def recoded (path : ResourcePath) : ResourcePath where
  group := recode path.group
  version := recode path.version
  legacyWatch := path.legacyWatch
  scope := recode path.scope
  resource := recode path.resource
  name := recode path.name
  subresource := recode path.subresource

variable {first : String} {rest : List String}

theorem splitWatch_recode (parts : List String) :
    splitWatch (parts.map recode) = ((splitWatch parts).1, (splitWatch parts).2.map recode) := by
  match parts with
  | [] => rfl
  | first :: rest =>
      by_cases word : first = "watch"
      · rw [word, List.map_cons, recode_self _ (by decide)]
        cases rest with
        | nil => simp [splitWatch, recode_self "watch" (by decide)]
        | cons next later => rfl
      · rw [splitWatch_other word, List.map_cons,
          splitWatch_other (mt (recode_word _ (by decide) first).mp word)]

theorem splitScope_recode (parts : List String) :
    splitScope (parts.map recode) =
      (recode (splitScope parts).1, (splitScope parts).2.map recode) := by
  have empty : recode "" = "" := recode_self _ (by decide)
  have namespaces : recode "namespaces" = "namespaces" := recode_self _ (by decide)
  match parts with
  | [] => simp [splitScope, empty]
  | first :: rest =>
      by_cases word : first = "namespaces"
      · rw [word, List.map_cons, namespaces]
        match rest with
        | [] => simp [splitScope, empty, namespaces]
        | [scope] => simp [splitScope, namespaces]
        | scope :: kind :: later =>
            simp only [List.map_cons, splitScope, recode_word "status" (by decide),
              recode_word "finalize" (by decide)]
            split <;> simp [namespaces]
      · rw [splitScope_other word, List.map_cons,
          splitScope_other (mt (recode_word _ (by decide) first).mp word)]
        simp [empty]

theorem ofCollection?_recode (group version : String) (collection : List String) :
    ofCollection? (recode group) (recode version) (collection.map recode) =
      (ofCollection? group version collection).map recoded := by
  simp only [ofCollection?, List.isEmpty_map, splitWatch_recode, splitScope_recode,
    getD_map_recode]
  split <;> rfl

theorem ofSegments?_other (notCore : first ≠ "api") (notNamed : first ≠ "apis") :
    ofSegments? (first :: rest) = none := by
  unfold ofSegments?
  split
  · exact absurd (List.cons.inj ‹_›).1 notCore
  · exact absurd (List.cons.inj ‹_›).1 notNamed
  · rfl

/-- Escaped segments name what the segments name, escaped. -/
theorem ofSegments?_recode (parts : List String) :
    ofSegments? (parts.map recode) = (ofSegments? parts).map recoded := by
  match parts with
  | [] => rfl
  | first :: rest =>
      by_cases core : first = "api"
      · rw [core, List.map_cons, recode_self _ (by decide)]
        cases rest with
        | nil => rfl
        | cons version collection =>
            have read := ofCollection?_recode "" version collection
            rwa [recode_self _ (by decide)] at read
      · by_cases named : first = "apis"
        · rw [named, List.map_cons, recode_self _ (by decide)]
          match rest with
          | [] => rfl
          | [_] => rfl
          | group :: version :: collection => exact ofCollection?_recode group version collection
        · rw [ofSegments?_other core named, List.map_cons,
            ofSegments?_other (mt (recode_word _ (by decide) first).mp core)
              (mt (recode_word _ (by decide) first).mp named)]
          rfl

end ResourcePath

/-! ## Reading alike -/

/-- The second reading is the first one, with its segments escaped. -/
structure ReadsAlike (first second : RequestInfo) : Prop where
  verb : second.verb = first.verb
  isResourceRequest : second.isResourceRequest = first.isResourceRequest
  apiGroup : second.apiGroup = recode first.apiGroup
  apiVersion : second.apiVersion = recode first.apiVersion
  scope : second.scope = recode first.scope
  resource : second.resource = recode first.resource
  name : second.name = recode first.name
  subresource : second.subresource = recode first.subresource

variable {method : Method} {target other : Target}

theorem classify_readsAlike (path : segments other.path = (segments target.path).map recode)
    (watching : isWatching (queryParameters (other.query.getD "")) =
      isWatching (queryParameters (target.query.getD ""))) :
    ReadsAlike (RequestInfo.classify method target) (RequestInfo.classify method other) := by
  have empty : recode "" = "" := recode_self _ (by decide)
  simp only [RequestInfo.classify, path, ResourcePath.ofSegments?_recode]
  cases ResourcePath.ofSegments? (segments target.path) with
  | none => exact ⟨rfl, rfl, empty.symm, empty.symm, empty.symm, empty.symm, empty.symm, empty.symm⟩
  | some resource =>
      refine ⟨?_, rfl, rfl, rfl, rfl, rfl, rfl, rfl⟩
      simp only [Option.map_some, RequestInfo.verbOn, ResourcePath.recoded, watching,
        recode_word "" (by decide)]

end Api

/-! ## Requests on their way -/

namespace Proxy

variable {servers : String} {upstream : Upstream} {chars : List Char} {request : Request}
  {out : Outgoing}

theorem outgoing_eq [Url.Domain.Mapping] (sent : outgoing upstream request = .ok out) :
    out.method = request.method ∧
      upstream.urlFor (request.target.pathAndQuery.getD "/") = .ok out.url := by
  unfold outgoing at sent
  cases found : upstream.urlFor (request.target.pathAndQuery.getD "/") with
  | error => rw [found] at sent; cases sent
  | ok url =>
      rw [found] at sent
      cases sent
      exact ⟨rfl, rfl⟩

/-- A request is sent where its path leads once backslashes cut and dots are taken out.  These are
the segments it was read from just if the path is plain, and then the URL asks for the same
thing. -/
theorem outgoing_readsAlike [Url.Domain.Mapping] (parsed : Upstream.parse servers = .ok upstream)
    (bare : upstream.IsBare)
    (origin : Target.parse? (String.ofList ('/' :: chars)) = some request.target)
    (sent : outgoing upstream request = .ok out) :
    segments out.url.renderPath =
        (pathSegments request.target.path.toList).filter (· ≠ "") ∧
      (segments out.url.renderPath = (segments request.target.path).map recode ↔
        IsPlain request.target.path) ∧
      (IsPlain request.target.path →
        ReadsAlike (RequestInfo.classify request.method request.target)
          (RequestInfo.classify out.method out.url.target)) := by
  have parts := Target.origin_of_parse? origin
  obtain ⟨method, found⟩ := outgoing_eq sent
  obtain ⟨path, query⟩ := Upstream.urlFor_of_origin parsed bare parts found
  have clean : ∀ segment ∈ out.url.path, '/' ∉ segment.toList := by
    intro segment among slash
    rw [path] at among
    exact absurd ((pathSegments_clean among).2 '/' slash) (by decide)
  have leads : segments out.url.renderPath =
      (pathSegments request.target.path.toList).filter (· ≠ "") := by
    rw [segments_renderPath clean, path]
  have same : segments out.url.renderPath = (segments request.target.path).map recode ↔
      IsPlain request.target.path := by
    have rooted : request.target.path =
        String.ofList ('/' :: (chars.takeWhile (· ≠ '#')).takeWhile (· ≠ '?')) := by
      rw [parts.path, List.takeWhile_cons_of_pos (by decide)]
    rw [leads, rooted, String.toList_ofList]
    exact pathSegments_eq_iff _
  refine ⟨leads, same, fun plain => ?_⟩
  rw [method]
  refine classify_readsAlike (same.mpr plain) ?_
  rw [show out.url.target.query = out.url.query from rfl, query]
  cases request.target.query with
  | none => rfl
  | some text =>
      rw [Option.map_some, Option.getD_some, Option.getD_some, isWatching_escape,
        String.ofList_toList]

/-! ### Two requests -/

def clusterServer : Upstream := ⟨⟨.http, ⟨none, .domain "upstream", some 6443⟩, [""], none, none⟩⟩

def plainRequest (path : String) : Request := ⟨"GET", ⟨path, none, some path⟩, [], []⟩

def sentTo (segments : List String) : Outgoing :=
  ⟨"GET", { clusterServer.base with path := segments }, [], none⟩

def accentedRequest : Request := plainRequest "/api/v1/namespaces/kube-system/pods/caf\u00E9"

/-- The name of a pod is escaped on its way. -/
theorem outgoing_readsAlike_accented :
    ReadsAlike (RequestInfo.classify "GET" accentedRequest.target)
      (RequestInfo.classify "GET"
        (sentTo ["api", "v1", "namespaces", "kube-system", "pods", "caf%C3%A9"]).url.target) := by
  have plain : IsPlain accentedRequest.target.path := ⟨by decide +kernel, by decide +kernel⟩
  have sent : outgoing clusterServer accentedRequest =
      .ok (sentTo ["api", "v1", "namespaces", "kube-system", "pods", "caf%C3%A9"]) := by rfl
  exact (@outgoing_readsAlike "http://upstream:6443" clusterServer
    "api/v1/namespaces/kube-system/pods/caf\u00E9".toList accentedRequest _ _
    (by decide +kernel)
    ⟨rfl, rfl, rfl⟩ (by decide +kernel) sent).2.2 plain

def slantedRequest : Request := plainRequest "/api/v1\\namespaces\\kube-system/pods"

theorem slanted_read_otherwise :
    Upstream.parse "http://upstream:6443" = .ok clusterServer ∧ clusterServer.IsBare ∧
      Target.parse? "/api/v1\\namespaces\\kube-system/pods" = some slantedRequest.target ∧
      outgoing clusterServer slantedRequest =
        .ok (sentTo ["api", "v1", "namespaces", "kube-system", "pods"]) ∧
      (RequestInfo.classify "GET" slantedRequest.target).supportedList? = some .pods ∧
      (RequestInfo.classify "GET" slantedRequest.target).scope = "" ∧
      (RequestInfo.classify "GET"
        (sentTo ["api", "v1", "namespaces", "kube-system", "pods"]).url.target).scope =
          "kube-system" :=
  ⟨by decide +kernel, ⟨rfl, rfl, rfl⟩, by decide +kernel, by rfl, by decide +kernel,
    by decide +kernel, by decide +kernel⟩

end Proxy

end Outpost
