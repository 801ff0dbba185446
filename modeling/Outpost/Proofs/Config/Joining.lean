import Outpost.Proofs.Config.Upstream
import Outpost.Proofs.Url.Rereading
import Outpost.Proofs.Url.Segments
import Outpost.Url.Alphabets

/-!
# Requests joined to their base

A request's URL is one text, read again.  The server it names is the configured one, whatever the
request is.  Its path and its query are those of the request, under the path of the base, only if
the base ends with its path, and if the request does not go up from there.
-/

namespace Outpost

open Url

namespace Config.Upstream

variable {servers : String} {upstream : Upstream}

/-! ## The server -/

/-- Whatever is asked for, it is asked of the configured server, with the configured user. -/
theorem urlFor_keepsServer [Domain.Mapping] (parsed : parse servers = .ok upstream)
    (reread : parseHost upstream.base.authority.host.render.toList =
      .ok upstream.base.authority.host)
    (pathAndQuery : String) :
    ∃ url, upstream.urlFor pathAndQuery = .ok url ∧ url.scheme = upstream.base.scheme ∧
      url.authority = upstream.base.authority := by
  obtain ⟨text, read⟩ := base_of_parse parsed
  obtain ⟨rest, -, authority, -⟩ := parts_of_parse read
  obtain ⟨behind, begins⟩ := requestTail_cons upstream pathAndQuery
  rw [urlFor_eq parsed begins,
    Authority.parse_render (Authority.isRead_of_parse authority) reread]
  exact ⟨_, rfl, rfl, rfl⟩

def guardedServer : Upstream :=
  ⟨⟨.https, ⟨some ⟨"user", some "p%40ss"⟩, .ipv6 [0, 0, 0, 0, 0, 0, 0, 1], some 6443⟩,
    ["k8s", ""], none, none⟩⟩

/-- Slashes, backslashes, dots and at signs of a request do not lead to another server. -/
theorem urlFor_keepsServer_guarded :
    ∃ url, guardedServer.urlFor "//evil.example:1/..\\..\\@other.example:2" = .ok url ∧
      url.scheme = .https ∧ url.authority = guardedServer.base.authority :=
  @urlFor_keepsServer " , HTTPS://user:p@ss@[::1]:6443/k8s/ , other.example" guardedServer _
    (by decide +kernel) (by decide +kernel) _

/-! ## The path and the query -/

open Http

variable {text pathAndQuery : String} {target : Target} {visible : List Char} {url : Url}

def mount (upstream : Upstream) : List String := upstream.base.path.rdropWhile (· = "")

/-- The path and the query are those of the target, the path under that of the base. -/
structure Joins (upstream : Upstream) (target : Target) (url : Url) : Prop where
  path : url.path = upstream.mount ++ pathSegments target.path.toList
  query : url.query = target.query.map fun query => escape escapesInQuery query.toList
  fragment : url.fragment = none

theorem isWritten_base [Domain.Mapping] (parsed : parse servers = .ok upstream) :
    upstream.base.IsWritten := by
  obtain ⟨text, read⟩ := base_of_parse parsed
  obtain ⟨rest, -, -, whole⟩ := parts_of_parse read
  rw [whole]
  exact isWritten_ofParts _ _ _

theorem areWritten_mount [Domain.Mapping] (parsed : parse servers = .ok upstream) :
    AreWritten upstream.mount :=
  (isWritten_base parsed).path.subset (List.rdropWhile_prefix (· = "") _).subset

theorem whole_of_urlFor [Domain.Mapping] (parsed : parse servers = .ok upstream)
    (origin : target.Origin visible) (h : upstream.urlFor (String.ofList visible) = .ok url) :
    url = ofParts upstream.base.scheme url.authority
      ((Text.dropTrailingSlashes upstream.base.tail).toList ++ visible) := by
  obtain ⟨behind, begins⟩ := requestTail_cons upstream (String.ofList visible)
  have starts : rooted (String.ofList visible) = String.ofList visible := by
    obtain ⟨rest, written⟩ := List.head?_eq_some_iff.mp origin.rooted
    exact if_pos (by simp [Text.startsWith, written])
  have joined : upstream.requestTail (String.ofList visible) =
      (Text.dropTrailingSlashes upstream.base.tail).toList ++ visible := by
    rw [requestTail, starts, String.toList_ofList]
  have legible : ∀ char ∈ '/' :: behind, 0x20 < char.toNat := by
    rw [← begins, joined]
    refine List.forall_mem_append.mpr ⟨fun char inside => ?_, origin.legible⟩
    exact (isWritten_base parsed).legible char (Text.dropTrailingSlashes_subset _ inside)
  have read := parts_of_urlFor parsed begins h
  rwa [stripEnd_eq_self (List.forall_mem_cons.mp legible).2, ← begins, joined] at read

section Bases

variable [Domain.Mapping] (parsed : parse servers = .ok upstream)
  (origin : target.Origin visible) (h : upstream.urlFor (String.ofList visible) = .ok url)

include parsed origin h

/-- Where the base ends with its path, the path of the request follows, and takes away what it
goes up. -/
theorem urlFor_path (noQuery : upstream.base.query = none)
    (noFragment : upstream.base.fragment = none) :
    url.path = parent^[climbs [] (pieces target.path.toList)] upstream.mount ++
        pathSegments target.path.toList ∧
      url.query = (target.query.map fun query => escape escapesInQuery query.toList) ∧
      url.fragment = none := by
  have written := isWritten_base parsed
  have mounted := areWritten_mount parsed
  have front : (Text.dropTrailingSlashes upstream.base.tail).toList = slashed upstream.mount := by
    have path : upstream.base.tail = String.ofList (slashed upstream.base.path) := by
      apply String.toList_injective
      rw [written.toList_tail, noQuery, noFragment, String.toList_ofList]
      simp [marked]
    have uncut : ∀ segment ∈ upstream.base.path, '/' ∉ segment.toList :=
      fun segment among slash => absurd (written.path.uncut segment among '/' slash) (by decide)
    rw [path, dropTrailingSlashes_slashed uncut, String.toList_ofList]
    rfl
  have unmarked : ∀ mark, escapesInPath mark = true → mark ∉ slashed upstream.mount :=
    fun _ escaped inside =>
      absurd ((mounted.mem_slashed _ inside).symm.trans escaped) (by decide)
  have whole := whole_of_urlFor parsed origin h
  rw [front] at whole
  obtain ⟨visible', hidden⟩ := Text.cut_append (unmarked '#' (by decide)) visible
  obtain ⟨path, query⟩ := Text.cut_append (unmarked '?' (by decide)) visible
  obtain ⟨all, nothing⟩ := Text.uncut origin.noFragment
  obtain ⟨rest, begins⟩ : ∃ rest, visible.takeWhile (· ≠ '?') = '/' :: rest := by
    obtain ⟨rest, first⟩ := List.head?_eq_some_iff.mp origin.rooted
    rw [first]
    exact ⟨_, List.takeWhile_cons_of_pos (by decide)⟩
  rw [whole, ofParts]
  dsimp only
  rw [visible', all, path, query, hidden, nothing, origin.path, origin.query,
    String.toList_ofList, begins, mounted.pathSegments_under]
  refine ⟨rfl, ?_, rfl⟩
  cases (visible.dropWhile (· ≠ '?')).tail? <;> simp

/-- A query of the base takes in the whole request. -/
theorem urlFor_query {query : String} (given : upstream.base.query = some query)
    (noFragment : upstream.base.fragment = none) :
    url.path = upstream.base.path ∧
      url.query = some (escape escapesInQuery
        ((Text.dropTrailingSlashes query).toList ++ visible)) := by
  have written := isWritten_base parsed
  have front : (Text.dropTrailingSlashes upstream.base.tail).toList =
      slashed upstream.base.path ++ '?' :: (Text.dropTrailingSlashes query).toList := by
    have path : upstream.base.tail =
        String.ofList (slashed upstream.base.path ++ '?' :: query.toList) := by
      apply String.toList_injective
      rw [written.toList_tail, given, noFragment, String.toList_ofList]
      simp [marked]
    rw [path, Text.dropTrailingSlashes_append (by decide), String.ofList_toList]
    simp
  have noMark : '#' ∉ (slashed upstream.base.path ++
      '?' :: (Text.dropTrailingSlashes query).toList) ++ visible := by
    rw [List.mem_append, List.mem_append, List.mem_cons, not_or, not_or, not_or]
    refine ⟨⟨written.mark_not_mem '#' (by decide), by decide, fun inside => ?_⟩, origin.noFragment⟩
    exact absurd (written.query query given '#' (Text.dropTrailingSlashes_subset _ inside))
      (by decide)
  have whole := whole_of_urlFor parsed origin h
  rw [front] at whole
  obtain ⟨all, -⟩ := Text.uncut noMark
  obtain ⟨path, behind⟩ := Text.cut_at (written.mark_not_mem '?' (by decide))
    ((Text.dropTrailingSlashes query).toList ++ visible)
  rw [whole, ofParts]
  dsimp only
  rw [all, List.append_assoc, List.cons_append, path, behind,
    written.path.pathSegments_slashed written.filled]
  exact ⟨rfl, rfl⟩

/-- A fragment of the base takes in the whole request, which then asks for the base. -/
theorem urlFor_fragment {fragment : String} (given : upstream.base.fragment = some fragment) :
    url.path = upstream.base.path ∧ url.query = upstream.base.query ∧
      url.fragment = some (escape escapesInFragment
        ((Text.dropTrailingSlashes fragment).toList ++ visible)) := by
  have written := isWritten_base parsed
  have front : (Text.dropTrailingSlashes upstream.base.tail).toList =
      slashed upstream.base.path ++ marked '?' upstream.base.query ++
        '#' :: (Text.dropTrailingSlashes fragment).toList := by
    have path : upstream.base.tail = String.ofList
        (slashed upstream.base.path ++ marked '?' upstream.base.query ++
          '#' :: fragment.toList) := by
      apply String.toList_injective
      rw [written.toList_tail, given, String.toList_ofList, List.append_assoc]
      rfl
    rw [path, Text.dropTrailingSlashes_append (by decide), String.ofList_toList]
    simp
  have noMark : '#' ∉ slashed upstream.base.path ++ marked '?' upstream.base.query := by
    rw [List.mem_append, not_or]
    refine ⟨written.mark_not_mem '#' (by decide), ?_⟩
    cases asked : upstream.base.query with
    | none => exact List.not_mem_nil
    | some query =>
        rw [marked, List.mem_cons, not_or]
        exact ⟨by decide, fun inside => absurd (written.query query asked '#' inside) (by decide)⟩
  have whole := whole_of_urlFor parsed origin h
  rw [front] at whole
  obtain ⟨before, behind⟩ := Text.cut_at noMark
    ((Text.dropTrailingSlashes fragment).toList ++ visible)
  obtain ⟨path, query⟩ := Text.cut_append (written.mark_not_mem '?' (by decide))
    (marked '?' upstream.base.query)
  rw [whole, ofParts]
  dsimp only
  rw [List.append_assoc, List.cons_append, before, behind, path, query]
  refine ⟨?_, ?_, rfl⟩
  · have ends : (marked '?' upstream.base.query).takeWhile (· ≠ '?') = [] := by
      cases upstream.base.query with
      | none => rfl
      | some => exact List.takeWhile_cons_of_neg (by decide)
    rw [ends, List.append_nil, written.path.pathSegments_slashed written.filled]
  · cases asked : upstream.base.query with
    | none => rfl
    | some query =>
        rw [marked, List.dropWhile_cons_of_neg (by decide), List.tail?_cons, Option.map_some,
          escape_eq_self (written.query query asked), String.ofList_toList]

end Bases

theorem query_ne_absorbed (origin : target.Origin visible) (kept : List Char) :
    some (escape escapesInQuery (kept ++ visible)) ≠
      target.query.map fun query => escape escapesInQuery query.toList := by
  rw [origin.query]
  cases behind : visible.dropWhile (· ≠ '?') with
  | nil => exact Option.some_ne_none _
  | cons mark asked =>
      rw [List.tail?_cons, Option.map_some, Option.map_some, String.toList_ofList]
      intro same
      have texts := congrArg String.toList (Option.some.inj same)
      have cut : kept ++ visible = (kept ++ visible.takeWhile (· ≠ '?') ++ [mark]) ++ asked := by
        simp [← behind]
      rw [toList_escape, toList_escape, cut, List.flatMap_append, List.append_left_eq_self,
        flatMap_coded_eq_nil] at texts
      simp at texts

/-- A request is joined to its base just if the base has no query and no fragment and the request
does not go up, or finds itself at the top when it does. -/
theorem urlFor_joins_iff [Domain.Mapping] (parsed : parse servers = .ok upstream)
    (read : Target.parse? text = some target)
    (given : target.pathAndQuery = some pathAndQuery)
    (starts : Text.startsWith pathAndQuery "/" = true)
    (h : upstream.urlFor pathAndQuery = .ok url) :
    (upstream.Joins target url ↔
      upstream.base.query = none ∧ upstream.base.fragment = none ∧
        (climbs [] (pieces target.path.toList) = 0 ∨ parent upstream.mount = upstream.mount)) ∧
      (upstream.base.query = none → upstream.base.fragment = none →
        url.path = parent^[climbs [] (pieces target.path.toList)] upstream.mount ++
          pathSegments target.path.toList) ∧
      (¬(upstream.base.query = none ∧ upstream.base.fragment = none) →
        url.path = upstream.base.path) := by
  have origin := Target.origin_of_rooted read given starts
  rw [← @String.ofList_toList pathAndQuery] at h
  cases fragment : upstream.base.fragment with
  | some fragment' =>
      obtain ⟨path, -, absorbed⟩ := urlFor_fragment parsed origin h fragment
      refine ⟨⟨fun joins => ?_, fun clean => ?_⟩, fun _ clean => ?_, fun _ => path⟩
      · exact absurd (joins.fragment.symm.trans absorbed) (by simp)
      · cases clean.2.1
      · cases clean
  | none =>
      cases query : upstream.base.query with
      | some query' =>
          obtain ⟨path, absorbed⟩ := urlFor_query parsed origin h query fragment
          refine ⟨⟨fun joins => ?_, fun clean => ?_⟩, fun clean => ?_, fun _ => path⟩
          · exact absurd (absorbed.symm.trans joins.query) (query_ne_absorbed origin _)
          · cases clean.1
          · cases clean
      | none =>
          obtain ⟨path, asked, whole⟩ := urlFor_path parsed origin h query fragment
          refine ⟨⟨fun joins => ⟨rfl, rfl, ?_⟩, fun clean => ⟨?_, asked, whole⟩⟩, fun _ _ => path,
            fun more => absurd ⟨rfl, rfl⟩ more⟩
          · rw [← iterate_parent_eq_self_iff]
            exact List.append_cancel_right (path.symm.trans joins.path)
          · rw [path, iterate_parent_eq_self_iff.mpr clean.2.2]

def nestedServer : Upstream :=
  ⟨⟨.http, ⟨none, .domain "upstream", some 6443⟩, ["k8s", "clusters", "c1", ""], none, none⟩⟩

def climbingTarget : Target :=
  ⟨"/../c2/api/v1/pods", none, some "/../c2/api/v1/pods"⟩

/-- A request that goes up is sent to what lies beside the path of the base. -/
theorem urlFor_joins_iff_climbing :
    nestedServer.urlFor "/../c2/api/v1/pods" =
        .ok { nestedServer.base with path := ["k8s", "clusters", "c2", "api", "v1", "pods"] } ∧
      ¬nestedServer.Joins climbingTarget
        { nestedServer.base with path := ["k8s", "clusters", "c2", "api", "v1", "pods"] } := by
  have sent : nestedServer.urlFor "/../c2/api/v1/pods" =
      .ok { nestedServer.base with path := ["k8s", "clusters", "c2", "api", "v1", "pods"] } := by
    decide +kernel
  refine ⟨sent, fun joins => ?_⟩
  have joined := (@urlFor_joins_iff "http://upstream:6443/k8s/clusters/c1/" nestedServer
    "/../c2/api/v1/pods" _ climbingTarget _ _ (by decide +kernel) (by decide +kernel) rfl
    (by decide) sent).1.mp joins
  exact absurd joined.2.2 (by decide +kernel)

def queriedServer : Upstream :=
  ⟨⟨.http, ⟨none, .domain "upstream", some 6443⟩, [""], some "cluster=edge", none⟩⟩

def podsTarget : Target :=
  ⟨"/api/v1/pods", some "limit=5", some "/api/v1/pods?limit=5"⟩

/-- The whole request becomes part of the query, and the root is asked for. -/
theorem pods_lost_in_query :
    parse "http://upstream:6443/?cluster=edge" = .ok queriedServer ∧
      Target.parse? "/api/v1/pods?limit=5" = some podsTarget ∧
      queriedServer.urlFor "/api/v1/pods?limit=5" =
        .ok { queriedServer.base with query := some "cluster=edge/api/v1/pods?limit=5" } ∧
      ¬queriedServer.Joins podsTarget
        { queriedServer.base with query := some "cluster=edge/api/v1/pods?limit=5" } :=
  ⟨by decide +kernel, by decide +kernel, by decide +kernel,
    fun joins => absurd joins.path (by decide +kernel)⟩

end Config.Upstream

end Outpost
