import Outpost.Config.Upstream
import Outpost.Http.Target
import Outpost.Proofs.Url.Written

/-!
# URLs on a server

The URL of a request is read from one text, the base and the path written behind each other.  The
reader finds the authority of the base where it was written, whatever the path is.  Over a base
that is a server and nothing more, it finds the path of the request right behind.
-/

namespace Outpost

namespace Http.Target

/-- A target that begins with a slash, taken apart. -/
structure Origin (target : Target) (visible : List Char) : Prop where
  rooted : visible.head? = some '/'
  legible : ∀ char ∈ visible, 0x20 < char.toNat
  noFragment : '#' ∉ visible
  path : target.path = String.ofList (visible.takeWhile (· ≠ '?'))
  query : target.query = (visible.dropWhile (· ≠ '?')).tail?.map String.ofList
  pathAndQuery : target.pathAndQuery = some (String.ofList visible)

theorem legible_of_isPathChar {char : Char} (h : isPathChar char = true) : 0x20 < char.toNat := by
  simp only [isPathChar, Bool.and_eq_true, decide_eq_true_eq] at h
  exact h.1.1

theorem legible_of_isQueryChar {char : Char} (h : isQueryChar char = true) : 0x20 < char.toNat := by
  simp only [isQueryChar, Bool.and_eq_true, decide_eq_true_eq] at h
  exact h.1.1

theorem head?_dropWhile {mark first : Char} {chars rest : List Char}
    (h : chars.dropWhile (· ≠ mark) = first :: rest) : first = mark := by
  have stopped := List.head?_dropWhile_not (· ≠ mark) chars
  rw [h] at stopped
  simpa using stopped

theorem origin_of_ofPathAndQuery? {chars : List Char} {target : Target}
    (h : ofPathAndQuery? ('/' :: chars) = some target) :
    target.Origin ('/' :: chars.takeWhile (· ≠ '#')) := by
  have seen : ('/' :: chars).takeWhile (· ≠ '#') = '/' :: chars.takeWhile (· ≠ '#') :=
    List.takeWhile_cons_of_pos (by decide)
  dsimp only [ofPathAndQuery?] at h
  rw [seen] at h
  obtain ⟨legible, h⟩ := Option.ite_none_right_eq_some.mp h
  rw [Bool.and_eq_true, List.all_eq_true, List.all_eq_true] at legible
  cases h
  refine ⟨rfl, fun char inside => ?_, ?_, ?_, ?_, rfl⟩
  · rw [← List.takeWhile_append_dropWhile (p := (· ≠ '?')) (l := '/' :: _)] at inside
    rcases List.mem_append.mp inside with inside | inside
    · exact legible_of_isPathChar (legible.1 char inside)
    · cases behind : ('/' :: chars.takeWhile (· ≠ '#')).dropWhile (· ≠ '?') with
      | nil =>
          rw [behind] at inside
          cases inside
      | cons mark query =>
          rw [behind] at inside legible
          rcases List.mem_cons.mp inside with rfl | inside
          · rw [head?_dropWhile behind]
            decide
          · exact legible_of_isQueryChar (legible.2 char inside)
  · rw [List.mem_cons, not_or]
    refine ⟨by decide, fun inside => ?_⟩
    have outside := List.all_takeWhile (p := (· ≠ '#')) (l := chars)
    rw [List.all_eq_true] at outside
    simpa using outside '#' inside
  · rw [List.takeWhile_cons_of_pos (by decide)]
    rfl
  · cases ('/' :: chars.takeWhile (· ≠ '#')).dropWhile (· ≠ '?') <;> rfl

theorem origin_of_head? {chars : List Char} {target : Target} {pathAndQuery : String}
    (h : ofPathAndQuery? chars = some target) (given : target.pathAndQuery = some pathAndQuery)
    (begins : pathAndQuery.toList.head? = some '/') : target.Origin pathAndQuery.toList := by
  have blank : chars.takeWhile (· ≠ '#') = [] → target.Origin pathAndQuery.toList := by
    intro nothing
    dsimp only [ofPathAndQuery?] at h
    rw [nothing] at h
    cases h
    cases given
    exact ⟨rfl, List.forall_mem_singleton.mpr (by decide), by decide, rfl, rfl, rfl⟩
  cases chars with
  | nil => exact blank rfl
  | cons first later =>
      by_cases slash : first = '/'
      · rw [slash] at h
        have origin := origin_of_ofPathAndQuery? h
        have same := Option.some.inj (given.symm.trans origin.pathAndQuery)
        rwa [same, String.toList_ofList]
      · by_cases mark : first = '#'
        · exact blank (List.takeWhile_cons_of_neg (by simpa using mark))
        · have visible : (first :: later).takeWhile (· ≠ '#') =
              first :: later.takeWhile (· ≠ '#') :=
            List.takeWhile_cons_of_pos (by simpa using mark)
          dsimp only [ofPathAndQuery?] at h
          rw [visible] at h
          obtain ⟨-, h⟩ := Option.ite_none_right_eq_some.mp h
          cases h
          cases given
          rw [List.isEmpty_cons, if_neg (by decide), String.toList_ofList] at begins
          exact absurd (Option.some.inj begins) slash

theorem origin_of_rooted {text pathAndQuery : String} {target : Target}
    (h : parse? text = some target) (given : target.pathAndQuery = some pathAndQuery)
    (rooted : Text.startsWith pathAndQuery "/" = true) : target.Origin pathAndQuery.toList := by
  have begins : pathAndQuery.toList.head? = some '/' := by
    obtain ⟨behind, written⟩ := List.isPrefixOf_iff_prefix.mp rooted
    rw [← written]
    rfl
  unfold parse? at h
  obtain ⟨-, h⟩ := Option.ite_none_left_eq_some.mp h
  split at h
  · cases h
  · cases h
    cases given
    cases begins
  · exact origin_of_head? h given begins
  · split at h
    · cases h
    · obtain ⟨-, h⟩ := Option.ite_none_right_eq_some.mp h
      cases h
      cases given
    · exact origin_of_head? (Option.ite_none_left_eq_some.mp h).2 given begins

theorem origin_of_parse? {chars : List Char} {target : Target}
    (h : parse? (String.ofList ('/' :: chars)) = some target) :
    target.Origin ('/' :: chars.takeWhile (· ≠ '#')) := by
  unfold parse? at h
  rw [String.toList_ofList] at h
  exact origin_of_ofPathAndQuery? (Option.ite_none_left_eq_some.mp h).2

end Http.Target

namespace Config.Upstream

open Http Url

structure IsBare (upstream : Upstream) : Prop where
  path : upstream.base.path = [""]
  query : upstream.base.query = none
  fragment : upstream.base.fragment = none

variable {servers : String} {upstream : Upstream} {target : Target} {visible : List Char}
  {url : Url}

theorem base_of_parse [Domain.Mapping] (parsed : parse servers = .ok upstream) :
    ∃ text, Url.parse text = .ok upstream.base := by
  unfold parse at parsed
  split at parsed
  · cases parsed
  · split at parsed
    · rename_i server _ base read
      cases parsed
      exact ⟨_, read⟩
    · cases parsed

def rooted (pathAndQuery : String) : String :=
  if Text.startsWith pathAndQuery "/" then pathAndQuery else "/" ++ pathAndQuery

theorem toList_rooted (pathAndQuery : String) :
    ∃ behind, (rooted pathAndQuery).toList = '/' :: behind := by
  unfold rooted
  split
  · rename_i starts
    obtain ⟨behind, written⟩ := List.isPrefixOf_iff_prefix.mp starts
    exact ⟨behind, written.symm⟩
  · exact ⟨pathAndQuery.toList, by simp⟩

def requestTail (upstream : Upstream) (pathAndQuery : String) : List Char :=
  (Text.dropTrailingSlashes upstream.base.tail).toList ++ (rooted pathAndQuery).toList

theorem requestTail_cons (upstream : Upstream) (pathAndQuery : String) :
    ∃ behind, upstream.requestTail pathAndQuery = '/' :: behind := by
  obtain ⟨inner, base⟩ := toList_tail upstream.base
  obtain ⟨path, rooted⟩ := toList_rooted pathAndQuery
  unfold requestTail
  rw [Text.dropTrailingSlashes, String.toList_ofList, base, rooted]
  cases kept : (('/' :: inner).reverse.dropWhile (· == '/')).reverse with
  | nil => exact ⟨path, rfl⟩
  | cons first rest =>
      have front : first :: rest <+: '/' :: inner := by
        rw [← kept, ← List.reverse_suffix, List.reverse_reverse]
        exact List.dropWhile_suffix _
      rw [(List.cons_prefix_cons.mp front).1]
      exact ⟨rest ++ '/' :: path, rfl⟩

theorem joined_eq [Domain.Mapping] (parsed : parse servers = .ok upstream)
    (pathAndQuery : String) :
    upstream.joined pathAndQuery = upstream.base.scheme.name ++ "://" ++
      upstream.base.authority.render ++ String.ofList (upstream.requestTail pathAndQuery) := by
  obtain ⟨text, read⟩ := base_of_parse parsed
  obtain ⟨rest, -, authority, -⟩ := parts_of_parse read
  obtain ⟨filled, clean⟩ := Authority.render_of_parse authority
  obtain ⟨front, last, ends⟩ := (List.eq_nil_or_concat _).resolve_left filled
  have solid : last ≠ '/' := by
    rintro rfl
    exact absurd (clean '/' (by simp [ends])) (by decide)
  have front' : upstream.base.scheme.name ++ "://" ++ upstream.base.authority.render =
      String.ofList ((upstream.base.scheme.name ++ "://").toList ++ front ++ [last]) := by
    apply String.toList_injective
    simp [ends]
  have written : upstream.base.render = String.ofList
      ((upstream.base.scheme.name ++ "://").toList ++ front ++
        last :: upstream.base.tail.toList) := by
    rw [render_eq, front']
    apply String.toList_injective
    simp
  rw [joined, display, written, Text.dropTrailingSlashes_append solid, String.ofList_toList,
    ← front', requestTail, String.ofList_append, String.ofList_toList, String.ofList_toList,
    ← String.append_assoc]
  rfl

/-- The authority is looked for where that of the base was written. -/
theorem urlFor_eq [Domain.Mapping] (parsed : parse servers = .ok upstream)
    {pathAndQuery : String} {behind : List Char} (begins : upstream.requestTail pathAndQuery = '/' :: behind) :
    upstream.urlFor pathAndQuery =
      ((parseAuthority upstream.base.scheme upstream.base.authority.render.toList).map
        fun read => ofParts upstream.base.scheme read ('/' :: stripEnd behind)).mapError
          (.invalidPath pathAndQuery) := by
  obtain ⟨text, read⟩ := base_of_parse parsed
  obtain ⟨rest, -, authority, -⟩ := parts_of_parse read
  obtain ⟨filled, clean⟩ := Authority.render_of_parse authority
  rw [urlFor, joined_eq parsed, begins, parse_written _ filled clean]

theorem parts_of_urlFor [Domain.Mapping] (parsed : parse servers = .ok upstream)
    {pathAndQuery : String} {behind : List Char} (begins : upstream.requestTail pathAndQuery = '/' :: behind)
    (h : upstream.urlFor pathAndQuery = .ok url) :
    url = ofParts upstream.base.scheme url.authority ('/' :: stripEnd behind) := by
  rw [urlFor_eq parsed begins] at h
  cases read : parseAuthority upstream.base.scheme upstream.base.authority.render.toList with
  | error => rw [read] at h; cases h
  | ok authority =>
      rw [read] at h
      cases h
      rfl

theorem urlFor_of_origin [Domain.Mapping] (parsed : parse servers = .ok upstream)
    (bare : upstream.IsBare) (origin : target.Origin visible)
    (h : upstream.urlFor (target.pathAndQuery.getD "/") = .ok url) :
    url.path = pathSegments target.path.toList ∧
      url.query = target.query.map fun query => escape escapesInQuery query.toList := by
  obtain ⟨behind, begins⟩ := List.head?_eq_some_iff.mp origin.rooted
  have tailed : upstream.requestTail (String.ofList visible) = '/' :: behind := by
    have nothing : Text.dropTrailingSlashes upstream.base.tail = "" := by
      rw [tail, renderPath, bare.path, bare.query, bare.fragment]
      rfl
    simp [requestTail, nothing, rooted, Text.startsWith, begins]
  have legible := origin.legible
  rw [begins] at legible
  rw [origin.pathAndQuery, Option.getD_some] at h
  have whole := parts_of_urlFor parsed tailed h
  rw [stripEnd_eq_self fun char inside => legible char (List.mem_cons_of_mem _ inside),
    ← begins] at whole
  rw [whole, ofParts]
  dsimp only
  rw [(Text.uncut origin.noFragment).1, origin.path, origin.query, String.toList_ofList]
  refine ⟨rfl, ?_⟩
  cases (visible.dropWhile (· ≠ '?')).tail? <;> simp

end Config.Upstream

end Outpost
