import Outpost.Proofs.Api.Request
import Outpost.Proofs.Config.Upstream

/-!
# Written paths

A resource is asked for by a path in which its parts stand in a fixed order, with any number of
slashes around them.  Parts that may be left out shift those behind them, and some words change the
reading of what follows; where these do not stand in the wrong place, every part is read back.
-/

namespace Outpost.Api

open Http

/-! ## Segments -/

/-- A path that goes through the parts in order: one slash or more before each, any number of them
at the end. -/
inductive Spells : List String → List Char → Prop
  | last (count : Nat) : Spells [] (List.replicate count '/')
  | part {parts : List String} {chars : List Char} (extra : Nat) (part : String)
      (rest : Spells parts chars) :
      Spells (part :: parts) (List.replicate (extra + 1) '/' ++ (part.toList ++ chars))

theorem segments_slash (chars : List Char) :
    segments (String.ofList ('/' :: chars)) = segments (String.ofList chars) := by
  unfold segments Text.split
  rw [String.toList_ofList, String.toList_ofList, List.splitOn,
    List.splitOnP_cons_eq_if_modifyHead, if_pos (by decide), List.map_cons, List.filter_cons,
    if_neg (by decide)]
  rfl

theorem segments_slashes (count : Nat) (chars : List Char) :
    segments (String.ofList (List.replicate count '/' ++ chars)) =
      segments (String.ofList chars) := by
  induction count with
  | zero => rfl
  | succ count ih => rw [List.replicate_succ, List.cons_append, segments_slash, ih]

def IsRooted (chars : List Char) : Prop := ∀ first ∈ chars.head?, first = '/'

theorem Spells.isRooted {parts : List String} {chars : List Char} (h : Spells parts chars) :
    IsRooted chars := by
  cases h with
  | last count => cases count <;> simp [IsRooted, List.replicate_succ]
  | part extra part rest => simp [IsRooted, List.replicate_succ]

theorem segments_part {part : List Char} {chars : List Char} (some : part ≠ [])
    (slashless : '/' ∉ part) (rooted : IsRooted chars) :
    segments (String.ofList (part ++ chars)) =
      String.ofList part :: segments (String.ofList chars) := by
  have named : String.ofList part ≠ "" := by
    intro empty
    have := congrArg String.toList empty
    rw [String.toList_ofList] at this
    exact some this
  unfold segments Text.split
  rw [String.toList_ofList, String.toList_ofList]
  cases chars with
  | nil =>
      rw [List.append_nil, List.splitOn_eq_singleton slashless]
      simp [named]
  | cons first rest =>
      cases rooted first rfl
      rw [List.splitOn_append_cons_self_of_not_mem slashless, List.map_cons, List.filter_cons,
        if_pos (by simpa using named)]
      unfold List.splitOn
      rw [List.splitOnP_cons_eq_if_modifyHead, if_pos (by decide)]
      rfl

/-- The parts are read back, however many slashes are around them. -/
theorem Spells.segments_eq {parts : List String} {chars : List Char} (h : Spells parts chars)
    (named : ∀ part ∈ parts, part ≠ "" ∧ '/' ∉ part.toList) :
    segments (String.ofList chars) = parts := by
  induction h with
  | last count =>
      rw [← List.append_nil (List.replicate count '/'), segments_slashes]
      rfl
  | part extra part rest ih =>
      simp only [List.forall_mem_cons] at named
      obtain ⟨⟨some, slashless⟩, others⟩ := named
      have filled : part.toList ≠ [] := fun empty => some (String.toList_eq_nil_iff.mp empty)
      rw [segments_slashes, segments_part filled slashless rest.isRooted, ih others,
        String.ofList_toList]

theorem Spells.slash {parts : List String} {chars : List Char} (h : Spells parts chars) :
    Spells parts ('/' :: chars) := by
  cases h with
  | last count => exact .last (count + 1)
  | part extra part rest => exact .part (extra + 1) part rest

theorem spells_segments {chars : List Char} (rooted : IsRooted chars) :
    Spells (segments (String.ofList chars)) chars := by
  induction hlength : chars.length using Nat.strongRecOn generalizing chars with
  | ind length ih =>
      subst hlength
      cases chars with
      | nil => exact .last 0
      | cons first rest =>
          cases rooted first rfl
          rw [segments_slash]
          by_cases further : IsRooted rest
          · exact (ih _ (Nat.lt_succ_self _) further rfl).slash
          · have split := List.takeWhile_append_dropWhile (p := (· ≠ '/')) (l := rest)
            have slashless : '/' ∉ rest.takeWhile (· ≠ '/') := fun inside => by
              simpa using List.all_eq_true.mp List.all_takeWhile '/' inside
            have after : IsRooted (rest.dropWhile (· ≠ '/')) := by
              intro first head
              obtain ⟨later, whole⟩ := List.head?_eq_some_iff.mp head
              exact Target.head?_dropWhile whole
            have some : rest.takeWhile (· ≠ '/') ≠ [] := by
              intro empty
              rw [empty, List.nil_append] at split
              exact further (split ▸ after)
            have shorter : (rest.dropWhile (· ≠ '/')).length < ('/' :: rest).length :=
              Nat.lt_succ_of_le (List.dropWhile_suffix _).length_le
            have spelled := Spells.part 0 (String.ofList (rest.takeWhile (· ≠ '/')))
              (ih _ shorter after rfl)
            rw [← segments_part some slashless after, split, String.toList_ofList, split] at spelled
            exact spelled

theorem Spells.head?_eq {parts : List String} {chars : List Char} (h : Spells parts chars)
    (some : parts ≠ []) : chars.head? = Option.some '/' := by
  cases h with
  | last count => exact absurd rfl some
  | part extra part rest => simp [List.replicate_succ]

theorem Spells.mem {parts : List String} {chars : List Char} (h : Spells parts chars)
    {char : Char} (inside : char ∈ chars) : char = '/' ∨ ∃ part ∈ parts, char ∈ part.toList := by
  induction h with
  | last count => exact .inl (List.eq_of_mem_replicate inside)
  | part extra part rest ih =>
      rcases List.mem_append.mp inside with slash | inside
      · exact .inl (List.eq_of_mem_replicate slash)
      · rcases List.mem_append.mp inside with here | later
        · exact .inr ⟨part, List.mem_cons_self, here⟩
        · refine (ih later).imp_right fun ⟨other, among, there⟩ => ?_
          exact ⟨other, List.mem_cons_of_mem _ among, there⟩

/-! ## Resources -/

namespace ResourcePath

def object (path : ResourcePath) : List String :=
  if path.name = "" then []
  else path.name :: if path.subresource = "" then [] else [path.subresource]

def scopedParts (path : ResourcePath) : List String :=
  (if path.scope = "" then [] else ["namespaces", path.scope]) ++ path.resource :: path.object

def parts (path : ResourcePath) : List String :=
  (if path.group = "" then ["api", path.version] else ["apis", path.group, path.version]) ++
    ((if path.legacyWatch then ["watch"] else []) ++ path.scopedParts)

/-- A path without a word in a place where it is read as something else. -/
structure Proper (path : ResourcePath) : Prop where
  clean : ∀ part ∈ path.parts, part ≠ "" ∧ ∀ mark ∈ ['/', '?', '#'], mark ∉ part.toList
  unnamed : path.name = "" → path.subresource = ""
  inScope : path.scope ≠ "" → path.resource ≠ "status" ∧ path.resource ≠ "finalize"
  atLarge : path.scope = "" → path.name ≠ "" →
    path.resource ≠ "watch" ∧ path.resource ≠ "namespaces"

variable {path : ResourcePath}

theorem splitWatch_single (part : String) : splitWatch [part] = (false, [part]) := by
  unfold splitWatch
  split
  · rename_i same
    cases (List.cons.inj same).2
  · rfl

theorem splitScope_single (part : String) : splitScope [part] = ("", [part]) := by
  unfold splitScope
  split
  · rename_i same
    cases (List.cons.inj same).2
  · rename_i same
    cases (List.cons.inj same).2
  · rfl

theorem splitScope_scopedParts (proper : path.Proper) :
    splitScope path.scopedParts = (path.scope, path.resource :: path.object) := by
  unfold scopedParts
  by_cases large : path.scope = ""
  · rw [if_pos large, List.nil_append, large]
    by_cases unnamed : path.name = ""
    · rw [object, if_pos unnamed]
      exact splitScope_single _
    · exact splitScope_other (proper.atLarge large unnamed).2
  · obtain ⟨notStatus, notFinalize⟩ := proper.inScope large
    rw [if_neg large]
    simp [splitScope, notStatus, notFinalize]

theorem splitWatch_scopedParts (proper : path.Proper) :
    splitWatch path.scopedParts = (false, path.scopedParts) := by
  unfold scopedParts
  by_cases large : path.scope = ""
  · rw [if_pos large, List.nil_append]
    by_cases unnamed : path.name = ""
    · rw [object, if_pos unnamed]
      exact splitWatch_single _
    · exact splitWatch_other (proper.atLarge large unnamed).1
  · rw [if_neg large]
    exact splitWatch_other (by decide)

theorem scopedParts_ne_nil (path : ResourcePath) : path.scopedParts ≠ [] := by
  simp [scopedParts]

theorem splitWatch_parts (proper : path.Proper) :
    splitWatch ((if path.legacyWatch then ["watch"] else []) ++ path.scopedParts) =
      (path.legacyWatch, path.scopedParts) := by
  cases legacy : path.legacyWatch with
  | false => exact splitWatch_scopedParts proper
  | true =>
      obtain ⟨next, rest, whole⟩ := List.exists_cons_of_ne_nil path.scopedParts_ne_nil
      rw [whole]
      rfl

theorem ofCollection?_parts (proper : path.Proper) :
    ofCollection? path.group path.version
      ((if path.legacyWatch then ["watch"] else []) ++ path.scopedParts) = some path := by
  have some :
      ((if path.legacyWatch then ["watch"] else []) ++ path.scopedParts).isEmpty = false := by
    simp [path.scopedParts_ne_nil]
  unfold ofCollection?
  rw [some, splitWatch_parts proper]
  simp only [splitScope_scopedParts proper, object]
  obtain ⟨group, version, legacyWatch, scope, resource, name, subresource⟩ := path
  by_cases unnamed : name = ""
  · have none := proper.unnamed unnamed
    simp_all
  · by_cases whole : subresource = "" <;> simp [unnamed, whole]

theorem ofSegments?_parts (proper : path.Proper) : ofSegments? path.parts = some path := by
  unfold parts
  by_cases core : path.group = ""
  · have read := ofCollection?_parts proper
    rw [core] at read
    rw [if_pos core]
    exact read
  · rw [if_neg core]
    exact ofCollection?_parts proper

/-- The segments are those of a collection, or of something in it. -/
def Forms (parts : List String) : Prop :=
  (∃ version first rest, parts = "api" :: version :: first :: rest) ∨
    ∃ group version first rest, parts = "apis" :: group :: version :: first :: rest

theorem isSome_ofSegments?_iff (parts : List String) :
    (ofSegments? parts).isSome = true ↔ Forms parts := by
  have filled : ∀ group version collection,
      (ofCollection? group version collection).isSome = true ↔
        ∃ first rest, collection = first :: rest := by
    intro group version collection
    cases collection with
    | nil => exact ⟨nofun, nofun⟩
    | cons first rest => exact ⟨fun _ => ⟨first, rest, rfl⟩, fun _ => rfl⟩
  constructor
  · intro named
    unfold ofSegments? at named
    split at named
    · obtain ⟨first, rest, rfl⟩ := (filled _ _ _).mp named
      exact .inl ⟨_, _, _, rfl⟩
    · obtain ⟨first, rest, rfl⟩ := (filled _ _ _).mp named
      exact .inr ⟨_, _, _, _, rfl⟩
    · cases named
  · rintro (⟨version, first, rest, rfl⟩ | ⟨group, version, first, rest, rfl⟩)
    · exact (filled _ _ _).mpr ⟨first, rest, rfl⟩
    · exact (filled _ _ _).mpr ⟨first, rest, rfl⟩

end ResourcePath

/-! ## Paths of targets -/

theorem isRooted_of_ofPathAndQuery? {chars : List Char} {target : Target}
    (starts : ∀ first ∈ chars.head?, Target.endsAuthority first = true)
    (h : Target.ofPathAndQuery? chars = some target) : IsRooted target.path.toList := by
  dsimp only [Target.ofPathAndQuery?] at h
  cases (Option.ite_none_right_eq_some.mp h).2
  cases chars with
  | nil => simp [IsRooted]
  | cons first rest =>
      have mark := starts first rfl
      simp only [Target.endsAuthority, Bool.or_eq_true, decide_eq_true_eq] at mark
      rcases mark with (rfl | rfl) | rfl <;> simp [IsRooted]

theorem isRooted_of_parse? {text : String} {target : Target}
    (h : Target.parse? text = some target) : target.path = "*" ∨ IsRooted target.path.toList := by
  unfold Target.parse? at h
  have h := (Option.ite_none_left_eq_some.mp h).2
  split at h
  · cases h
  · cases h
    exact .inl rfl
  · exact .inr (isRooted_of_ofPathAndQuery? (by simp [Target.endsAuthority]) h)
  · split at h
    · cases h
    · cases (Option.ite_none_right_eq_some.mp h).2
      exact .inr (by simp [IsRooted])
    · rename_i rest _
      refine .inr (isRooted_of_ofPathAndQuery? (fun first head => ?_)
        (Option.ite_none_left_eq_some.mp h).2)
      have stopped := List.head?_dropWhile_not (fun char => !Target.endsAuthority char) rest
      rw [Option.mem_def.mp head] at stopped
      simpa using stopped

theorem path_of_parse? {path tail : List Char} {target : Target} (rooted : path.head? = some '/')
    (clean : ∀ mark ∈ ['?', '#'], mark ∉ path)
    (ends : ∀ first ∈ tail.head?, first = '?' ∨ first = '#')
    (parsed : Target.parse? (String.ofList (path ++ tail)) = some target) :
    target.path = String.ofList path := by
  obtain ⟨rest, rfl⟩ := List.head?_eq_some_iff.mp rooted
  have before : ∀ mark ∈ ['?', '#'], ∀ char ∈ '/' :: rest, decide (char ≠ mark) = true := by
    intro mark among char inside
    rw [decide_eq_true_iff]
    rintro rfl
    exact clean _ among inside
  have nothing : (tail.takeWhile (· ≠ '#')).takeWhile (· ≠ '?') = [] := by
    cases tail with
    | nil => rfl
    | cons first later => rcases ends first rfl with rfl | rfl <;> simp
  have cut : '/' :: (rest ++ tail).takeWhile (· ≠ '#') =
      ('/' :: rest) ++ tail.takeWhile (· ≠ '#') := by
    rw [List.takeWhile_append_of_pos fun char inside =>
      before '#' (by simp) char (List.mem_cons_of_mem _ inside), List.cons_append]
  have path := (Target.origin_of_parse? parsed).path
  rw [List.append_eq, cut, List.takeWhile_append_of_pos (before '?' (by simp)), nothing,
    List.append_nil] at path
  exact path

namespace RequestInfo

theorem isResourceRequest_classify (method : Method) (target : Target) :
    (classify method target).isResourceRequest =
      (ResourcePath.ofSegments? (segments target.path)).isSome := by
  unfold classify
  cases ResourcePath.ofSegments? (segments target.path) <;> rfl

/-- Just the paths of resources are read as such. -/
theorem isResourceRequest_iff {text : String} {target : Target}
    (parsed : Target.parse? text = some target) (method : Method) :
    (classify method target).isResourceRequest = true ↔
      ∃ parts, ResourcePath.Forms parts ∧ (∀ part ∈ parts, part ≠ "" ∧ '/' ∉ part.toList) ∧
        Spells parts target.path.toList := by
  rw [isResourceRequest_classify, ResourcePath.isSome_ofSegments?_iff]
  constructor
  · intro forms
    rcases isRooted_of_parse? parsed with star | rooted
    · rw [star] at forms
      rcases forms with ⟨_, _, _, same⟩ | ⟨_, _, _, _, same⟩
      · exact absurd (congrArg List.length same) (by
          rw [show (segments "*").length = 1 by decide]
          simp)
      · exact absurd (congrArg List.length same) (by
          rw [show (segments "*").length = 1 by decide]
          simp)
    · have spelled := spells_segments rooted
      rw [String.ofList_toList] at spelled
      exact ⟨_, forms, fun part inside => ⟨ne_empty_of_mem_segments inside,
        slashless_of_mem_segments inside⟩, spelled⟩
  · rintro ⟨parts, forms, named, spelled⟩
    rw [← String.ofList_toList (s := target.path), spelled.segments_eq named]
    exact forms

theorem verbOn_eq (method : Method) (resource : ResourcePath) (watching : Bool) :
    verbOn method resource watching =
      if resource.legacyWatch then .watch
      else if resource.name ≠ "" then Verb.ofMethod method
      else match Verb.ofMethod method with
        | .get => if watching then .watch else .list
        | .delete => .deleteCollection
        | verb => verb := by
  unfold verbOn
  by_cases unnamed : resource.name = ""
  · cases resource.legacyWatch
    · rw [if_pos unnamed]
      simp only [unnamed]
      rfl
    · rw [if_pos unnamed]
      rfl
  · cases resource.legacyWatch <;> simp [unnamed]

/-- The path of a resource is read back, whatever the method and the query are, and a path of
another form names none. -/
theorem classify_readsPath :
    (∀ (resource : ResourcePath) (path : List Char), resource.Proper →
      Spells resource.parts path →
      (∀ (method : Method) (target : Target), target.path = String.ofList path →
        let info := classify method target
        info.isResourceRequest = true ∧ info.apiGroup = resource.group ∧
        info.apiVersion = resource.version ∧ info.scope = resource.scope ∧
        info.resource = resource.resource ∧ info.name = resource.name ∧
        info.subresource = resource.subresource ∧
        info.verb =
          if resource.legacyWatch then .watch
          else if resource.name ≠ "" then Verb.ofMethod method
          else match Verb.ofMethod method with
            | .get =>
                if ("watch", "true") ∈ queryParameters (target.query.getD "") ∨
                    ("watch", "1") ∈ queryParameters (target.query.getD "") then .watch
                else .list
            | .delete => .deleteCollection
            | verb => verb) ∧
      ∀ (tail : List Char) (target : Target), (∀ first ∈ tail.head?, first = '?' ∨ first = '#') →
        Target.parse? (String.ofList (path ++ tail)) = some target →
        target.path = String.ofList path) ∧
    ∀ (text : String) (method : Method) (target : Target), Target.parse? text = some target →
      ((classify method target).isResourceRequest = true ↔
        ∃ parts, ResourcePath.Forms parts ∧ (∀ part ∈ parts, part ≠ "" ∧ '/' ∉ part.toList) ∧
          Spells parts target.path.toList) := by
  refine ⟨fun resource path proper spelled => ⟨fun method target asked => ?_,
    fun tail target ends parsed => ?_⟩, fun text method target parsed =>
      isResourceRequest_iff parsed method⟩
  · have slashless : ∀ part ∈ resource.parts, part ≠ "" ∧ '/' ∉ part.toList :=
      fun part inside => (proper.clean part inside).imp_right fun clean => clean '/' (by simp)
    have named : ResourcePath.ofSegments? (segments target.path) = some resource := by
      rw [asked, spelled.segments_eq slashless, ResourcePath.ofSegments?_parts proper]
    rw [classify_of_resource named]
    refine ⟨rfl, rfl, rfl, rfl, rfl, rfl, rfl, (verbOn_eq _ _ _).trans ?_⟩
    simp only [isWatching_iff]
  · refine path_of_parse? ?_ (fun mark among inside => ?_) ends parsed
    · exact spelled.head?_eq (by simp [ResourcePath.parts, ResourcePath.scopedParts_ne_nil])
    · rcases spelled.mem inside with rfl | ⟨part, along, inside⟩
      · exact absurd among (by decide)
      · exact (proper.clean part along).2 mark (List.mem_cons_of_mem _ among) inside

end RequestInfo

/-! ### A subresource that is watched -/

def watchedStatus : ResourcePath where
  group := "apps"
  version := "v1"
  legacyWatch := true
  scope := "default"
  resource := "deployments"
  name := "web"
  subresource := "status"

def watchedStatusPath : List Char :=
  "//apis/apps/v1///watch/namespaces/default/deployments//web/status/".toList

theorem spells_watchedStatusPath : Spells watchedStatus.parts watchedStatusPath :=
  .part 1 "apis" (.part 0 "apps" (.part 0 "v1" (.part 2 "watch" (.part 0 "namespaces"
    (.part 0 "default" (.part 0 "deployments" (.part 1 "web" (.part 0 "status" (.last 1)))))))))

theorem proper_watchedStatus : watchedStatus.Proper where
  clean := by simp [watchedStatus, ResourcePath.parts, ResourcePath.scopedParts, ResourcePath.object]
  unnamed := by decide
  inScope := by decide
  atLarge := by decide

def watchedStatusTarget : Target :=
  ⟨String.ofList watchedStatusPath, some "pretty",
    some (String.ofList watchedStatusPath ++ "?pretty")⟩

theorem classify_readsPath_watchedStatus :
    watchedStatus.Proper ∧ Spells watchedStatus.parts watchedStatusPath ∧
      Target.parse? (String.ofList (watchedStatusPath ++ "?pretty".toList)) =
        some watchedStatusTarget ∧
      watchedStatusTarget.path = String.ofList watchedStatusPath ∧
      (RequestInfo.classify "GET" watchedStatusTarget).scope = "default" ∧
      (RequestInfo.classify "GET" watchedStatusTarget).subresource = "status" ∧
      (RequestInfo.classify "GET" watchedStatusTarget).verb = .watch ∧
      (RequestInfo.classify "GET" watchedStatusTarget).isResourceRequest = true := by
  have parsed : Target.parse? (String.ofList (watchedStatusPath ++ "?pretty".toList)) =
      some watchedStatusTarget := by decide +kernel
  obtain ⟨reads, none⟩ := RequestInfo.classify_readsPath
  obtain ⟨reads, target⟩ :=
    reads watchedStatus watchedStatusPath proper_watchedStatus spells_watchedStatusPath
  have path := target "?pretty".toList watchedStatusTarget
    (fun first begins => .inl (Option.some.inj begins).symm) parsed
  obtain ⟨-, -, -, scope, -, -, subresource, verb⟩ := reads "GET" watchedStatusTarget path
  refine ⟨proper_watchedStatus, spells_watchedStatusPath, parsed, path, scope, subresource, verb,
    ?_⟩
  rw [none _ "GET" _ parsed]
  refine ⟨watchedStatus.parts, .inr ⟨_, _, _, _, rfl⟩, by decide, ?_⟩
  rw [path, String.toList_ofList]
  exact spells_watchedStatusPath

end Outpost.Api
