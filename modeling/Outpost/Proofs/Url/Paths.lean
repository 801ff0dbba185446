import Mathlib.Logic.Function.Iterate
import Outpost.Proofs.Api.Request
import Outpost.Proofs.Url.Escapes

/-!
# Paths of URLs

A path is cut into segments twice: as it stands, at its slashes, and in a URL, where backslashes
cut as well and dot segments are taken out.  The two agree just on the paths that have neither.
Behind other segments, a row whose double dots outnumber its own segments takes those away.
-/

namespace Outpost.Url

open Api

/-! ## Resolving -/

def isDots (segment : String) : Bool := isSingleDot segment || isDoubleDot segment

theorem isDots_eq_false {segment : String} :
    isDots segment = false ↔ isSingleDot segment = false ∧ isDoubleDot segment = false := by
  simp [isDots]

theorem parent_subset (segments : List String) : parent segments ⊆ segments := by
  unfold parent
  split
  · split
    · exact List.Subset.refl _
    · exact (List.dropLast_sublist _).subset
  · exact List.nil_subset _

theorem mem_resolve {done rest : List String} {segment : String}
    (h : segment ∈ resolve done rest) :
    segment ∈ done ∨ segment = "" ∨ segment ∈ rest ∧ isDots segment = false := by
  induction done, rest using resolve.induct with
  | case1 done => exact .inl h
  | case2 done last double =>
      rw [resolve, if_pos double, List.mem_append, List.mem_singleton] at h
      exact h.imp (fun inside => parent_subset _ inside) .inl
  | case3 done last double single =>
      rw [resolve, if_neg double, if_pos single, List.mem_append, List.mem_singleton] at h
      exact h.imp_right .inl
  | case4 done last double single =>
      rw [resolve, if_neg double, if_neg single, List.mem_append, List.mem_singleton] at h
      refine h.imp_right fun same => .inr ⟨List.mem_singleton.mpr same, ?_⟩
      simpa [isDots, same] using And.intro single double
  | case5 done next rest more double ih =>
      rw [resolve.eq_3 _ _ _ more, if_pos double] at h
      exact (ih h).imp (fun inside => parent_subset _ inside)
        (.imp_right fun later => ⟨List.mem_cons_of_mem _ later.1, later.2⟩)
  | case6 done next rest more double single ih =>
      rw [resolve.eq_3 _ _ _ more, if_neg double, if_pos single] at h
      exact (ih h).imp_right (.imp_right fun later => ⟨List.mem_cons_of_mem _ later.1, later.2⟩)
  | case7 done next rest more double single ih =>
      rw [resolve.eq_3 _ _ _ more, if_neg double, if_neg single] at h
      rcases ih h with inside | empty | later
      · rcases List.mem_append.mp inside with inside | same
        · exact .inl inside
        · rw [List.mem_singleton] at same
          refine .inr (.inr ⟨by simp [same], ?_⟩)
          simpa [isDots, same] using And.intro single double
      · exact .inr (.inl empty)
      · exact .inr (.inr ⟨List.mem_cons_of_mem _ later.1, later.2⟩)

theorem resolve_eq_append {done rest : List String} (plain : ∀ next ∈ rest, isDots next = false) :
    resolve done rest = done ++ rest := by
  induction rest generalizing done with
  | nil => simp [resolve]
  | cons next rest ih =>
      simp only [List.forall_mem_cons, isDots_eq_false] at plain
      obtain ⟨⟨single, double⟩, plain⟩ := plain
      cases rest with
      | nil => simp [resolve, single, double]
      | cons later rest =>
          rw [resolve.eq_3 _ _ _ (List.cons_ne_nil _ _), if_neg (by simp [double]),
            if_neg (by simp [single]), ih (fun next h => isDots_eq_false.mpr (plain next h))]
          simp

theorem resolve_append {front rest : List String} (plain : ∀ next ∈ front, isDots next = false)
    (more : rest ≠ []) (done : List String) :
    resolve done (front ++ rest) = resolve (done ++ front) rest := by
  induction front generalizing done with
  | nil => rw [List.nil_append, List.append_nil]
  | cons next front ih =>
      simp only [List.forall_mem_cons, isDots_eq_false] at plain
      obtain ⟨⟨single, double⟩, plain⟩ := plain
      have later : front ++ rest ≠ [] := by simp [more]
      rw [List.cons_append, resolve.eq_3 _ _ _ later, if_neg (by simp [double]),
        if_neg (by simp [single]), ih (fun next h => isDots_eq_false.mpr (plain next h))]
      simp

theorem resolve_ne_nil {rest : List String} (more : rest ≠ []) (done : List String) :
    resolve done rest ≠ [] := by
  induction done, rest using resolve.induct with
  | case1 => exact absurd rfl more
  | case2 done last double => simp [resolve, double]
  | case3 done last double single => simp [resolve, double, single]
  | case4 done last double single => simp [resolve, double, single]
  | case5 done next rest later double ih =>
      rw [resolve.eq_3 _ _ _ later, if_pos double]
      exact ih later
  | case6 done next rest later double single ih =>
      rw [resolve.eq_3 _ _ _ later, if_neg double, if_pos single]
      exact ih later
  | case7 done next rest later double single ih =>
      rw [resolve.eq_3 _ _ _ later, if_neg double, if_neg single]
      exact ih later

/-! ## Going up -/

/-- How often a row of segments goes up from where it starts, once its own segments are used up. -/
def climbs : List String → List String → Nat
  | _, [] => 0
  | done, next :: rest =>
      if isDoubleDot next then climbs (parent done) rest + (if done = [] then 1 else 0)
      else if isSingleDot next then climbs done rest
      else climbs (done ++ [next]) rest

theorem parent_append (under done : List String) :
    parent (under ++ done) = parent^[if done = [] then 1 else 0] under ++ parent done := by
  cases done with
  | nil => simp [parent]
  | cons first rest =>
      have last : (under ++ first :: rest).getLast? = (first :: rest).getLast? := by
        rw [List.getLast?_append, Option.or_of_isSome (by simp)]
      rw [if_neg (List.cons_ne_nil _ _), Function.iterate_zero_apply, parent, last, parent]
      split
      · split
        · rfl
        · rw [List.dropLast_append_of_ne_nil (List.cons_ne_nil _ _)]
      · rename_i nothing
        exact absurd nothing (by simp)

theorem resolve_under {rest : List String} (more : rest ≠ []) (under done : List String) :
    resolve (under ++ done) rest = parent^[climbs done rest] under ++ resolve done rest := by
  induction done, rest using resolve.induct generalizing under with
  | case1 => exact absurd rfl more
  | case2 done last double =>
      rw [resolve, if_pos double, resolve, if_pos double, parent_append, climbs, if_pos double,
        climbs, Nat.zero_add, List.append_assoc]
  | case3 done last double single =>
      rw [resolve, if_neg double, if_pos single, resolve, if_neg double, if_pos single, climbs,
        if_neg double, if_pos single, climbs, Function.iterate_zero_apply, List.append_assoc]
  | case4 done last double single =>
      rw [resolve, if_neg double, if_neg single, resolve, if_neg double, if_neg single, climbs,
        if_neg double, if_neg single, climbs, Function.iterate_zero_apply, List.append_assoc]
  | case5 done next rest later double ih =>
      rw [resolve.eq_3 _ _ _ later, if_pos double, resolve.eq_3 _ _ _ later, if_pos double,
        parent_append, ih later, climbs, if_pos double, Function.iterate_add_apply]
  | case6 done next rest later double single ih =>
      rw [resolve.eq_3 _ _ _ later, if_neg double, if_pos single, resolve.eq_3 _ _ _ later,
        if_neg double, if_pos single, ih later, climbs, if_neg double, if_pos single]
  | case7 done next rest later double single ih =>
      rw [resolve.eq_3 _ _ _ later, if_neg double, if_neg single, resolve.eq_3 _ _ _ later,
        if_neg double, if_neg single, List.append_assoc, ih later, climbs, if_neg double,
        if_neg single]

theorem length_parent (segments : List String) :
    parent segments = segments ∨ (parent segments).length < segments.length := by
  unfold parent
  cases ends : segments.getLast? with
  | none => exact .inl (List.getLast?_eq_none_iff.mp ends).symm
  | some last =>
      dsimp only
      split
      · exact .inl rfl
      · refine .inr ?_
        have filled : segments ≠ [] := by
          rintro rfl
          cases ends
        rw [List.length_dropLast]
        have := List.length_pos_iff.mpr filled
        omega

theorem length_iterate_parent (times : Nat) (segments : List String) :
    (parent^[times] segments).length ≤ segments.length := by
  induction times generalizing segments with
  | zero => exact Nat.le_refl _
  | succ times ih =>
      rw [Function.iterate_succ_apply]
      rcases length_parent segments with same | shorter
      · rw [same]
        exact ih segments
      · exact Nat.le_trans (ih _) (Nat.le_of_lt shorter)

theorem iterate_parent_eq_self_iff {times : Nat} {segments : List String} :
    parent^[times] segments = segments ↔ times = 0 ∨ parent segments = segments := by
  constructor
  · intro same
    refine or_iff_not_imp_left.mpr fun positive => ?_
    obtain ⟨before, rfl⟩ := Nat.exists_eq_succ_of_ne_zero positive
    refine (length_parent segments).resolve_right fun shorter => ?_
    have limit := length_iterate_parent before (parent segments)
    rw [← Function.iterate_succ_apply, same] at limit
    omega
  · rintro (rfl | top)
    · rfl
    · exact Function.iterate_fixed top times

/-! ## Segments of a URL -/

def recode (segment : String) : String := escape escapesInPath segment.toList

theorem recode_eq_iff {segment word : String} (plain : '%' ∉ word.toList)
    (kept : ∀ char ∈ word.toList, escapesInPath char = false) :
    recode segment = word ↔ segment = word := by
  rw [recode, escape_eq_iff plain kept, String.ofList_toList]

theorem isDots_recode (segment : String) : isDots (recode segment) = isDots segment := by
  rw [isDots, recode, isSingleDot_escape, isDoubleDot_escape, isDots]

def unrooted : List Char → List Char
  | first :: rest => if isSlash first then rest else first :: rest
  | [] => []

theorem pathSegments_eq (chars : List Char) :
    pathSegments chars =
      resolve [] ((unrooted chars).splitOnP isSlash |>.map (escape escapesInPath)) :=
  rfl

theorem pathSegments_clean {chars : List Char} {segment : String}
    (h : segment ∈ pathSegments chars) :
    isDots segment = false ∧ ∀ char ∈ segment.toList, isSlash char = false := by
  rw [pathSegments_eq] at h
  rcases mem_resolve h with inside | rfl | ⟨inside, plain⟩
  · cases inside
  · exact ⟨by decide, by simp⟩
  · refine ⟨plain, fun char at' => ?_⟩
    obtain ⟨piece, cut, rfl⟩ := List.mem_map.mp inside
    rcases mem_escape at' with ⟨here, -⟩ | code
    · exact Text.uncut_of_mem_splitOnP cut char here
    · have uncut : ∀ code ∈ codeChars, isSlash code = false := Text.forall_mem_of_all (by decide)
      exact uncut char code

theorem pathSegments_written {chars : List Char} {segment : String}
    (h : segment ∈ pathSegments chars) : ∀ char ∈ segment.toList, escapesInPath char = false := by
  rw [pathSegments_eq] at h
  rcases mem_resolve h with inside | rfl | ⟨inside, -⟩
  · cases inside
  · exact fun _ inside => nomatch inside
  · obtain ⟨piece, -, rfl⟩ := List.mem_map.mp inside
    intro char among
    have uncoded : ∀ code ∈ codeChars, escapesInPath code = false :=
      Text.forall_mem_of_all (by decide)
    exact (mem_escape among).elim And.right (uncoded char)

theorem segments_cons (chars : List Char) :
    segments (String.ofList ('/' :: chars)) =
      ((chars.splitOn '/').map String.ofList).filter (· ≠ "") := by
  rw [segments, Text.split, String.toList_ofList, List.splitOn,
    List.splitOnP_cons_eq_if_modifyHead, if_pos (by decide)]
  rfl

theorem segments_renderPath {url : Url} (clean : ∀ segment ∈ url.path, '/' ∉ segment.toList) :
    segments url.renderPath = url.path.filter (· ≠ "") := by
  have written : url.renderPath =
      String.ofList ('/' :: List.intercalate ['/'] (url.path.map String.toList)) := by
    apply String.toList_injective
    simp [renderPath, String.toList_intercalate]
  rw [written, segments_cons]
  cases path : url.path with
  | nil => simp [List.intercalate]
  | cons first rest =>
      have uncut : ∀ piece ∈ (first :: rest).map String.toList, '/' ∉ piece := by
        intro piece inside
        obtain ⟨segment, within, rfl⟩ := List.mem_map.mp inside
        exact clean segment (path ▸ within)
      rw [List.splitOn_intercalate '/' uncut (by simp), List.map_map]
      simp [Function.comp_def]

/-! ## Plain paths -/

/-- A path that reads the same in a URL. -/
structure IsPlain (path : String) : Prop where
  noBackslash : '\\' ∉ path.toList
  noDots : ∀ segment ∈ segments path, isDots segment = false

variable {chars : List Char}

theorem splitOnP_isSlash (noBackslash : '\\' ∉ chars) :
    chars.splitOnP isSlash = chars.splitOn '/' := by
  induction chars with
  | nil => rfl
  | cons char rest ih =>
      rw [List.mem_cons, not_or] at noBackslash
      have same : isSlash char = (char == '/') := by
        rw [Bool.eq_iff_iff]
        simp [isSlash, Ne.symm noBackslash.1]
      rw [List.splitOn, List.splitOnP_cons_eq_if_modifyHead, List.splitOnP_cons_eq_if_modifyHead,
        same, ih noBackslash.2]
      rfl

theorem filter_map_recode (pieces : List String) :
    (pieces.map recode).filter (· ≠ "") = (pieces.filter (· ≠ "")).map recode := by
  rw [List.filter_map]
  congr 1
  refine List.filter_congr fun piece _ => ?_
  simp [@recode_eq_iff piece "" (by decide) (by simp)]

/-- The segments in a URL are those of the path, escaped, just if the path is plain. -/
theorem pathSegments_eq_iff (chars : List Char) :
    (pathSegments ('/' :: chars)).filter (· ≠ "") =
        (segments (String.ofList ('/' :: chars))).map recode ↔
      IsPlain (String.ofList ('/' :: chars)) := by
  constructor
  · intro same
    have clean : ∀ segment ∈ segments (String.ofList ('/' :: chars)),
        isDots segment = false ∧ '\\' ∉ segment.toList := by
      intro segment inside
      have written : recode segment ∈ pathSegments ('/' :: chars) := by
        have among := List.mem_map_of_mem (f := recode) inside
        rw [← same] at among
        exact (List.mem_filter.mp among).1
      obtain ⟨plain, uncut⟩ := pathSegments_clean written
      refine ⟨isDots_recode segment ▸ plain, fun backslash => ?_⟩
      exact absurd (uncut '\\' (mem_escape_of_kept backslash (by decide))) (by decide)
    refine ⟨fun backslash => ?_, fun segment inside => (clean segment inside).1⟩
    rw [String.toList_ofList, List.mem_cons] at backslash
    obtain ⟨piece, among, here⟩ := (Text.mem_iff_of_splitOn '/' (by decide)).mp
      (backslash.resolve_left (by decide))
    refine (clean (String.ofList piece) ?_).2 (by simpa using here)
    rw [segments_cons]
    refine List.mem_filter.mpr ⟨List.mem_map_of_mem among, ?_⟩
    simp [List.ne_nil_of_mem here]
  · intro plain
    have noBackslash : '\\' ∉ chars := fun inside => plain.noBackslash (by simp [inside])
    have noDots : ∀ segment ∈ (chars.splitOn '/').map String.ofList, isDots segment = false := by
      intro segment inside
      by_cases empty : segment = ""
      · rw [empty]
        decide
      · refine plain.noDots segment ?_
        rw [segments_cons]
        exact List.mem_filter.mpr ⟨inside, by simpa using empty⟩
    have pieces : (chars.splitOn '/').map (escape escapesInPath) =
        ((chars.splitOn '/').map String.ofList).map recode := by
      simp [recode, Function.comp_def]
    rw [pathSegments_eq, unrooted, if_pos (by decide), splitOnP_isSlash noBackslash, pieces,
      resolve_eq_append, List.nil_append, filter_map_recode, segments_cons]
    intro segment inside
    obtain ⟨piece, among, rfl⟩ := List.mem_map.mp inside
    rw [isDots_recode, noDots piece among]

end Outpost.Url
