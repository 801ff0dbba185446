import Mathlib.Data.List.DropRight
import Outpost.Proofs.Text
import Outpost.Proofs.Url.Paths
import Outpost.Proofs.Url.Written

/-!
# Written paths

The path of a URL that was read is written in segments that are cut, resolved and escaped already.
Read again it stays what it is, and in front of a further path it stays as well, up to what that
path goes up.
-/

namespace Outpost.Url

/-! ## Segments -/

def slashed (segments : List String) : List Char :=
  segments.flatMap fun segment => '/' :: segment.toList

variable {segments : List String}

theorem toList_renderPath {url : Url} (filled : url.path ≠ []) :
    url.renderPath.toList = slashed url.path := by
  have joined : ∀ (rest : List String) (first : String),
      '/' :: List.intercalate ['/'] ((first :: rest).map String.toList) =
        slashed (first :: rest) := by
    intro rest
    induction rest with
    | nil => intro first; simp [slashed]
    | cons next rest ih =>
        intro first
        have later := ih next
        rw [List.map_cons] at later
        rw [List.map_cons, List.map_cons, List.intercalate_cons_cons, slashed, List.flatMap_cons,
          ← slashed, ← later]
        simp
  obtain ⟨first, rest, path⟩ := List.exists_cons_of_ne_nil filled
  rw [renderPath, path, ← joined rest first, String.toList_append, String.toList_intercalate]
  rfl

theorem dropTrailingSlashes_slashed (uncut : ∀ segment ∈ segments, '/' ∉ segment.toList) :
    Text.dropTrailingSlashes (String.ofList (slashed segments)) =
      String.ofList (slashed (segments.rdropWhile (· = ""))) := by
  induction segments using List.reverseRecOn with
  | nil => rfl
  | append_singleton segments last ih =>
      rw [List.forall_mem_append] at uncut
      have written : slashed (segments ++ [last]) = slashed segments ++ '/' :: last.toList := by
        simp [slashed]
      rw [List.rdropWhile_concat, written]
      by_cases empty : last = ""
      · rw [if_pos (by simpa using empty), ← ih uncut.1, empty]
        simp [Text.dropTrailingSlashes]
      · rw [if_neg (by simpa using empty), written]
        have filled : last.toList ≠ [] := fun nil => empty (String.toList_eq_nil_iff.mp nil)
        obtain ⟨front, char, ends⟩ := (List.eq_nil_or_concat _).resolve_left filled
        have solid : char ≠ '/' := by
          rintro rfl
          exact uncut.2 last (List.mem_singleton_self _) (by simp [ends])
        have whole : slashed segments ++ '/' :: last.toList =
            (slashed segments ++ '/' :: front) ++ char :: [] := by simp [ends]
        rw [whole, Text.dropTrailingSlashes_append solid]
        exact String.append_empty

theorem slashed_cut (uncut : ∀ segment ∈ segments, ∀ char ∈ segment.toList, isSlash char = false)
    (rest : List Char) :
    ∃ chars, slashed segments ++ '/' :: rest = '/' :: chars ∧
      chars.splitOnP isSlash = segments.map String.toList ++ rest.splitOnP isSlash := by
  induction segments with
  | nil => exact ⟨rest, rfl, rfl⟩
  | cons segment segments ih =>
      rw [List.forall_mem_cons] at uncut
      obtain ⟨chars, written, cut⟩ := ih uncut.2
      refine ⟨segment.toList ++ '/' :: chars, ?_, ?_⟩
      · rw [slashed, List.flatMap_cons, ← slashed, List.append_assoc, written]
        rfl
      · rw [Text.splitOnP_append uncut.1, List.splitOnP_cons_eq_if_modifyHead,
          if_pos (by decide), cut]
        simp

def pieces (chars : List Char) : List String :=
  (unrooted chars).splitOnP isSlash |>.map (escape escapesInPath)

theorem pieces_ne_nil (chars : List Char) : pieces chars ≠ [] := by
  rw [pieces, Ne, List.map_eq_nil_iff]
  exact List.splitOnP_ne_nil _ _

/-- Segments as they stand in a URL that was read. -/
structure AreWritten (segments : List String) : Prop where
  plain : ∀ segment ∈ segments, isDots segment = false
  uncut : ∀ segment ∈ segments, ∀ char ∈ segment.toList, isSlash char = false
  escaped : ∀ segment ∈ segments, ∀ char ∈ segment.toList, escapesInPath char = false

theorem areWritten_pathSegments (chars : List Char) : AreWritten (pathSegments chars) where
  plain _ among := (pathSegments_clean among).1
  uncut _ among := (pathSegments_clean among).2
  escaped _ among := pathSegments_written among

namespace AreWritten

theorem subset {others : List String} (h : AreWritten segments) (less : others ⊆ segments) :
    AreWritten others where
  plain segment among := h.plain segment (less among)
  uncut segment among := h.uncut segment (less among)
  escaped segment among := h.escaped segment (less among)

theorem mem_slashed (h : AreWritten segments) :
    ∀ char ∈ slashed segments, escapesInPath char = false := by
  intro char inside
  obtain ⟨segment, among, inside⟩ := List.mem_flatMap.mp inside
  rcases List.mem_cons.mp inside with rfl | inside
  · decide
  · exact h.escaped segment among char inside

theorem pieces_slashed (h : AreWritten segments) (rest : List Char) :
    pieces (slashed segments ++ '/' :: rest) = segments ++ pieces ('/' :: rest) := by
  obtain ⟨chars, written, cut⟩ := slashed_cut h.uncut rest
  have unchanged : ∀ segment ∈ segments, (escape escapesInPath ∘ String.toList) segment = segment :=
    fun segment among => by
      rw [Function.comp_apply, escape_eq_self (h.escaped segment among), String.ofList_toList]
  rw [written, pieces, unrooted, if_pos (by decide), cut, List.map_append, List.map_map,
    List.map_congr_left unchanged, List.map_id']
  rfl

theorem pathSegments_under (h : AreWritten segments) (rest : List Char) :
    pathSegments (slashed segments ++ '/' :: rest) =
      parent^[climbs [] (pieces ('/' :: rest))] segments ++ pathSegments ('/' :: rest) := by
  have under := resolve_under (pieces_ne_nil ('/' :: rest)) segments []
  rw [List.append_nil] at under
  calc pathSegments (slashed segments ++ '/' :: rest)
      = resolve [] (segments ++ pieces ('/' :: rest)) := by
        rw [← h.pieces_slashed]
        rfl
    _ = resolve segments (pieces ('/' :: rest)) := by
        rw [resolve_append h.plain (pieces_ne_nil _), List.nil_append]
    _ = _ := under

theorem pathSegments_slashed (h : AreWritten segments) (filled : segments ≠ []) :
    pathSegments (slashed segments) = segments := by
  obtain ⟨front, last, ends⟩ := (List.eq_nil_or_concat _).resolve_left filled
  rw [List.concat_eq_append] at ends
  subst ends
  have written : slashed (front ++ [last]) = slashed front ++ '/' :: last.toList := by
    simp [slashed]
  have alone : pieces ('/' :: last.toList) = [last] := by
    have inside : last ∈ front ++ [last] := by simp
    have whole := Text.splitOnP_append (h.uncut last inside) []
    rw [List.append_nil, List.splitOnP_nil] at whole
    rw [pieces, unrooted, if_pos (by decide), whole]
    simp [escape_eq_self (h.escaped last inside)]
  have before := h.subset (List.subset_append_left front [last])
  calc pathSegments (slashed (front ++ [last]))
      = resolve [] (front ++ pieces ('/' :: last.toList)) := by
        rw [written, ← before.pieces_slashed]
        rfl
    _ = front ++ [last] := by rw [alone, resolve_eq_append h.plain, List.nil_append]

end AreWritten

/-! ## Whole URLs -/

structure IsWritten (url : Url) : Prop where
  filled : url.path ≠ []
  path : AreWritten url.path
  query : ∀ query ∈ url.query, ∀ char ∈ query.toList, escapesInQuery char = false
  fragment : ∀ fragment ∈ url.fragment, ∀ char ∈ fragment.toList, escapesInFragment char = false

theorem isWritten_ofParts (scheme : Scheme) (authority : Authority) (behind : List Char) :
    (ofParts scheme authority behind).IsWritten := by
  have kept : ∀ {escapes : Char → Bool}, (∀ code ∈ codeChars, escapes code = false) →
      ∀ {row : Option (List Char)}, ∀ text ∈ row.map (escape escapes),
        ∀ char ∈ text.toList, escapes char = false := by
    intro escapes uncoded row text given char inside
    obtain ⟨chars, -, rfl⟩ := Option.map_eq_some_iff.mp given
    exact (mem_escape inside).elim And.right (uncoded char)
  refine ⟨resolve_ne_nil (pieces_ne_nil _) [], areWritten_pathSegments _, ?_, ?_⟩
  · exact kept (Text.forall_mem_of_all (by decide))
  · exact kept (Text.forall_mem_of_all (by decide))

def marked (mark : Char) : Option String → List Char
  | none => []
  | some part => mark :: part.toList

namespace IsWritten

variable {url : Url}

theorem toList_tail (h : url.IsWritten) :
    url.tail.toList = slashed url.path ++ (marked '?' url.query ++ marked '#' url.fragment) := by
  rw [tail, String.toList_append, String.toList_append, toList_renderPath h.filled,
    List.append_assoc]
  cases url.query <;> cases url.fragment <;> simp [marked]

theorem mark_not_mem (h : url.IsWritten) (mark : Char) (escaped : escapesInPath mark = true) :
    mark ∉ slashed url.path := fun inside =>
  absurd ((h.path.mem_slashed mark inside).symm.trans escaped) (by decide)

theorem legible (h : url.IsWritten) : ∀ char ∈ url.tail.toList, 0x20 < char.toNat := by
  have kept : ∀ {char : Char}, isControl char = false → char ≠ ' ' → 0x20 < char.toNat := by
    intro char visible other
    simp only [isControl, Bool.or_eq_false_iff, decide_eq_false_iff_not, Nat.not_lt] at visible
    have blank : char.toNat ≠ 0x20 := fun same => other (Char.toNat_inj.mp same)
    omega
  have inFragment : ∀ {char : Char}, escapesInFragment char = false → 0x20 < char.toNat := by
    intro char h
    rw [escapesInFragment, Bool.or_eq_false_iff] at h
    exact kept h.1 (by rintro rfl; simp at h)
  have inQuery : ∀ {char : Char}, escapesInQuery char = false → 0x20 < char.toNat := by
    intro char h
    rw [escapesInQuery, Bool.or_eq_false_iff] at h
    exact kept h.1 (by rintro rfl; simp at h)
  rw [h.toList_tail]
  refine List.forall_mem_append.mpr ⟨fun char inside => ?_, List.forall_mem_append.mpr ⟨?_, ?_⟩⟩
  · have unescaped := h.path.mem_slashed char inside
    rw [escapesInPath, Bool.or_eq_false_iff] at unescaped
    exact inFragment unescaped.1
  · cases given : url.query with
    | none => exact List.forall_mem_nil _
    | some query =>
        exact List.forall_mem_cons.mpr
          ⟨by decide, fun char inside => inQuery (h.query query given char inside)⟩
  · cases given : url.fragment with
    | none => exact List.forall_mem_nil _
    | some fragment =>
        exact List.forall_mem_cons.mpr
          ⟨by decide, fun char inside => inFragment (h.fragment fragment given char inside)⟩

end IsWritten

end Outpost.Url
