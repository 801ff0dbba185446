import Outpost.Proofs.Text
import Outpost.Store.Key

/-!
# Keys and their segments
-/

namespace Outpost.Store

theorem keySegments_ne_nil (key : String) : keySegments key ≠ [] := by
  unfold keySegments Text.split
  rw [ne_eq, List.map_eq_nil_iff]
  exact List.splitOn_ne_nil _ _

/-! ## Joined by slashes -/

theorem intercalate_keySegments (key : String) : "/".intercalate (keySegments key) = key := by
  have chars : (keySegments key).map String.toList = key.toList.splitOn '/' := by
    unfold keySegments Text.split
    rw [List.map_map]
    exact List.map_id'' (fun _ => String.toList_ofList) _
  apply String.toList_injective
  rw [String.toList_intercalate, chars]
  exact List.intercalate_splitOn '/'

theorem keySegments_injective {first second : String}
    (same : keySegments first = keySegments second) : first = second := by
  rw [← intercalate_keySegments first, same, intercalate_keySegments]

theorem slashless_of_mem_keySegments {key segment : String} (h : segment ∈ keySegments key) :
    '/' ∉ segment.toList := by
  obtain ⟨piece, inside, rfl⟩ := List.mem_map.mp h
  rw [String.toList_ofList]
  exact Text.not_mem_of_mem_splitOn inside

theorem keySegments_intercalate {segments : List String} (some : segments ≠ [])
    (slashless : ∀ segment ∈ segments, '/' ∉ segment.toList) :
    keySegments ("/".intercalate segments) = segments := by
  unfold keySegments Text.split
  rw [String.toList_intercalate]
  have cut : (List.intercalate ['/'] (segments.map String.toList)).splitOn '/' =
      segments.map String.toList :=
    List.splitOn_intercalate '/' (by simpa using slashless) (by simpa using some)
  exact (congrArg (List.map String.ofList) cut).trans
    ((List.map_map ..).trans (List.map_id'' (fun _ => String.ofList_toList) _))

section Slashless

variable {segment : String} (slashless : '/' ∉ segment.toList)

include slashless

theorem keySegments_of_slashless : keySegments segment = [segment] := by
  unfold keySegments Text.split
  rw [List.splitOn_eq_singleton slashless, List.map_singleton, String.ofList_toList]

theorem keySegments_append (rest : String) :
    keySegments (segment ++ "/" ++ rest) = segment :: keySegments rest := by
  have chars : (segment ++ "/" ++ rest).toList = segment.toList ++ '/' :: rest.toList := by
    rw [String.toList_append, String.toList_append, List.append_assoc]
    rfl
  unfold keySegments Text.split
  rw [chars, List.splitOn_append_cons_self_of_not_mem slashless, List.map_cons,
    String.ofList_toList]

end Slashless

theorem isSegment_iff (segment : String) :
    isSegment segment = true ↔ segment ≠ "" ∧ segment ≠ "." ∧ segment ≠ ".." := by
  simp [isSegment, and_assoc]

theorem validateKey_of_segments {key : String} (some : key ≠ "")
    (segments : ∀ segment ∈ keySegments key, isSegment segment = true) :
    validateKey key = .ok () := by
  unfold validateKey
  rw [if_neg some, if_pos (List.all_eq_true.mpr segments)]

theorem isSegment_of_validateKey {key : String} (valid : validateKey key = .ok ()) :
    ∀ segment ∈ keySegments key, isSegment segment = true := by
  unfold validateKey at valid
  split at valid
  · cases valid
  split at valid
  · exact List.all_eq_true.mp ‹_›
  · cases valid

structure IsName (segment : String) : Prop where
  some : segment ≠ ""
  notHere : segment ≠ "."
  notUp : segment ≠ ".."
  slashless : '/' ∉ segment.toList

theorem isName_of_validateKey {key : String} (valid : validateKey key = .ok ()) :
    ∀ segment ∈ keySegments key, IsName segment := by
  intro segment inside
  obtain ⟨some, notHere, notUp⟩ :=
    (isSegment_iff segment).mp (isSegment_of_validateKey valid segment inside)
  exact ⟨some, notHere, notUp, slashless_of_mem_keySegments inside⟩

/-- A key is accepted if it is one name or several, joined by slashes. -/
theorem validateKey_eq_ok_iff (key : String) : validateKey key = .ok () ↔
    ∃ names, names ≠ [] ∧ (∀ name ∈ names, IsName name) ∧ key = "/".intercalate names := by
  constructor
  · intro valid
    exact ⟨keySegments key, keySegments_ne_nil key, isName_of_validateKey valid,
      (intercalate_keySegments key).symm⟩
  · rintro ⟨names, some, each, rfl⟩
    have segments := keySegments_intercalate some fun name inside => (each name inside).slashless
    refine validateKey_of_segments (fun empty => ?_) fun name inside => ?_
    · rw [empty] at segments
      exact (each "" (segments ▸ List.mem_cons_self)).some rfl
    · rw [segments] at inside
      exact (isSegment_iff name).mpr ⟨(each name inside).some, (each name inside).notHere,
        (each name inside).notUp⟩

end Outpost.Store
