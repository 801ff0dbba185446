import Outpost.Text

/-!
# Characters and pieces of a text

Which characters are left where a text is trimmed, at blanks or at slashes.  A text cut at the
first mark, or at all its separators: which characters the pieces hold, and how the pieces of a
text grow at its front.
-/

namespace Outpost.Text

theorem mem_trim {text : String} {char : Char} (inside : char ∈ text.toList)
    (solid : isBlank char = false) : char ∈ (trim text).toList := by
  have kept : ∀ {chars : List Char}, char ∈ chars → char ∈ chars.dropWhile isBlank := by
    intro chars member
    rw [← List.takeWhile_append_dropWhile (p := isBlank) (l := chars)] at member
    refine (List.mem_append.mp member).resolve_left fun dropped => ?_
    cases solid.symm.trans (List.all_eq_true.mp List.all_takeWhile char dropped)
  unfold trim
  rw [String.toList_ofList, List.mem_reverse]
  exact kept (List.mem_reverse.mpr (kept inside))

theorem dropTrailingSlashes_subset (text : String) :
    (dropTrailingSlashes text).toList ⊆ text.toList := by
  intro char inside
  rw [dropTrailingSlashes, String.toList_ofList, List.mem_reverse] at inside
  exact List.mem_reverse.mp ((List.dropWhile_suffix _).subset inside)

theorem dropTrailingSlashes_append {last : Char} (solid : last ≠ '/') (front back : List Char) :
    dropTrailingSlashes (String.ofList (front ++ last :: back)) =
      String.ofList (front ++ [last]) ++ dropTrailingSlashes (String.ofList back) := by
  have stays : ((front ++ [last]).reverse).dropWhile (· == '/') = (front ++ [last]).reverse := by
    rw [List.reverse_append, List.reverse_singleton, List.singleton_append,
      List.dropWhile_cons_of_neg (by simpa using solid)]
  have cut : (front ++ last :: back).reverse = back.reverse ++ (front ++ [last]).reverse := by simp
  apply String.toList_injective
  simp only [dropTrailingSlashes, String.toList_append, String.toList_ofList]
  rw [cut, List.dropWhile_append, stays]
  split
  · rename_i blank
    rw [List.isEmpty_iff.mp blank]
    simp
  · rw [List.reverse_append, List.reverse_reverse]

/-! ## Marks -/

section Marks

variable {mark : Char} {front chars : List Char}

theorem cut_append (plain : mark ∉ front) (back : List Char) :
    (front ++ back).takeWhile (· ≠ mark) = front ++ back.takeWhile (· ≠ mark) ∧
      (front ++ back).dropWhile (· ≠ mark) = back.dropWhile (· ≠ mark) := by
  have before : ∀ char ∈ front, decide (char ≠ mark) = true := by
    intro char inside
    rw [decide_eq_true_eq]
    rintro rfl
    exact plain inside
  exact ⟨List.takeWhile_append_of_pos before, List.dropWhile_append_of_pos before⟩

theorem cut_at (plain : mark ∉ front) (back : List Char) :
    (front ++ mark :: back).takeWhile (· ≠ mark) = front ∧
      (front ++ mark :: back).dropWhile (· ≠ mark) = mark :: back := by
  obtain ⟨before, behind⟩ := cut_append plain (mark :: back)
  rw [before, behind, List.takeWhile_cons_of_neg (by simp), List.dropWhile_cons_of_neg (by simp),
    List.append_nil]
  exact ⟨rfl, rfl⟩

theorem uncut (plain : mark ∉ chars) :
    chars.takeWhile (· ≠ mark) = chars ∧ chars.dropWhile (· ≠ mark) = [] := by
  have whole := cut_append plain []
  rwa [List.append_nil, List.takeWhile_nil, List.append_nil, List.dropWhile_nil] at whole

end Marks

/-! ## Pieces -/

variable {cut : Char → Bool} {separator char : Char} {chars piece front : List Char}

theorem uncut_of_mem_splitOnP
    (h : piece ∈ chars.splitOnP cut) : ∀ char ∈ piece, cut char = false := by
  induction chars generalizing piece with
  | nil =>
      rw [List.splitOnP_nil, List.mem_singleton] at h
      simp [h]
  | cons char rest ih =>
      rw [List.splitOnP_cons_eq_if_modifyHead] at h
      split at h
      · rcases List.mem_cons.mp h with rfl | later
        · exact fun _ inside => nomatch inside
        · exact ih later
      · rename_i other
        cases pieces : rest.splitOnP cut with
        | nil => exact absurd pieces (List.splitOnP_ne_nil _ _)
        | cons first others =>
            rw [pieces] at h ih
            rcases List.mem_cons.mp h with rfl | later
            · exact List.forall_mem_cons.mpr ⟨by simpa using other, ih List.mem_cons_self⟩
            · exact ih (List.mem_cons_of_mem _ later)

theorem not_mem_of_mem_splitOn
    (h : piece ∈ chars.splitOn separator) : separator ∉ piece := fun inside => by
  have uncut := uncut_of_mem_splitOnP h separator inside
  simp at uncut

theorem forall_mem_of_all {test : Char → Bool} {result : Bool}
    (h : chars.all (fun char => test char == result) = true) :
    ∀ char ∈ chars, test char = result := fun char inside =>
  beq_iff_eq.mp (List.all_eq_true.mp h char inside)

theorem mem_intercalate {pieces : List (List Char)}
    (h : char ∈ List.intercalate [separator] pieces) :
    char = separator ∨ ∃ piece ∈ pieces, char ∈ piece := by
  induction pieces with
  | nil => cases h
  | cons piece rest ih =>
      cases rest with
      | nil => exact .inr ⟨piece, List.mem_cons_self, by simpa [List.intercalate] using h⟩
      | cons next later =>
          rw [List.intercalate_cons_cons, List.mem_append, List.mem_append,
            List.mem_singleton] at h
          rcases h with (here | same) | behind
          · exact .inr ⟨piece, List.mem_cons_self, here⟩
          · exact .inl same
          · refine (ih behind).imp_right fun ⟨other, among, inside⟩ => ?_
            exact ⟨other, List.mem_cons_of_mem _ among, inside⟩

theorem mem_intercalate_of_mem {pieces : List (List Char)} (among : piece ∈ pieces)
    (inside : char ∈ piece) : char ∈ List.intercalate [separator] pieces := by
  induction pieces with
  | nil => cases among
  | cons first rest ih =>
      cases rest with
      | nil => simpa [List.mem_singleton.mp among] using inside
      | cons next later =>
          rw [List.intercalate_cons_cons, List.mem_append, List.mem_append]
          rcases List.mem_cons.mp among with rfl | among
          · exact .inl (.inl inside)
          · exact .inr (ih among)

theorem mem_iff_of_splitOn (separator : Char) (other : char ≠ separator) :
    char ∈ chars ↔ ∃ piece ∈ chars.splitOn separator, char ∈ piece := by
  have joined := @List.intercalate_splitOn _ chars _ _ separator
  constructor
  · intro inside
    rw [← joined] at inside
    exact (mem_intercalate inside).resolve_left other
  · rintro ⟨piece, among, inside⟩
    rw [← joined]
    exact mem_intercalate_of_mem among inside

theorem splitOnP_append (uncut : ∀ char ∈ front, cut char = false)
    (back : List Char) :
    (front ++ back).splitOnP cut = (back.splitOnP cut).modifyHead (front ++ ·) := by
  induction front with
  | nil => exact (congrFun List.modifyHead_id _).symm
  | cons char front ih =>
      simp only [List.forall_mem_cons] at uncut
      rw [List.cons_append, List.splitOnP_cons_eq_if_modifyHead, if_neg (by simp [uncut.1]),
        ih uncut.2, List.modifyHead_modifyHead]
      rfl

theorem split_of_not_mem {text : String} (uncut : separator ∉ text.toList) :
    split separator text = [text] := by
  have other : ∀ char ∈ text.toList, (char == separator) = false := by
    intro char inside
    rw [beq_eq_false_iff_ne]
    rintro rfl
    exact uncut inside
  have whole := splitOnP_append other []
  rw [List.append_nil, List.splitOnP_nil] at whole
  unfold split List.splitOn
  rw [whole]
  simp

end Outpost.Text
