import Mathlib.Data.List.Induction
import Outpost.Json.Value

/-!
# Fields in the order of their names

Whatever row of fields is put in order, each name stands in the result once and has the value that
it had last.  A row in order is determined by the value of each name.
-/

namespace Outpost.Json.Fields

variable {α β : Type} {fields others : List (String × α)} {field : String × α}
  {name other : String} {value : α}

/-- The names are in order, and so no name is repeated. -/
def Sorted (fields : List (String × α)) : Prop :=
  fields.Pairwise fun first second => first.1 < second.1

theorem lt_of_not_lt_of_ne (notLess : ¬ name < other) (different : name ≠ other) :
    other < name := by
  by_cases less : other < name
  · exact less
  · exact absurd (String.le_antisymm (String.not_lt.mp less) (String.not_lt.mp notLess)) different

/-! ## Finding a name -/

@[simp] theorem find?_nil : find? ([] : List (String × α)) name = none := rfl

theorem find?_cons : find? (field :: fields) name =
    if field.1 = name then some field.2 else find? fields name := by
  unfold find?
  rw [List.find?_cons]
  split <;> simp_all

theorem find?_append : find? (fields ++ others) name =
    (find? fields name).or (find? others name) := by
  unfold find?
  rw [List.find?_append]
  cases fields.find? fun field => field.1 == name <;> rfl

theorem find?_filter_name (keep : String → Bool) :
    find? (fields.filter fun field => keep field.1) name =
      if keep name then find? fields name else none := by
  induction fields with
  | nil => simp
  | cons field fields ih =>
      rw [List.filter_cons, find?_cons]
      by_cases same : field.1 = name
      · cases same
        split
        · rw [find?_cons, if_pos rfl, if_pos rfl]
        · rename_i left
          rw [ih, if_neg left]
      · rw [if_neg same]
        split
        · rw [find?_cons, if_neg same, ih]
        · exact ih

theorem find?_map (change : α → β) :
    find? (fields.map fun field => (field.1, change field.2)) name =
      (find? fields name).map change := by
  induction fields with
  | nil => rfl
  | cons field fields ih =>
      rw [List.map_cons, find?_cons, find?_cons, ih]
      split <;> rfl

theorem find?_reverse : find? fields.reverse name =
    ((fields.filter fun field => field.1 == name).getLast?).map (·.2) := by
  unfold find?
  rw [← List.head?_filter, List.filter_reverse, List.head?_reverse]

theorem mem_of_find? (found : find? fields name = some value) : (name, value) ∈ fields := by
  obtain ⟨⟨own, value⟩, here, rfl⟩ := Option.map_eq_some_iff.mp found
  have same := List.find?_some here
  cases beq_iff_eq.mp same
  exact List.mem_of_find?_eq_some here

theorem find?_eq_none (absent : ∀ field ∈ fields, field.1 ≠ name) : find? fields name = none := by
  cases found : find? fields name with
  | none => rfl
  | some value => exact absurd rfl (absent _ (mem_of_find? found))

/-! ## Rows without a repeated name -/

def Distinct (fields : List (String × α)) : Prop := (fields.map (·.1)).Nodup

theorem Distinct.filter_eq (distinct : Distinct fields) :
    fields.filter (fun field => field.1 == name) =
      (find? fields name).toList.map fun value => (name, value) := by
  induction fields with
  | nil => rfl
  | cons field fields ih =>
      obtain ⟨own, value⟩ := field
      obtain ⟨absent, rest⟩ := List.nodup_cons.mp distinct
      rw [List.filter_cons, find?_cons, ih rest]
      by_cases same : own = name
      · cases same
        have later : find? fields name = none := find?_eq_none fun field among same =>
          absent (List.mem_map.mpr ⟨field, among, same⟩)
        simp [later]
      · simp [same]

theorem Distinct.find?_eq_some_iff (distinct : Distinct fields) :
    find? fields name = some value ↔ (name, value) ∈ fields := by
  have own : (name, value) ∈ fields ↔
      (name, value) ∈ fields.filter fun field => field.1 == name := by simp
  rw [own, distinct.filter_eq]
  cases find? fields name <;> simp [eq_comm]

theorem Distinct.filter (distinct : Distinct fields) (keep : String × α → Bool) :
    Distinct (fields.filter keep) := (List.filter_sublist.map _).nodup distinct

theorem Distinct.map (distinct : Distinct fields) (change : α → β) :
    Distinct (fields.map fun field => (field.1, change field.2)) := by
  unfold Distinct
  rw [List.map_map]
  exact distinct

theorem Distinct.find?_filter (distinct : Distinct fields) (keep : String × α → Bool) :
    find? (fields.filter keep) name =
      (find? fields name).filter fun value => keep (name, value) := by
  ext value
  rw [(distinct.filter keep).find?_eq_some_iff, List.mem_filter, Option.filter_eq_some_iff,
    distinct.find?_eq_some_iff]

/-! ## Rows in order -/

theorem Sorted.nil : Sorted ([] : List (String × α)) := List.Pairwise.nil

theorem Sorted.filter (sorted : Sorted fields) (keep : String × α → Bool) :
    Sorted (fields.filter keep) := List.Pairwise.filter keep sorted

theorem Sorted.map (sorted : Sorted fields) (change : α → β) :
    Sorted (fields.map fun field => (field.1, change field.2)) :=
  List.Pairwise.map _ (fun _ _ less => less) sorted

theorem Sorted.nodup (sorted : Sorted fields) : fields.Nodup := by
  refine List.Pairwise.imp ?_ sorted
  rintro first _ less rfl
  exact String.lt_irrefl _ less

theorem Sorted.distinct (sorted : Sorted fields) : Distinct fields := by
  refine List.pairwise_map.mpr (List.Pairwise.imp ?_ sorted)
  intro first second less same
  exact String.lt_irrefl _ (same ▸ less)

theorem Sorted.find?_eq_some_iff (sorted : Sorted fields) :
    find? fields name = some value ↔ (name, value) ∈ fields := sorted.distinct.find?_eq_some_iff

theorem Sorted.find?_filter (sorted : Sorted fields) (keep : String × α → Bool) :
    find? (fields.filter keep) name =
      (find? fields name).filter fun value => keep (name, value) := sorted.distinct.find?_filter keep

theorem Sorted.find?_filter_of_forall (sorted : Sorted fields) {keep : String × α → Bool}
    (stays : ∀ value, keep (name, value) = true) :
    find? (fields.filter keep) name = find? fields name := by
  rw [sorted.find?_filter]
  cases find? fields name with
  | none => rfl
  | some value => rw [Option.filter_some, if_pos (stays value)]

/-- Two rows in order are equal as soon as each name has the same value in both. -/
theorem Sorted.ext (sorted : Sorted fields) (others_sorted : Sorted others)
    (same : ∀ name, find? fields name = find? others name) : fields = others := by
  refine List.Perm.eq_of_pairwise (fun first second _ _ less greater => ?_) sorted others_sorted
    ((List.perm_ext_iff_of_nodup sorted.nodup others_sorted.nodup).mpr fun field => ?_)
  · exact absurd greater (String.lt_asymm less)
  · rw [← sorted.find?_eq_some_iff, ← others_sorted.find?_eq_some_iff, same]

/-! ## Putting a field at its place -/

theorem find?_insert : find? (insert name value fields) other =
    if name = other then some value else find? fields other := by
  induction fields with
  | nil => rw [insert, find?_cons]
  | cons field fields ih =>
      obtain ⟨first, kept⟩ := field
      unfold insert
      split
      · rw [find?_cons]
      split
      · rename_i same
        rw [find?_cons, find?_cons, same]
        split <;> rfl
      · rename_i different
        rw [find?_cons, find?_cons, ih]
        split
        · rename_i here
          rw [if_neg fun same => different (same.trans here.symm)]
        · rfl

theorem mem_insert (among : field ∈ insert name value fields) :
    field = (name, value) ∨ field ∈ fields := by
  induction fields with
  | nil => exact .inl (List.mem_singleton.mp among)
  | cons first fields ih =>
      obtain ⟨first, kept⟩ := first
      unfold insert at among
      split at among
      · exact List.mem_cons.mp among
      split at among
      · exact (List.mem_cons.mp among).imp_right (List.mem_cons_of_mem _)
      · rcases List.mem_cons.mp among with rfl | among
        · exact .inr List.mem_cons_self
        · exact (ih among).imp_right (List.mem_cons_of_mem _)

theorem sorted_insert (sorted : Sorted fields) : Sorted (insert name value fields) := by
  induction fields with
  | nil => exact List.pairwise_singleton _ _
  | cons first fields ih =>
      obtain ⟨first, kept⟩ := first
      obtain ⟨above, rest⟩ := List.pairwise_cons.mp sorted
      unfold insert
      split
      · rename_i less
        exact List.pairwise_cons.mpr
          ⟨List.forall_mem_cons.mpr ⟨less, fun field among => String.lt_trans less (above _ among)⟩,
            sorted⟩
      split
      · rename_i same
        exact List.pairwise_cons.mpr ⟨same ▸ above, rest⟩
      · rename_i notLess different
        refine List.pairwise_cons.mpr ⟨fun field among => ?_, ih rest⟩
        rcases mem_insert among with rfl | among
        · exact lt_of_not_lt_of_ne notLess different
        · exact above _ among

theorem insert_of_forall_lt (below : ∀ field ∈ fields, field.1 < name) :
    insert name value fields = fields ++ [(name, value)] := by
  induction fields with
  | nil => rfl
  | cons first fields ih =>
      obtain ⟨less, rest⟩ := List.forall_mem_cons.mp below
      rw [insert, if_neg (String.lt_asymm less),
        if_neg fun same => String.lt_irrefl _ (same ▸ less), ih rest, List.cons_append]

/-! ## Putting a row in order -/

theorem ofList_concat : ofList (fields ++ [field]) = insert field.1 field.2 (ofList fields) := by
  unfold ofList
  rw [List.foldl_append]
  rfl

theorem sorted_ofList (fields : List (String × α)) : Sorted (ofList fields) := by
  induction fields using List.reverseRecOn with
  | nil => exact .nil
  | append_singleton fields field ih =>
      rw [ofList_concat]
      exact sorted_insert ih

theorem find?_ofList : find? (ofList fields) name = find? fields.reverse name := by
  induction fields using List.reverseRecOn with
  | nil => rfl
  | append_singleton fields field ih =>
      rw [ofList_concat, find?_insert, ih, List.reverse_append]
      exact find?_cons.symm

theorem find?_ofList_of_distinct (distinct : Distinct fields) :
    find? (ofList fields) name = find? fields name := by
  rw [find?_ofList, find?_reverse, distinct.filter_eq]
  cases find? fields name <;> rfl

theorem mem_of_mem_ofList (among : field ∈ ofList fields) : field ∈ fields := by
  have found := (sorted_ofList fields).find?_eq_some_iff.mpr among
  rw [find?_ofList] at found
  exact List.mem_reverse.mp (mem_of_find? found)

theorem ofList_of_sorted (sorted : Sorted fields) : ofList fields = fields := by
  induction fields using List.reverseRecOn with
  | nil => rfl
  | append_singleton fields field ih =>
      obtain ⟨front, _, below⟩ := List.pairwise_append.mp sorted
      rw [ofList_concat, ih front]
      exact insert_of_forall_lt fun other among => below other among field List.mem_cons_self

theorem ofList_map (change : α → β) :
    ofList (fields.map fun field => (field.1, change field.2)) =
      (ofList fields).map fun field => (field.1, change field.2) := by
  refine (sorted_ofList _).ext ((sorted_ofList _).map change) fun name => ?_
  rw [find?_ofList, find?_map, find?_ofList, ← List.map_reverse, find?_map]

theorem ofList_filter (keep : String → Bool) :
    ofList (fields.filter fun field => keep field.1) =
      (ofList fields).filter fun field => keep field.1 := by
  refine (sorted_ofList _).ext ((sorted_ofList _).filter _) fun name => ?_
  rw [find?_ofList, ← List.filter_reverse, find?_filter_name, find?_filter_name, find?_ofList]

end Outpost.Json.Fields
