import Outpost.Api.ObjectList
import Outpost.Proofs.Json.Records

/-!
# Lists of objects are read and written back

Whatever list is read from a payload whose numbers are integers is read again from what is written
for it.  Each of the three records is shown to be read back, its pieces as reading leaves them.
-/

namespace Outpost.Api

open Json

variable {document : Raw}

/-! ## Metadata -/

namespace ObjectMeta

variable {metadata : ObjectMeta} {members : List (String × Raw)}

def declared : List String := ["name", "namespace", "labels"]

def labelsValue (labels : List (String × String)) : Value :=
  .object (labels.map fun label => (label.1, .string label.2))

def known (metadata : ObjectMeta) : List (String × Value) :=
  (if metadata.name = "" then [] else [("name", .string metadata.name)]) ++
    (if metadata.scope = "" then [] else [("namespace", .string metadata.scope)]) ++
    (if metadata.labels.isEmpty then [] else [("labels", labelsValue metadata.labels)])

theorem toValue_eq (metadata : ObjectMeta) :
    metadata.toValue = .object (metadata.known ++ metadata.rest) := rfl

theorem eq_of_mem_known {field : String × Value} (among : field ∈ metadata.known) :
    field = ("name", .string metadata.name) ∨ field = ("namespace", .string metadata.scope) ∨
      (metadata.labels ≠ [] ∧ field = ("labels", labelsValue metadata.labels)) := by
  simp only [known, List.mem_append, List.mem_ite_nil_left, List.mem_singleton,
    List.isEmpty_iff] at among
  rcases among with (⟨_, same⟩ | ⟨_, same⟩) | ⟨present, same⟩
  · exact .inl same
  · exact .inr (.inl same)
  · exact .inr (.inr ⟨present, same⟩)

structure WellFormed (metadata : ObjectMeta) : Prop where
  labels : Fields.Sorted metadata.labels
  kept : Record.Kept declared metadata.rest

theorem wellFormed_empty : WellFormed empty where
  labels := .nil
  kept := ⟨.nil, nofun, nofun, nofun⟩

structure ReadFrom (members : List (String × Raw)) (metadata : ObjectMeta) : Prop where
  name : ∃ found, Record.field? members "name" = some found ∧
    Record.textOr "" found = some metadata.name
  scope : ∃ found, Record.field? members "namespace" = some found ∧
    Record.textOr "" found = some metadata.scope
  labels : ∃ found, Record.field? members "labels" = some found ∧
    labelsOfRaw? found = some metadata.labels
  rest : Record.others? members declared = some metadata.rest

theorem ofRaw?_eq_some :
    ofRaw? document = some metadata ↔
      ∃ members, Record.members? document = some members ∧ ReadFrom members metadata := by
  simp only [ofRaw?, Option.bind_eq_bind, Option.bind_eq_some_iff, Option.pure_def]
  constructor
  · rintro ⟨members, inside, found, hasName, _, isName, scope, hasScope, _, isScope, labels,
      hasLabels, _, isLabels, _, rest, same⟩
    cases same
    exact ⟨members, inside, ⟨found, hasName, isName⟩, ⟨scope, hasScope, isScope⟩,
      ⟨labels, hasLabels, isLabels⟩, rest⟩
  · rintro ⟨members, inside, holds⟩
    obtain ⟨name, hasName, isName⟩ := holds.name
    obtain ⟨scope, hasScope, isScope⟩ := holds.scope
    obtain ⟨labels, hasLabels, isLabels⟩ := holds.labels
    exact ⟨members, inside, name, hasName, _, isName, scope, hasScope, _, isScope, labels,
      hasLabels, _, isLabels, _, holds.rest, rfl⟩

inductive LabelsOf (labels : List (String × String)) : Option Raw → Prop
  | absent (empty : labels = []) : LabelsOf labels none
  | null (empty : labels = []) : LabelsOf labels (some .null)
  | object {value : Raw} (sorted : Fields.Sorted labels)
      (read : Value.ofRaw? value = some (labelsValue labels)) : LabelsOf labels (some value)

theorem labelsOf {found : Option Raw} {labels : List (String × String)}
    (read : labelsOfRaw? found = some labels) : LabelsOf labels found := by
  unfold labelsOfRaw? at read
  split at read
  · cases read
    exact .absent rfl
  · cases read
    exact .null rfl
  · rename_i value _
    simp only [Option.bind_eq_bind, Option.bind_eq_some_iff, Option.pure_def] at read
    obtain ⟨members, inside, row, all, same⟩ := read
    cases same
    refine .object (Fields.sorted_ofList row) ?_
    have values : Record.values? members =
        some (row.map fun label => (label.1, .string label.2)) := by
      refine Rows.mapM_of_mapM all fun member _ label found => ?_
      obtain ⟨text, isText, same⟩ := Option.bind_eq_some_iff.mp found
      cases same
      exact Record.value_eq_some.mpr ⟨rfl, Record.ofRaw?_of_text? isText⟩
    rw [Record.ofRaw?_of_members? inside, values, labelsValue, ← Fields.ofList_map]
    rfl

theorem wellFormed_of_ofRaw? (integral : document.Integral)
    (read : ofRaw? document = some metadata) : metadata.WellFormed := by
  obtain ⟨members, inside, holds⟩ := ofRaw?_eq_some.mp read
  obtain ⟨found, _, isLabels⟩ := holds.labels
  refine ⟨?_, Record.kept_of_others? holds.rest (Record.integral_of_members? inside integral)⟩
  cases labelsOf isLabels with
  | absent empty => exact empty ▸ .nil
  | null empty => exact empty ▸ .nil
  | object sorted _ => exact sorted

namespace WellFormed

variable (wellFormed : metadata.WellFormed)

include wellFormed

theorem layout : Record.Layout declared metadata.known metadata.rest where
  names := by
    have optional : ∀ (empty : Prop) [Decidable empty] (field : String × Value),
        ((if empty then [] else [field]).map (·.1)).Sublist [field.1] := by
      intro empty _ field
      split
      · exact List.nil_sublist _
      · exact .refl _
    rw [known, List.map_append, List.map_append]
    exact ((optional _ ("name", _)).append (optional _ ("namespace", _))).append
      (optional _ ("labels", _))
  nodup := by decide
  kept := wellFormed.kept

omit wellFormed in
theorem integral_labels (labels : List (String × String)) : (labelsValue labels).Integral :=
  .object fun field among => by
    obtain ⟨label, _, rfl⟩ := List.mem_map.mp among
    exact .string label.2

theorem integral : metadata.toValue.Integral :=
  wellFormed.layout.integral fun field among => by
    rcases eq_of_mem_known among with rfl | rfl | ⟨_, rfl⟩
    · exact .string _
    · exact .string _
    · exact integral_labels _

end WellFormed

theorem find?_known_name : Fields.find? metadata.known "name" =
    if metadata.name = "" then none else some (.string metadata.name) := by
  unfold known
  split <;> split <;> split <;> simp [Fields.find?_cons]

theorem find?_known_scope : Fields.find? metadata.known "namespace" =
    if metadata.scope = "" then none else some (.string metadata.scope) := by
  unfold known
  split <;> split <;> split <;> simp [Fields.find?_cons]

theorem find?_known_labels : Fields.find? metadata.known "labels" =
    if metadata.labels.isEmpty then none else some (labelsValue metadata.labels) := by
  unfold known
  split <;> split <;> split <;> simp [Fields.find?_cons]

theorem labelsOfRaw?_toRaw {labels : List (String × String)} (sorted : Fields.Sorted labels) :
    labelsOfRaw? (some (labelsValue labels).toRaw) = some labels := by
  have members := Record.members?_toRaw (labels.map fun label => (label.1, .string label.2))
  have texts : (Record.written (labels.map fun label => (label.1, .string label.2))).mapM
      (fun member => do return (member.1, ← Record.text? member.2)) = some labels := by
    unfold Record.written
    rw [List.map_map, Rows.mapM_map _ fun label => label, List.map_id']
    intro label _
    simp [Record.text?, Value.toRaw]
  refine Option.bind_eq_some_iff.mpr ⟨_, members, Option.bind_eq_some_iff.mpr ⟨_, texts, ?_⟩⟩
  exact congrArg some (Fields.ofList_of_sorted sorted)

theorem ofRaw?_toRaw (wellFormed : metadata.WellFormed) :
    ofRaw? metadata.toValue.toRaw = some metadata := by
  have layout := wellFormed.layout
  have field : ∀ name ∈ declared, Record.field? (Record.written (metadata.known ++ metadata.rest))
      name = some ((Fields.find? metadata.known name).map Value.toRaw) := fun name isDeclared => by
    rw [Record.field?_written layout.distinct, layout.find?_eq, if_pos isDeclared]
  refine ofRaw?_eq_some.mpr ⟨_, Record.members?_toRaw _, ?_⟩
  constructor
  case name =>
    refine ⟨_, field "name" (by decide), ?_⟩
    rw [find?_known_name]
    split
    · rename_i empty
      exact congrArg some empty.symm
    · exact Quoted.text?_escape _
  case scope =>
    refine ⟨_, field "namespace" (by decide), ?_⟩
    rw [find?_known_scope]
    split
    · rename_i empty
      exact congrArg some empty.symm
    · exact Quoted.text?_escape _
  case labels =>
    refine ⟨_, field "labels" (by decide), ?_⟩
    rw [find?_known_labels]
    split
    · rename_i empty
      exact congrArg some (List.isEmpty_iff.mp empty).symm
    · exact labelsOfRaw?_toRaw wellFormed.labels
  case rest => exact layout.others?_written

theorem depth_toRaw_le (read : ofRaw? document = some metadata) :
    metadata.toValue.toRaw.depth ≤ document.depth := by
  obtain ⟨members, inside, holds⟩ := ofRaw?_eq_some.mp read
  have room := Record.depth_pos_of_members? inside
  refine Value.depth_object_le room (List.forall_mem_append.mpr
    ⟨fun field among => ?_, Record.depth_of_others? inside holds.rest⟩)
  rcases eq_of_mem_known among with rfl | rfl | ⟨present, rfl⟩
  · exact room
  · exact room
  · obtain ⟨found, hasLabels, isLabels⟩ := holds.labels
    cases labelsOf isLabels with
    | absent empty => exact absurd empty present
    | null empty => exact absurd empty present
    | object _ labels =>
        exact Nat.lt_of_le_of_lt (Value.depth_toRaw_le labels)
          (Record.depth_of_members? inside _ (Record.mem_of_field? hasLabels))

end ObjectMeta

/-! ## Objects -/

namespace Object

variable {object : Object} {members : List (String × Raw)}

def declared : List String := ["metadata"]

def known (object : Object) : List (String × Value) := [("metadata", object.metadata.toValue)]

theorem toValue_eq (object : Object) :
    object.toValue = .object (object.known ++ object.rest) := rfl

structure WellFormed (object : Object) : Prop where
  metadata : object.metadata.WellFormed
  kept : Record.Kept declared object.rest

inductive MetadataOf (metadata : ObjectMeta) : Option Raw → Prop
  | absent (empty : metadata = .empty) : MetadataOf metadata none
  | present {value : Raw} (read : ObjectMeta.ofRaw? value = some metadata) :
      MetadataOf metadata (some value)

structure ReadFrom (members : List (String × Raw)) (object : Object) : Prop where
  metadata : ∃ found, Record.field? members "metadata" = some found ∧
    MetadataOf object.metadata found
  rest : Record.others? members declared = some object.rest

theorem ofRaw?_eq_some :
    ofRaw? document = some object ↔
      ∃ members, Record.members? document = some members ∧ ReadFrom members object := by
  simp only [ofRaw?, Option.bind_eq_bind, Option.bind_eq_some_iff, Option.pure_def]
  constructor
  · rintro ⟨members, inside, found, hasMetadata, read⟩
    cases found with
    | none =>
        obtain ⟨metadata, isEmpty, read⟩ := Option.bind_eq_some_iff.mp read
        obtain ⟨rest, others, same⟩ := Option.bind_eq_some_iff.mp read
        cases same
        cases isEmpty
        exact ⟨members, inside, ⟨none, hasMetadata, .absent rfl⟩, others⟩
    | some value =>
        obtain ⟨metadata, isMetadata, read⟩ := Option.bind_eq_some_iff.mp read
        obtain ⟨rest, others, same⟩ := Option.bind_eq_some_iff.mp read
        cases same
        exact ⟨members, inside, ⟨some value, hasMetadata, .present isMetadata⟩, others⟩
  · rintro ⟨members, inside, ⟨found, hasMetadata, isMetadata⟩, others⟩
    refine ⟨members, inside, found, hasMetadata, ?_⟩
    cases isMetadata with
    | absent empty =>
        exact Option.bind_eq_some_iff.mpr
          ⟨_, congrArg some empty.symm, Option.bind_eq_some_iff.mpr ⟨_, others, rfl⟩⟩
    | present read =>
        exact Option.bind_eq_some_iff.mpr
          ⟨_, read, Option.bind_eq_some_iff.mpr ⟨_, others, rfl⟩⟩

theorem wellFormed_of_ofRaw? (integral : document.Integral)
    (read : ofRaw? document = some object) : object.WellFormed := by
  obtain ⟨members, inside, holds⟩ := ofRaw?_eq_some.mp read
  have numbers := Record.integral_of_members? inside integral
  refine ⟨?_, Record.kept_of_others? holds.rest numbers⟩
  obtain ⟨found, hasMetadata, isMetadata⟩ := holds.metadata
  cases isMetadata with
  | absent empty => exact empty ▸ ObjectMeta.wellFormed_empty
  | present read =>
      exact ObjectMeta.wellFormed_of_ofRaw? (numbers _ (Record.mem_of_field? hasMetadata)) read

namespace WellFormed

variable (wellFormed : object.WellFormed)

include wellFormed

theorem layout : Record.Layout declared object.known object.rest where
  names := .refl _
  nodup := by decide
  kept := wellFormed.kept

theorem integral : object.toValue.Integral :=
  wellFormed.layout.integral (List.forall_mem_singleton.mpr wellFormed.metadata.integral)

end WellFormed

theorem ofRaw?_toRaw (wellFormed : object.WellFormed) :
    ofRaw? object.toValue.toRaw = some object := by
  have layout := wellFormed.layout
  refine ofRaw?_eq_some.mpr ⟨_, Record.members?_toRaw _, ⟨?_, layout.others?_written⟩⟩
  refine ⟨some object.metadata.toValue.toRaw, ?_,
    .present (ObjectMeta.ofRaw?_toRaw wellFormed.metadata)⟩
  exact (Record.field?_written layout.distinct).trans rfl

theorem depth_toRaw_le (read : ofRaw? document = some object) {bound : Nat}
    (shallow : document.depth ≤ bound) (room : 2 ≤ bound) :
    object.toValue.toRaw.depth ≤ bound := by
  obtain ⟨members, inside, holds⟩ := ofRaw?_eq_some.mp read
  refine Value.depth_object_le (by omega) (List.forall_mem_cons.mpr ⟨?_, fun field among =>
    Nat.lt_of_lt_of_le (Record.depth_of_others? inside holds.rest field among) shallow⟩)
  obtain ⟨found, hasMetadata, isMetadata⟩ := holds.metadata
  cases isMetadata with
  | absent empty =>
      rw [empty]
      exact room
  | present read =>
      have deep := Record.depth_of_members? inside _ (Record.mem_of_field? hasMetadata)
      exact Nat.lt_of_le_of_lt (ObjectMeta.depth_toRaw_le read) (Nat.lt_of_lt_of_le deep shallow)

end Object

/-! ## Lists -/

namespace ObjectList

variable {list : ObjectList} {members : List (String × Raw)} {kind : ResourceKind}
  {payload : Bytes}

def declared : List String := ["kind", "items"]

def itemsValue (list : ObjectList) : Value := .array (list.items.map Object.toValue)

def known (list : ObjectList) : List (String × Value) :=
  (match list.kind with
    | none => []
    | some kind => [("kind", .string kind)]) ++ [("items", list.itemsValue)]

theorem toValue_eq (list : ObjectList) : list.toValue = .object (list.known ++ list.rest) := by
  rw [known, List.append_assoc]
  rfl

theorem eq_of_mem_known {field : String × Value} (among : field ∈ list.known) :
    (∃ kind, field = ("kind", .string kind)) ∨ field = ("items", list.itemsValue) := by
  unfold known at among
  rcases List.mem_append.mp among with among | among
  · split at among
    · cases among
    · exact .inl ⟨_, List.mem_singleton.mp among⟩
  · exact .inr (List.mem_singleton.mp among)

/-- A list as reading leaves it. -/
structure WellFormed (list : ObjectList) : Prop where
  items : ∀ object ∈ list.items, object.WellFormed
  kept : Record.Kept declared list.rest

inductive KindOf (kind : Option String) : Option Raw → Prop
  | absent (unnamed : kind = none) : KindOf kind none
  | null (unnamed : kind = none) : KindOf kind (some .null)
  | text {value : Raw} {name : String} (named : kind = some name)
      (read : Value.ofRaw? value = some (.string name)) : KindOf kind (some value)

theorem kindOf {found : Option Raw} {kind : Option String}
    (read : kindOfRaw? found = some kind) : KindOf kind found := by
  unfold kindOfRaw? at read
  split at read
  · cases read
    exact .absent rfl
  · cases read
    exact .null rfl
  · obtain ⟨name, text, rfl⟩ := Option.map_eq_some_iff.mp read
    exact .text rfl (Record.ofRaw?_of_text? text)

inductive ItemsOf (items : List Object) : Option Raw → Prop
  | absent (empty : items = []) : ItemsOf items none
  | null (empty : items = []) : ItemsOf items (some .null)
  | array {documents : List Raw} (read : documents.mapM Object.ofRaw? = some items) :
      ItemsOf items (some (.array documents))

theorem itemsOf {found : Option Raw} {items : List Object}
    (read : itemsOfRaw? found = some items) : ItemsOf items found := by
  unfold itemsOfRaw? at read
  split at read
  · cases read
    exact .absent rfl
  · cases read
    exact .null rfl
  · exact .array read
  · cases read

structure ReadFrom (members : List (String × Raw)) (list : ObjectList) : Prop where
  kind : ∃ found, Record.field? members "kind" = some found ∧ kindOfRaw? found = some list.kind
  items : ∃ found, Record.field? members "items" = some found ∧
    itemsOfRaw? found = some list.items
  rest : Record.others? members declared = some list.rest

theorem ofRaw?_eq_some :
    ofRaw? document = some list ↔
      ∃ members, Record.members? document = some members ∧ ReadFrom members list := by
  simp only [ofRaw?, Option.bind_eq_bind, Option.bind_eq_some_iff, Option.pure_def]
  constructor
  · rintro ⟨members, inside, kind, hasKind, _, isKind, items, hasItems, _, isItems, _, rest, same⟩
    cases same
    exact ⟨members, inside, ⟨kind, hasKind, isKind⟩, ⟨items, hasItems, isItems⟩, rest⟩
  · rintro ⟨members, inside, ⟨kind, hasKind, isKind⟩, ⟨items, hasItems, isItems⟩, rest⟩
    exact ⟨members, inside, kind, hasKind, _, isKind, items, hasItems, _, isItems, _, rest, rfl⟩

theorem wellFormed_of_ofRaw? (integral : document.Integral)
    (read : ofRaw? document = some list) : list.WellFormed := by
  obtain ⟨members, inside, holds⟩ := ofRaw?_eq_some.mp read
  have numbers := Record.integral_of_members? inside integral
  refine ⟨fun object among => ?_, Record.kept_of_others? holds.rest numbers⟩
  obtain ⟨found, hasItems, isItems⟩ := holds.items
  cases itemsOf isItems with
  | absent empty =>
      rw [empty] at among
      cases among
  | null empty =>
      rw [empty] at among
      cases among
  | array read =>
      obtain ⟨item, inRow, found⟩ := Rows.mem_of_mapM read among
      have row := numbers _ (Record.mem_of_field? hasItems)
      exact Object.wellFormed_of_ofRaw? (Raw.integral_array.mp row item inRow) found

namespace WellFormed

variable (wellFormed : list.WellFormed)

include wellFormed

theorem layout : Record.Layout declared list.known list.rest where
  names := by
    unfold known
    split
    · exact .cons _ (.refl _)
    · exact .refl _
  nodup := by decide
  kept := wellFormed.kept

theorem integral : list.toValue.Integral := by
  rw [toValue_eq]
  refine wellFormed.layout.integral fun field among => ?_
  rcases eq_of_mem_known among with ⟨kind, rfl⟩ | rfl
  · exact .string kind
  · exact .array (List.forall_mem_map.mpr fun object among =>
      (wellFormed.items object among).integral)

end WellFormed

theorem find?_known_kind :
    Fields.find? list.known "kind" = list.kind.map Value.string := by
  unfold known
  cases list.kind <;> simp [Fields.find?_cons]

theorem find?_known_items : Fields.find? list.known "items" = some list.itemsValue := by
  unfold known
  cases list.kind <;> simp [Fields.find?_cons]

theorem ofRaw?_toRaw (wellFormed : list.WellFormed) : ofRaw? list.toValue.toRaw = some list := by
  have layout := wellFormed.layout
  rw [toValue_eq]
  refine ofRaw?_eq_some.mpr ⟨_, Record.members?_toRaw _, ?_, ?_, layout.others?_written⟩
  · refine ⟨_, Record.field?_written layout.distinct, ?_⟩
    rw [layout.find?_eq, if_pos (by decide), find?_known_kind]
    cases list.kind with
    | none => rfl
    | some kind => exact congrArg (Option.map some) (Quoted.text?_escape kind)
  · refine ⟨_, Record.field?_written layout.distinct, ?_⟩
    rw [layout.find?_eq, if_pos (by decide), find?_known_items, itemsValue, Option.map_some,
      Value.toRaw, Value.itemsToRaw_eq, List.map_map]
    refine (Rows.mapM_map _ (fun object => object) fun object among => ?_).trans ?_
    · exact Object.ofRaw?_toRaw (wellFormed.items object among)
    · rw [List.map_id']

theorem depth_toRaw_le (read : ofRaw? document = some list) {bound : Nat}
    (shallow : document.depth ≤ bound) (room : 4 ≤ bound) :
    list.toValue.toRaw.depth ≤ bound := by
  obtain ⟨members, inside, holds⟩ := ofRaw?_eq_some.mp read
  rw [toValue_eq]
  refine Value.depth_object_le (by omega) (List.forall_mem_append.mpr ⟨?_, fun field among =>
    Nat.lt_of_lt_of_le (Record.depth_of_others? inside holds.rest field among) shallow⟩)
  intro field among
  rcases eq_of_mem_known among with ⟨kind, rfl⟩ | rfl
  · exact Nat.lt_of_lt_of_le (Nat.succ_pos 3) room
  obtain ⟨found, hasItems, isItems⟩ := holds.items
  have items : list.itemsValue.toRaw.depth ≤ bound - 1 := by
    refine Value.depth_array_le (by omega) (List.forall_mem_map.mpr fun object among => ?_)
    cases itemsOf isItems with
    | absent empty =>
        rw [empty] at among
        cases among
    | null empty =>
        rw [empty] at among
        cases among
    | array read =>
        obtain ⟨item, inRow, found⟩ := Rows.mem_of_mapM read among
        have row := Record.depth_of_members? inside _ (Record.mem_of_field? hasItems)
        have below := Raw.depth_item_le inRow
        rw [Raw.depth] at row
        have deep : object.toValue.toRaw.depth ≤ bound - 2 :=
          Object.depth_toRaw_le found (by omega) (by omega)
        omega
  exact Nat.lt_of_le_of_lt items (by omega)

theorem wellFormed_retain (wellFormed : list.WellFormed) (test : Object → Bool) :
    (list.retain test).WellFormed where
  items object among := wellFormed.items object (List.mem_filter.mp among).1
  kept := wellFormed.kept

theorem depth_retain_le (list : ObjectList) (test : Object → Bool) :
    (list.retain test).toValue.toRaw.depth ≤ list.toValue.toRaw.depth := by
  have ofField : ∀ field ∈ list.known ++ list.rest,
      field.2.toRaw.depth < list.toValue.toRaw.depth := by
    rw [toValue_eq]
    exact fun field => Value.depth_field_lt
  have ofItems : (list.retain test).itemsValue.toRaw.depth ≤ list.itemsValue.toRaw.depth := by
    refine Value.depth_array_le (Nat.succ_pos _) (List.forall_mem_map.mpr fun object among => ?_)
    exact Value.depth_item_lt (List.mem_map_of_mem (List.mem_filter.mp among).1)
  have items := ofField ("items", list.itemsValue) (by simp [known])
  rw [toValue_eq (list.retain test)]
  refine Value.depth_object_le (Nat.zero_lt_of_lt items) (List.forall_mem_append.mpr
    ⟨fun field among => ?_, fun field among => ofField field (List.mem_append_right _ among)⟩)
  rcases eq_of_mem_known among with ⟨kind, rfl⟩ | rfl
  · exact Nat.zero_lt_of_lt items
  · exact Nat.lt_of_le_of_lt ofItems items

/-! ## Payloads -/

theorem parse?_encode (wellFormed : list.WellFormed)
    (shallow : list.toValue.toRaw.depth ≤ maxDepth) : parse? list.encode = some list := by
  unfold parse? encode
  rw [Value.raw_parse?_render wellFormed.integral, Option.bind_eq_bind, Option.bind_some,
    if_pos shallow]
  exact ofRaw?_toRaw wellFormed

theorem decode_eq_ok : decode kind payload = .ok list ↔
    parse? payload = some list ∧ ∀ found ∈ list.kind, found = kind.listKind := by
  unfold decode
  split
  case h_1 nothing => exact iff_of_false nofun fun ⟨read, _⟩ => nomatch nothing.symm.trans read
  case h_2 other parsed =>
    have only : parse? payload = some list → other = list := fun read =>
      Option.some.inj (parsed.symm.trans read)
    split
    case h_1 unnamed =>
      constructor
      · rintro ⟨⟩
        exact ⟨parsed, by simp [unnamed]⟩
      · exact fun ⟨read, _⟩ => congrArg Except.ok (only read)
    case h_2 found named =>
      split
      case isTrue same =>
        constructor
        · rintro ⟨⟩
          exact ⟨parsed, by simp [named, same]⟩
        · exact fun ⟨read, _⟩ => congrArg Except.ok (only read)
      case isFalse different =>
        exact iff_of_false nofun fun ⟨read, kinds⟩ => different (kinds found (only read ▸ named))

/-- Whatever has been decoded is decoded again from what is written for it, and is written the
same again. -/
theorem decode_encode (decoded : decode kind payload = .ok list)
    (integers : IntegersOnly payload) :
    decode kind list.encode = .ok list ∧
      ∀ again, decode kind list.encode = .ok again → again.encode = list.encode := by
  obtain ⟨read, kinds⟩ := decode_eq_ok.mp decoded
  obtain ⟨document, parsed, read⟩ := Option.bind_eq_some_iff.mp read
  split at read
  case isTrue shallow =>
    have wellFormed := wellFormed_of_ofRaw? (integers document parsed) read
    have bound := depth_toRaw_le read shallow (by decide)
    have same := decode_eq_ok.mpr ⟨parse?_encode wellFormed bound, kinds⟩
    refine ⟨same, fun again decoded => ?_⟩
    cases same.symm.trans decoded
    rfl
  case isFalse => cases read

def untidyPods : Bytes := Bytes.ofText
  "\x7b\"zone\":[1],\"items\":[\x7b\"spec\":\x7b\"b\":18446744073709551615,\"a\":-7\x7d,
    \"metadata\":\x7b\"name\":\"\\u0061\\\"\",\"labels\":\x7b\x7d,\"uid\":0\x7d\x7d,\x7b\x7d],
    \"kind\":null,\"zone\":\x7b\"d\":null,\"c\":3\x7d\x7d"

def tidyPods : Bytes := Bytes.ofText
  ("\x7b\"items\":[\x7b\"metadata\":\x7b\"name\":\"a\\\"\",\"uid\":0\x7d," ++
    "\"spec\":\x7b\"a\":-7,\"b\":18446744073709551615\x7d\x7d,\x7b\"metadata\":\x7b\x7d\x7d]," ++
    "\"zone\":\x7b\"c\":3,\"d\":null\x7d\x7d")

theorem decode_encode_untidyPods : ∃ list, decode .pods untidyPods = .ok list ∧
    IntegersOnly untidyPods ∧ list.encode = tidyPods ∧ decode .pods list.encode = .ok list := by
  have accepted : (decode .pods untidyPods).toOption.map encode = some tidyPods := by
    decide +kernel
  have integers : IntegersOnly untidyPods := by decide +kernel
  cases decoded : decode .pods untidyPods with
  | error refusal =>
      rw [decoded] at accepted
      cases accepted
  | ok list =>
      rw [decoded] at accepted
      exact ⟨list, rfl, integers, Option.some.inj accepted, (decode_encode decoded integers).1⟩

end ObjectList

end Outpost.Api
