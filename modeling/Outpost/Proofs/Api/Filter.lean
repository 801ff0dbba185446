import Outpost.Api.Filter
import Outpost.Proofs.Api.ObjectList

/-!
# What filtering does to a JSON value

A list of objects as a JSON value, without any record in between.  The value that a filtered body
writes is the value of the payload without the excluded items.  Only what the records would leave
out of a list is tidied away: a null kind, and empty metadata.
-/

namespace Outpost.Api

open Json

/-! ## Lists as values -/

namespace ListValue

def field? (name : String) : Value → Option Value
  | .object fields => Fields.find? fields name
  | _ => none

def text : Option Value → String
  | some (.string text) => text
  | _ => ""

def items (list : Value) : List Value :=
  match field? "items" list with
  | some (.array items) => items
  | _ => []

def itemName (item : Value) : String := text ((field? "metadata" item).bind (field? "name"))

/-- Whether the name of an item begins with a text that is not empty. -/
def isExcluded (start : String) (item : Value) : Bool :=
  start ≠ "" && Text.startsWith (itemName item) start

def isBlank : String × Value → Bool
  | (name, .string text) => text = "" && (name = "name" || name = "namespace")
  | (name, .null) => name = "labels"
  | (name, .object []) => name = "labels"
  | _ => false

def tidyMetadata : Value → Value
  | .object fields => .object (fields.filter fun field => !isBlank field)
  | value => value

def tidyItem : Value → Value
  | .object fields =>
      .object (Fields.insert "metadata"
        (tidyMetadata ((Fields.find? fields "metadata").getD (.object []))) fields)
  | value => value

def isNullKind : String × Value → Bool
  | (name, .null) => name = "kind"
  | _ => false

/-- The list without the excluded items, the others tidied. -/
def without (start : String) (list : Value) : Value :=
  match list with
  | .object fields =>
      let kept := (items list).filter fun item => !isExcluded start item
      .object (Fields.insert "items" (.array (kept.map tidyItem))
        (fields.filter fun field => !isNullKind field))
  | value => value

theorem items_without (start : String) (list : Value) :
    items (without start list) =
      ((items list).filter fun item => !isExcluded start item).map tidyItem := by
  cases list with
  | object fields => rw [without, items, field?, Fields.find?_insert, if_pos rfl]
  | _ => rfl

end ListValue

open ListValue

variable {document : Raw}

/-! ## Metadata -/

namespace ObjectMeta

theorem LabelsOf.readable {found : Option Raw} {labels : List (String × String)}
    (holds : LabelsOf labels found) : Record.Readable found := by
  rintro value ⟨⟩
  cases holds with
  | null => exact ⟨_, rfl⟩
  | object _ read => exact ⟨_, read⟩

theorem text_inOrder {found : Option Raw} {text name : String} (holds : Record.TextOf text found)
    (declared : name = "name" ∨ name = "namespace") :
    (if text = "" then none else some (Value.string text)).map Value.inOrder =
      (found.bind Value.ofRaw?).filter fun value => !isBlank (name, value) := by
  cases holds with
  | absent empty => rw [if_pos empty]; rfl
  | present read =>
      rw [Option.bind_some, read, Option.filter_some]
      by_cases empty : text = ""
      · rcases declared with rfl | rfl <;> simp [isBlank, empty]
      · simp [isBlank, empty, Value.inOrder]

theorem labels_inOrder {found : Option Raw} {labels : List (String × String)}
    (holds : LabelsOf labels found) :
    (if labels.isEmpty then none else some (labelsValue labels)).map Value.inOrder =
      (found.bind Value.ofRaw?).filter fun value => !isBlank ("labels", value) := by
  cases holds with
  | absent empty => rw [empty]; rfl
  | null empty => rw [empty]; rfl
  | object sorted read =>
      rw [Option.bind_some, read, Option.filter_some]
      cases labels with
      | nil => rfl
      | cons label labels => exact congrArg some (Value.inOrder_of_ofRaw? read)

theorem isBlank_of_undeclared {name : String} (undeclared : name ∉ declared) (value : Value) :
    isBlank (name, value) = false := by
  simp only [declared, List.mem_cons, List.not_mem_nil, or_false, not_or] at undeclared
  obtain ⟨noName, noScope, noLabels⟩ := undeclared
  unfold isBlank
  split <;> simp_all

theorem value_of_ofRaw? {metadata : ObjectMeta} (integral : document.Integral)
    (read : ofRaw? document = some metadata) :
    ∃ value, Value.ofRaw? document = some value ∧
      metadata.toValue.inOrder = tidyMetadata value ∧
      text (field? "name" value) = metadata.name := by
  have layout := (wellFormed_of_ofRaw? integral read).layout
  obtain ⟨members, inside, holds⟩ := ofRaw?_eq_some.mp read
  obtain ⟨name, hasName, isName⟩ := holds.name
  obtain ⟨scope, hasScope, isScope⟩ := holds.scope
  obtain ⟨labels, hasLabels, isLabels⟩ := holds.labels
  obtain ⟨fields, all⟩ := Record.exists_values? holds.rest (List.forall_mem_cons.mpr
    ⟨⟨name, hasName, (Record.textOf isName).readable⟩, List.forall_mem_cons.mpr
    ⟨⟨scope, hasScope, (Record.textOf isScope).readable⟩, List.forall_mem_singleton.mpr
    ⟨labels, hasLabels, (labelsOf isLabels).readable⟩⟩⟩)
  have sorted := Fields.sorted_ofList fields
  refine ⟨.object (Fields.ofList fields), ?_, ?_, ?_⟩
  · rw [Record.ofRaw?_of_members? inside, all]
    rfl
  · rw [toValue_eq]
    refine layout.inOrder_eq (sorted.filter _) (List.forall_mem_cons.mpr
      ⟨?_, List.forall_mem_cons.mpr ⟨?_, List.forall_mem_singleton.mpr ?_⟩⟩)
      fun other undeclared => ?_
    · rw [find?_known_name, sorted.find?_filter, Record.find?_of_field? hasName all]
      exact text_inOrder (Record.textOf isName) (.inl rfl)
    · rw [find?_known_scope, sorted.find?_filter, Record.find?_of_field? hasScope all]
      exact text_inOrder (Record.textOf isScope) (.inr rfl)
    · rw [find?_known_labels, sorted.find?_filter, Record.find?_of_field? hasLabels all]
      exact labels_inOrder (labelsOf isLabels)
    · rw [Record.find?_others holds.rest all undeclared, sorted.find?_filter_of_forall]
      exact fun value => by rw [isBlank_of_undeclared undeclared]; rfl
  · rw [field?, Record.find?_of_field? hasName all]
    cases Record.textOf isName with
    | absent empty => exact empty.symm
    | present read => rw [Option.bind_some, read]; rfl

end ObjectMeta

/-! ## Items -/

namespace Object

theorem value_of_ofRaw? {object : Object} (integral : document.Integral)
    (read : ofRaw? document = some object) :
    ∃ value, Value.ofRaw? document = some value ∧
      object.toValue.inOrder = tidyItem value ∧ itemName value = object.metadata.name := by
  have layout := (wellFormed_of_ofRaw? integral read).layout
  obtain ⟨members, inside, holds⟩ := ofRaw?_eq_some.mp read
  obtain ⟨found, hasMetadata, isMetadata⟩ := holds.metadata
  have metadata : Record.Readable found ∧
      object.metadata.toValue.inOrder =
        tidyMetadata ((found.bind Value.ofRaw?).getD (.object [])) ∧
      text ((found.bind Value.ofRaw?).bind (field? "name")) = object.metadata.name := by
    cases isMetadata with
    | absent empty =>
        rw [empty]
        exact ⟨nofun, rfl, rfl⟩
    | present read =>
        have numbers := Record.integral_of_members? inside integral _
          (Record.mem_of_field? hasMetadata)
        obtain ⟨value, reads, tidy, named⟩ := ObjectMeta.value_of_ofRaw? numbers read
        rw [Option.bind_some, reads]
        exact ⟨fun _ same => Option.some.inj same ▸ ⟨value, reads⟩, tidy, named⟩
  obtain ⟨readable, tidy, named⟩ := metadata
  obtain ⟨fields, all⟩ := Record.exists_values? holds.rest
    (List.forall_mem_singleton.mpr ⟨found, hasMetadata, readable⟩)
  have sorted := Fields.sorted_ofList fields
  have isField := Record.find?_of_field? hasMetadata all
  refine ⟨.object (Fields.ofList fields), ?_, ?_, ?_⟩
  · rw [Record.ofRaw?_of_members? inside, all]
    rfl
  · rw [toValue_eq]
    refine layout.inOrder_eq (Fields.sorted_insert sorted) (List.forall_mem_singleton.mpr ?_)
      fun other undeclared => ?_
    · rw [Fields.find?_insert, if_pos rfl, isField, ← tidy]
      rfl
    · have different : "metadata" ≠ other := fun same =>
        undeclared (List.mem_singleton.mpr same.symm)
      rw [Record.find?_others holds.rest all undeclared, Fields.find?_insert, if_neg different]
  · rw [itemName, field?, isField]
    exact named

theorem keeps_eq {object : Object} {value : Value} (named : itemName value = object.metadata.name)
    (start : String) : keeps start object = !isExcluded start value := by
  unfold keeps isExcluded
  rw [named]
  by_cases empty : start = "" <;> simp [empty]

theorem values_of_mapM {documents : List Raw} {objects : List Object} (start : String)
    (integral : ∀ item ∈ documents, item.Integral)
    (read : documents.mapM ofRaw? = some objects) :
    ∃ values, documents.mapM Value.ofRaw? = some values ∧ values.length = objects.length ∧
      (objects.filter (keeps start)).map (fun object => object.toValue.inOrder) =
        (values.filter fun item => !isExcluded start item).map tidyItem := by
  induction documents generalizing objects with
  | nil =>
      cases read
      exact ⟨[], rfl, rfl, rfl⟩
  | cons item documents ih =>
      obtain ⟨object, others, rfl, first, behind⟩ := Rows.mapM_cons_inv read
      obtain ⟨own, rest⟩ := List.forall_mem_cons.mp integral
      obtain ⟨value, reads, tidy, named⟩ := value_of_ofRaw? own first
      obtain ⟨values, all, count, same⟩ := ih rest behind
      refine ⟨value :: values, Rows.mapM_cons_eq_some.mpr ⟨reads, all⟩, congrArg _ count, ?_⟩
      rw [List.filter_cons, List.filter_cons, keeps_eq named]
      split
      · rw [List.map_cons, List.map_cons, tidy, same]
      · exact same

end Object

/-! ## Lists -/

namespace ObjectList

theorem KindOf.readable {found : Option Raw} {kind : Option String} (holds : KindOf kind found) :
    Record.Readable found := by
  rintro value ⟨⟩
  cases holds with
  | null => exact ⟨_, rfl⟩
  | text _ read => exact ⟨_, read⟩

theorem ItemsOf.readable {found : Option Raw} {items : List Object}
    (holds : ItemsOf items found) (integral : ∀ value ∈ found, value.Integral) :
    Record.Readable found := by
  rintro value ⟨⟩
  cases holds with
  | null => exact ⟨_, rfl⟩
  | array read =>
      have each := Raw.integral_array.mp (integral _ rfl)
      obtain ⟨values, all, _⟩ := Object.values_of_mapM "" each read
      exact ⟨.array values, by rw [Value.ofRaw?_array, all]; rfl⟩

theorem kind_inOrder {found : Option Raw} {kind : Option String} (holds : KindOf kind found) :
    (kind.map Value.string).map Value.inOrder =
      (found.bind Value.ofRaw?).filter fun value => !isNullKind ("kind", value) := by
  cases holds with
  | absent unnamed => rw [unnamed]; rfl
  | null unnamed => rw [unnamed]; rfl
  | text named read => rw [named, Option.bind_some, read]; rfl

theorem isNullKind_of_ne {name : String} (different : name ≠ "kind") (value : Value) :
    isNullKind (name, value) = false := by
  unfold isNullKind
  split <;> simp_all

theorem itemsValue_inOrder (list : ObjectList) : list.itemsValue.inOrder =
    .array (list.items.map fun object => object.toValue.inOrder) := by
  rw [itemsValue, Value.inOrder, Value.itemsInOrder_eq, List.map_map]
  rfl

theorem itemsValue_of_itemsOf {found : Option Raw} {list : ObjectList} (start : String)
    (integral : ∀ value ∈ found, value.Integral) (holds : ItemsOf list.items found)
    {fields : List (String × Value)}
    (isField : Fields.find? fields "items" = found.bind Value.ofRaw?) :
    (ListValue.items (.object fields)).length = list.items.length ∧
      (list.retain (keeps start)).itemsValue.inOrder =
        .array (((ListValue.items (.object fields)).filter
          fun item => !isExcluded start item).map tidyItem) := by
  rw [itemsValue_inOrder, ListValue.items, field?, isField, retain]
  cases holds with
  | absent empty => rw [empty]; exact ⟨rfl, rfl⟩
  | null empty => rw [empty]; exact ⟨rfl, rfl⟩
  | array read =>
      have each := Raw.integral_array.mp (integral _ rfl)
      obtain ⟨values, all, count, same⟩ := Object.values_of_mapM start each read
      rw [Option.bind_some, Value.ofRaw?_array, all, same]
      exact ⟨count, rfl⟩

theorem value_of_ofRaw? {list : ObjectList} (start : String) (integral : document.Integral)
    (read : ofRaw? document = some list) :
    ∃ value, Value.ofRaw? document = some value ∧
      (list.retain (keeps start)).toValue.inOrder = without start value ∧
      (ListValue.items value).length = list.items.length ∧
      (ListValue.items (without start value)).length =
        (list.retain (keeps start)).items.length := by
  have layout := (wellFormed_retain (wellFormed_of_ofRaw? integral read) (keeps start)).layout
  obtain ⟨members, inside, holds⟩ := ofRaw?_eq_some.mp read
  have numbers := Record.integral_of_members? inside integral
  obtain ⟨kind, hasKind, isKind⟩ := holds.kind
  obtain ⟨found, hasItems, isItems⟩ := holds.items
  have integers : ∀ value ∈ found, value.Integral := by
    rintro value ⟨⟩
    exact numbers _ (Record.mem_of_field? hasItems)
  obtain ⟨fields, all⟩ := Record.exists_values? holds.rest (List.forall_mem_cons.mpr
    ⟨⟨kind, hasKind, (kindOf isKind).readable⟩, List.forall_mem_singleton.mpr
    ⟨found, hasItems, (itemsOf isItems).readable integers⟩⟩)
  have sorted := Fields.sorted_ofList fields
  have kept := sorted.filter fun field => !isNullKind field
  obtain ⟨count, same⟩ := itemsValue_of_itemsOf start integers (itemsOf isItems)
    (Record.find?_of_field? hasItems all)
  refine ⟨.object (Fields.ofList fields), ?_, ?_, count, ?_⟩
  case refine_3 =>
    have rows := Value.array.inj ((itemsValue_inOrder _).symm.trans same)
    rw [items_without, ← rows, List.length_map]
  · rw [Record.ofRaw?_of_members? inside, all]
    rfl
  · rw [toValue_eq]
    refine layout.inOrder_eq (Fields.sorted_insert kept) (List.forall_mem_cons.mpr
      ⟨?_, List.forall_mem_singleton.mpr ?_⟩) fun other undeclared => ?_
    · rw [Fields.find?_insert, if_neg (by decide), find?_known_kind, sorted.find?_filter,
        Record.find?_of_field? hasKind all]
      exact kind_inOrder (kindOf isKind)
    · rw [Fields.find?_insert, if_pos rfl, find?_known_items, ← same]
      rfl
    · have different : other ≠ "kind" ∧ other ≠ "items" := by simpa [declared] using undeclared
      rw [Fields.find?_insert, if_neg (Ne.symm different.2), sorted.find?_filter_of_forall]
      · exact Record.find?_others holds.rest all undeclared
      · exact fun value => by rw [isNullKind_of_ne different.1]; rfl

end ObjectList

/-! ## Payloads -/

theorem filterList_eq_ok {resource : String} {payload : Bytes} {start : String}
    {filtered : Filtered} :
    filterList resource payload start = .ok filtered ↔
      ∃ kind list, ResourceKind.parse resource = .ok kind ∧
        ObjectList.decode kind payload = .ok list ∧
        filtered = ⟨(list.retain (keeps start)).encode, (list.retain (keeps start)).items.length,
          list.items.length - (list.retain (keeps start)).items.length⟩ := by
  unfold filterList
  cases ResourceKind.parse resource with
  | error refusal => exact iff_of_false nofun nofun
  | ok kind =>
      simp only [Except.mapError, bind, Except.bind]
      cases decoded : ObjectList.decode kind payload with
      | error refusal =>
          refine iff_of_false nofun ?_
          rintro ⟨_, list, ⟨⟩, ok, _⟩
          cases decoded.symm.trans ok
      | ok list =>
          constructor
          · rintro ⟨⟩
            exact ⟨kind, list, rfl, decoded, rfl⟩
          · rintro ⟨_, _, ⟨⟩, ok, rfl⟩
            cases decoded.symm.trans ok
            rfl

theorem retain_retain (list : ObjectList) (test : Object → Bool) :
    (list.retain test).retain test = list.retain test := by
  simp [ObjectList.retain, List.filter_filter]

/-- Filtering takes the excluded items out of the value of a payload and tidies the rest; it
counts both, and finds nothing to take out of its own result. -/
theorem filterList_value {resource : String} {payload : Bytes} {start : String}
    {filtered : Filtered} (accepted : filterList resource payload start = .ok filtered)
    (integers : IntegersOnly payload) :
    ∃ value, Value.parse? payload = some value ∧
      Value.parse? filtered.body = some (without start value) ∧
      filtered.retained + filtered.removed = (items value).length ∧
      filtered.retained = (items (without start value)).length ∧
      filterList resource filtered.body start = .ok ⟨filtered.body, filtered.retained, 0⟩ := by
  obtain ⟨kind, list, parsed, decoded, rfl⟩ := filterList_eq_ok.mp accepted
  obtain ⟨read, kinds⟩ := ObjectList.decode_eq_ok.mp decoded
  obtain ⟨document, written, read⟩ := Option.bind_eq_some_iff.mp read
  split at read
  case isFalse => cases read
  case isTrue shallow =>
    have integral := integers document written
    have wellFormed := ObjectList.wellFormed_retain
      (ObjectList.wellFormed_of_ofRaw? integral read) (keeps start)
    have bound := Nat.le_trans (list.depth_retain_le (keeps start))
      (ObjectList.depth_toRaw_le read shallow (by decide))
    obtain ⟨value, reads, tidy, count, left⟩ := ObjectList.value_of_ofRaw? start integral read
    have again : ObjectList.decode kind (list.retain (keeps start)).encode =
        .ok (list.retain (keeps start)) :=
      ObjectList.decode_eq_ok.mpr ⟨ObjectList.parse?_encode wellFormed bound, kinds⟩
    refine ⟨value, ?_, ?_, ?_, left.symm, filterList_eq_ok.mpr ⟨kind, _, parsed, again, ?_⟩⟩
    · unfold Value.parse?
      rw [written, Option.bind_eq_bind, Option.bind_some, if_pos shallow, reads]
    · exact tidy ▸ Value.parse?_render wellFormed.integral bound
    · rw [count]
      exact Nat.add_sub_of_le (List.length_filter_le _ _)
    · rw [retain_retain, Nat.sub_self]

def secondPod : Bytes := Bytes.ofText
  "\x7b\"items\":[\x7b\"metadata\":\x7b\x7d\x7d],\"zone\":\x7b\"c\":3,\"d\":null\x7d\x7d"

theorem filterList_untidyPods :
    filterList "pods" ObjectList.untidyPods "a" = .ok ⟨secondPod, 1, 1⟩ ∧
    IntegersOnly ObjectList.untidyPods ∧
    ∃ value, Value.parse? ObjectList.untidyPods = some value ∧
      Value.parse? secondPod = some (without "a" value) ∧ (items value).length = 2 := by
  have accepted : filterList "pods" ObjectList.untidyPods "a" = .ok ⟨secondPod, 1, 1⟩ := by
    decide +kernel
  have integers : IntegersOnly ObjectList.untidyPods := by decide +kernel
  obtain ⟨value, reads, rest, count, _⟩ := filterList_value accepted integers
  exact ⟨accepted, integers, value, reads, rest, count.symm⟩

end Outpost.Api
