import Outpost.Proofs.Json.Fields
import Outpost.Proofs.Json.Integers
import Outpost.Proofs.Json.Rows

/-!
# Values are written and read back

Whatever a document says whose numbers are integers is a value in normal form: its numbers fit 64
bits and the fields of every object are in order.  Such a value is written as a document that is
read as the same value again.
-/

namespace Outpost.Json

open Bytes

@[elab_as_elim, induction_eliminator]
theorem Value.nested {motive : Value → Prop} (null : motive .null)
    (bool : ∀ value, motive (.bool value)) (number : ∀ value, motive (.number value))
    (string : ∀ text, motive (.string text))
    (array : ∀ items, (∀ item ∈ items, motive item) → motive (.array items))
    (object : ∀ fields, (∀ field ∈ fields, motive field.2) → motive (.object fields))
    (value : Value) : motive value :=
  match value with
  | .null => null
  | .bool value => bool value
  | .number value => number value
  | .string text => string text
  | .array items => array items fun item _ =>
      nested null bool number string array object item
  | .object fields => object fields fun field _ =>
      nested null bool number string array object field.2
termination_by sizeOf value
decreasing_by
  · simp only [Value.array.sizeOf_spec]
    have := List.sizeOf_lt_of_mem ‹_ ∈ _›
    omega
  · obtain ⟨name, value⟩ := field
    have := List.sizeOf_lt_of_mem ‹_ ∈ _›
    simp only [Value.object.sizeOf_spec, Prod.mk.sizeOf_spec] at this ⊢
    omega

variable {document : Raw} {value : Value} {items : List Value} {fields : List (String × Value)}

/-! ## Documents of integers -/

def Token.IsInteger : Token → Prop
  | .number text => ∃ value, Fits value ∧ text = .ofInt value
  | _ => True

instance (value : Int) : Decidable (Fits value) := inferInstanceAs (Decidable (_ ∧ _))

instance (token : Token) : Decidable token.IsInteger :=
  match token with
  | .number text =>
      match read : Num.ofText? text with
      | some (.integer value) =>
          decidable_of_iff (Fits value ∧ text = .ofInt value) ⟨fun same => ⟨value, same⟩, by
            rintro ⟨other, fits, same⟩
            rw [same, Num.ofText?_ofInt fits] at read
            cases read
            exact ⟨fits, same⟩⟩
      | some (.double _) | none => isFalse (by
          rintro ⟨other, fits, same⟩
          rw [same, Num.ofText?_ofInt fits] at read
          cases read)
  | .openArray | .closeArray | .openObject | .closeObject | .comma | .colon | .null | .bool _
  | .string _ => isTrue trivial

def Raw.Integral (document : Raw) : Prop := ∀ token ∈ document.tokens, token.IsInteger

instance (document : Raw) : Decidable document.Integral :=
  inferInstanceAs (Decidable (∀ token ∈ document.tokens, token.IsInteger))

/-- Every number of a payload is written as an integer other than a negative zero, one that fits
64 bits with a sign or without. -/
def IntegersOnly (payload : Bytes) : Prop := ∀ document ∈ Raw.parse? payload, document.Integral

instance (payload : Bytes) : Decidable (IntegersOnly payload) :=
  inferInstanceAs (Decidable (∀ document ∈ Raw.parse? payload, document.Integral))

theorem Raw.integral_array {items : List Raw} :
    (Raw.array items).Integral ↔ ∀ item ∈ items, item.Integral :=
  forall_tokens_array trivial trivial trivial

theorem Raw.integral_object {members : List (Bytes × Raw)} :
    (Raw.object members).Integral ↔ ∀ member ∈ members, member.2.Integral := by
  unfold Integral
  rw [forall_tokens_object trivial trivial trivial trivial]
  simp only [Token.IsInteger, true_and]

/-! ## Depth -/

theorem Raw.itemDepth_le {items : List Raw} {bound : Nat} :
    itemDepth items ≤ bound ↔ ∀ item ∈ items, item.depth ≤ bound := by
  induction items with
  | nil => simp [itemDepth]
  | cons item items ih => rw [itemDepth, Nat.max_le, ih, List.forall_mem_cons]

theorem Raw.memberDepth_le {members : List (Bytes × Raw)} {bound : Nat} :
    memberDepth members ≤ bound ↔ ∀ member ∈ members, member.2.depth ≤ bound := by
  induction members with
  | nil => simp [memberDepth]
  | cons member members ih => rw [memberDepth, Nat.max_le, ih, List.forall_mem_cons]

theorem Raw.depth_array_le {items : List Raw} {bound : Nat} :
    (array items).depth ≤ bound + 1 ↔ ∀ item ∈ items, item.depth ≤ bound := by
  rw [depth, Nat.add_le_add_iff_right, itemDepth_le]

theorem Raw.depth_object_le {members : List (Bytes × Raw)} {bound : Nat} :
    (object members).depth ≤ bound + 1 ↔ ∀ member ∈ members, member.2.depth ≤ bound := by
  rw [depth, Nat.add_le_add_iff_right, memberDepth_le]

theorem Raw.depth_item_le {items : List Raw} {item : Raw} (among : item ∈ items) :
    item.depth ≤ itemDepth items := itemDepth_le.mp (Nat.le_refl _) item among

theorem Raw.depth_member_le {members : List (Bytes × Raw)} {member : Bytes × Raw}
    (among : member ∈ members) : member.2.depth ≤ memberDepth members :=
  memberDepth_le.mp (Nat.le_refl _) member among

/-! ## What is written -/

def Num.text : Num → NumberText
  | .integer value => .ofInt value
  | .double value => ⟨false, value.render, [], none⟩

mutual

def Value.toRaw : Value → Raw
  | .null => .null
  | .bool value => .bool value
  | .number value => .number value.text
  | .string text => .string (Quoted.escape (ofText text))
  | .array items => .array (itemsToRaw items)
  | .object fields => .object (fieldsToRaw fields)

def Value.itemsToRaw : List Value → List Raw
  | [] => []
  | item :: rest => item.toRaw :: itemsToRaw rest

def Value.fieldsToRaw : List (String × Value) → List (Bytes × Raw)
  | [] => []
  | (name, value) :: rest => (Quoted.escape (ofText name), value.toRaw) :: fieldsToRaw rest

end

namespace Value

theorem itemsToRaw_eq : itemsToRaw items = items.map toRaw := by
  induction items with
  | nil => rfl
  | cons item items ih => rw [itemsToRaw, ih, List.map_cons]

theorem fieldsToRaw_eq : fieldsToRaw fields =
    fields.map fun field => (Quoted.escape (ofText field.1), field.2.toRaw) := by
  induction fields with
  | nil => rfl
  | cons field fields ih => rw [fieldsToRaw, ih, List.map_cons]

theorem depth_object_le {bound : Nat} (room : 0 < bound)
    (each : ∀ field ∈ fields, field.2.toRaw.depth < bound) :
    (object fields).toRaw.depth ≤ bound := by
  obtain ⟨bound, rfl⟩ := Nat.exists_eq_succ_of_ne_zero (Nat.ne_of_gt room)
  rw [toRaw, fieldsToRaw_eq]
  exact Raw.depth_object_le.mpr (List.forall_mem_map.mpr fun field among =>
    Nat.le_of_lt_succ (each field among))

theorem depth_field_lt {field : String × Value} (among : field ∈ fields) :
    field.2.toRaw.depth < (object fields).toRaw.depth := by
  rw [toRaw, fieldsToRaw_eq]
  have inside := List.mem_map_of_mem among (f := fun field : String × Value =>
    (Quoted.escape (ofText field.1), field.2.toRaw))
  exact Nat.lt_succ_of_le (Raw.depth_member_le inside)

theorem depth_item_lt {item : Value} (among : item ∈ items) :
    item.toRaw.depth < (array items).toRaw.depth := by
  rw [toRaw, itemsToRaw_eq]
  exact Nat.lt_succ_of_le (Raw.depth_item_le (List.mem_map_of_mem among))

theorem depth_array_le {bound : Nat} (room : 0 < bound)
    (each : ∀ item ∈ items, item.toRaw.depth < bound) :
    (array items).toRaw.depth ≤ bound := by
  obtain ⟨bound, rfl⟩ := Nat.exists_eq_succ_of_ne_zero (Nat.ne_of_gt room)
  rw [toRaw, itemsToRaw_eq]
  exact Raw.depth_array_le.mpr (List.forall_mem_map.mpr fun item among =>
    Nat.le_of_lt_succ (each item among))

theorem render_token (token : Token) : [token].flatMap Token.render = token.render :=
  List.append_nil _

theorem render_items (each : ∀ item ∈ items, item.toRaw.render = item.render) :
    (Raw.itemTokens (itemsToRaw items)).flatMap Token.render = renderItems items := by
  induction items with
  | nil => rfl
  | cons item items ih =>
      obtain ⟨first, others⟩ := List.forall_mem_cons.mp each
      cases items with
      | nil => exact first
      | cons next items =>
          rw [renderItems, ← first, ← ih others]
          · exact List.flatMap_append
          · nofun

theorem render_fields (each : ∀ field ∈ fields, field.2.toRaw.render = field.2.render) :
    (Raw.memberTokens (fieldsToRaw fields)).flatMap Token.render = renderFields fields := by
  induction fields with
  | nil => rfl
  | cons field fields ih =>
      obtain ⟨name, value⟩ := field
      obtain ⟨first, others⟩ := List.forall_mem_cons.mp each
      have own : (Token.string (Quoted.escape (ofText name)) :: .colon ::
          value.toRaw.tokens).flatMap Token.render = quote name ++ 0x3A :: value.render := by
        rw [← first]
        rfl
      cases fields with
      | nil => exact own
      | cons next fields =>
          rw [renderFields, ← own, ← ih others]
          · exact List.flatMap_append
          · nofun

theorem render_toRaw (value : Value) : value.toRaw.render = value.render := by
  induction value with
  | null => rfl
  | bool value => cases value <;> rfl
  | number value =>
      refine (render_token _).trans ?_
      cases value with
      | integer value => exact NumberText.render_ofInt value
      | double value => exact (List.append_nil _).trans (List.append_nil _)
  | string text => exact render_token _
  | array items each =>
      rw [render, ← render_items each, Raw.render, toRaw, Raw.tokens, List.cons_append,
        List.flatMap_cons, List.flatMap_append]
      rfl
  | object fields each =>
      rw [render, ← render_fields each, Raw.render, toRaw, Raw.tokens, List.cons_append,
        List.flatMap_cons, List.flatMap_append]
      rfl

/-! ## Reading it again -/

inductive Integral : Value → Prop
  | null : Integral .null
  | bool (value : Bool) : Integral (.bool value)
  | number {value : Int} (fits : Fits value) : Integral (.number (.integer value))
  | string (text : String) : Integral (.string text)
  | array {items : List Value} (each : ∀ item ∈ items, Integral item) : Integral (.array items)
  | object {fields : List (String × Value)} (each : ∀ field ∈ fields, Integral field.2) :
      Integral (.object fields)

theorem wellFormed_toRaw (integral : value.Integral) : value.toRaw.WellFormed := by
  induction integral with
  | null => exact List.forall_mem_singleton.mpr trivial
  | bool value => exact List.forall_mem_singleton.mpr trivial
  | number fits => exact List.forall_mem_singleton.mpr (NumberText.wellFormed_ofInt _)
  | string text => exact List.forall_mem_singleton.mpr fun rest => Quoted.scan?_escape _ rest
  | array _ each =>
      rw [toRaw, itemsToRaw_eq]
      exact (Raw.forall_tokens_array trivial trivial trivial).mpr (List.forall_mem_map.mpr each)
  | object _ each =>
      rw [toRaw, fieldsToRaw_eq]
      exact (Raw.forall_tokens_object trivial trivial trivial trivial).mpr
        (List.forall_mem_map.mpr fun field among =>
          ⟨fun rest => Quoted.scan?_escape _ rest, each field among⟩)

theorem raw_parse?_render (integral : value.Integral) :
    Raw.parse? value.render = some value.toRaw := by
  rw [← render_toRaw]
  exact Raw.parse?_render (wellFormed_toRaw integral)

mutual

/-- The value with the fields of every object in order, of a repeated name only the last. -/
def inOrder : Value → Value
  | .null => .null
  | .bool value => .bool value
  | .number value => .number value
  | .string text => .string text
  | .array items => .array (itemsInOrder items)
  | .object fields => .object (Fields.ofList (fieldsInOrder fields))

def itemsInOrder : List Value → List Value
  | [] => []
  | item :: rest => item.inOrder :: itemsInOrder rest

def fieldsInOrder : List (String × Value) → List (String × Value)
  | [] => []
  | (name, value) :: rest => (name, value.inOrder) :: fieldsInOrder rest

end

theorem itemsInOrder_eq : itemsInOrder items = items.map inOrder := by
  induction items with
  | nil => rfl
  | cons item items ih => rw [itemsInOrder, ih, List.map_cons]

theorem fieldsInOrder_eq :
    fieldsInOrder fields = fields.map fun field => (field.1, field.2.inOrder) := by
  induction fields with
  | nil => rfl
  | cons field fields ih => rw [fieldsInOrder, ih, List.map_cons]

theorem inOrder_array (each : ∀ item ∈ items, item.inOrder = item) :
    (array items).inOrder = .array items := by
  rw [inOrder, itemsInOrder_eq, List.map_congr_left each, List.map_id']

theorem inOrder_object (sorted : Fields.Sorted fields)
    (each : ∀ field ∈ fields, field.2.inOrder = field.2) :
    (object fields).inOrder = .object fields := by
  have same : ∀ field ∈ fields, (field.1, field.2.inOrder) = field := fun field among =>
    Prod.ext rfl (each field among)
  rw [inOrder, fieldsInOrder_eq, List.map_congr_left same, List.map_id',
    Fields.ofList_of_sorted sorted]

def fieldOfRaw? (member : Bytes × Raw) : Option (String × Value) := do
  return (← Quoted.text? member.1, ← ofRaw? member.2)

theorem fieldOfRaw?_eq_some {member : Bytes × Raw} {field : String × Value} :
    fieldOfRaw? member = some field ↔
      Quoted.text? member.1 = some field.1 ∧ ofRaw? member.2 = some field.2 := by
  obtain ⟨name, value⟩ := field
  simp [fieldOfRaw?, Option.bind_eq_some_iff]

theorem ofRaw?_array (items : List Raw) :
    ofRaw? (.array items) = (items.mapM ofRaw?).map .array := by
  have row : itemsOfRaw? items = items.mapM ofRaw? := by
    induction items with
    | nil => rfl
    | cons item items ih =>
        rw [itemsOfRaw?, ih, List.mapM_cons]
  rw [ofRaw?, row]

theorem ofRaw?_object (members : List (Bytes × Raw)) :
    ofRaw? (.object members) =
      (members.mapM fieldOfRaw?).map fun fields => .object (Fields.ofList fields) := by
  have row : membersOfRaw? members = members.mapM fieldOfRaw? := by
    induction members with
    | nil => rfl
    | cons member members ih =>
        rw [membersOfRaw?, ih, List.mapM_cons, fieldOfRaw?]
        cases Quoted.text? member.1 <;> cases ofRaw? member.2 <;> rfl
  rw [ofRaw?, row]

theorem ofRaw?_toRaw (integral : value.Integral) : ofRaw? value.toRaw = some value.inOrder := by
  induction integral with
  | null => rfl
  | bool value => rfl
  | number fits =>
      rw [toRaw, Num.text, ofRaw?, Num.ofText?_ofInt fits]
      rfl
  | string text =>
      rw [toRaw, ofRaw?, Quoted.text?_escape]
      rfl
  | array _ each =>
      rw [toRaw, itemsToRaw_eq, ofRaw?_array, Rows.mapM_map toRaw inOrder each, inOrder,
        itemsInOrder_eq]
      rfl
  | object _ each =>
      rw [toRaw, fieldsToRaw_eq, ofRaw?_object, inOrder, fieldsInOrder_eq,
        Rows.mapM_map _ fun field => (field.1, field.2.inOrder)]
      · rfl
      · exact fun field among =>
          fieldOfRaw?_eq_some.mpr ⟨Quoted.text?_escape _, each field among⟩

/-- A value of integers that is not too deep is written as a payload that says it in order. -/
theorem parse?_render (integral : value.Integral) (shallow : value.toRaw.depth ≤ maxDepth) :
    parse? value.render = some value.inOrder := by
  unfold parse?
  rw [raw_parse?_render integral, Option.bind_eq_bind, Option.bind_some, if_pos shallow,
    ofRaw?_toRaw integral]

/-! ## What has been read -/

/-- Induction over a document and the value that has been read from it. -/
theorem ofRaw?_induct {motive : Raw → Value → Prop} (null : motive .null .null)
    (bool : ∀ truth, motive (.bool truth) (.bool truth))
    (number : ∀ text value, Num.ofText? text = some value →
      motive (.number text) (.number value))
    (string : ∀ body text, motive (.string body) (.string text))
    (array : ∀ items values, (∀ value ∈ values, ∃ item ∈ items, motive item value) →
      motive (.array items) (.array values))
    (object : ∀ members fields, Fields.Sorted fields →
      (∀ field ∈ fields, ∃ member ∈ members, motive member.2 field.2) →
      motive (.object members) (.object fields))
    (read : ofRaw? document = some value) : motive document value := by
  induction document generalizing value with
  | null =>
      cases read
      exact null
  | bool truth =>
      cases read
      exact bool truth
  | number text =>
      obtain ⟨value, found, rfl⟩ := Option.map_eq_some_iff.mp read
      exact number text value found
  | string body =>
      obtain ⟨text, _, rfl⟩ := Option.map_eq_some_iff.mp read
      exact string body text
  | array items each =>
      rw [ofRaw?_array] at read
      obtain ⟨values, all, rfl⟩ := Option.map_eq_some_iff.mp read
      refine array items values fun value among => ?_
      obtain ⟨item, inside, found⟩ := Rows.mem_of_mapM all among
      exact ⟨item, inside, each item inside found⟩
  | object members each =>
      rw [ofRaw?_object] at read
      obtain ⟨fields, all, rfl⟩ := Option.map_eq_some_iff.mp read
      refine object members _ (Fields.sorted_ofList fields) fun field among => ?_
      obtain ⟨member, inside, found⟩ := Rows.mem_of_mapM all (Fields.mem_of_mem_ofList among)
      exact ⟨member, inside, each member inside (fieldOfRaw?_eq_some.mp found).2⟩

theorem integral_of_ofRaw? (integral : document.Integral) (read : ofRaw? document = some value) :
    value.Integral := by
  revert integral
  refine ofRaw?_induct (motive := fun document value => document.Integral → value.Integral)
    ?null ?bool ?number ?string ?array ?object read
  case null => exact fun _ => .null
  case bool => exact fun truth _ => .bool truth
  case number =>
    intro text value found integral
    obtain ⟨integer, fits, rfl⟩ := integral _ List.mem_cons_self
    rw [Num.ofText?_ofInt fits] at found
    cases found
    exact .number fits
  case string => exact fun _ text _ => .string text
  case array =>
    intro items values each integral
    refine .array fun value among => ?_
    obtain ⟨item, inside, ih⟩ := each value among
    exact ih (Raw.integral_array.mp integral item inside)
  case object =>
    intro members fields _ each integral
    refine .object fun field among => ?_
    obtain ⟨member, inside, ih⟩ := each field among
    exact ih (Raw.integral_object.mp integral member inside)

theorem inOrder_of_ofRaw? (read : ofRaw? document = some value) : value.inOrder = value := by
  refine ofRaw?_induct (motive := fun _ value => value.inOrder = value)
    ?null ?bool ?number ?string ?array ?object read
  case null | bool | number | string => intros; rfl
  case array =>
    intro items values each
    exact inOrder_array fun value among => (each value among).choose_spec.2
  case object =>
    intro members fields sorted each
    exact inOrder_object sorted fun field among => (each field among).choose_spec.2

theorem depth_toRaw_le (read : ofRaw? document = some value) :
    value.toRaw.depth ≤ document.depth := by
  refine ofRaw?_induct (motive := fun document value => value.toRaw.depth ≤ document.depth)
    ?null ?bool ?number ?string ?array ?object read
  case null | bool | number | string => intros; exact Nat.le_refl _
  case array =>
    intro items values each
    rw [toRaw, itemsToRaw_eq]
    refine Raw.depth_array_le.mpr (List.forall_mem_map.mpr fun value among => ?_)
    obtain ⟨item, inside, ih⟩ := each value among
    exact Nat.le_trans ih (Raw.depth_item_le inside)
  case object =>
    intro members fields _ each
    rw [toRaw, fieldsToRaw_eq]
    refine Raw.depth_object_le.mpr (List.forall_mem_map.mpr fun field among => ?_)
    obtain ⟨member, inside, ih⟩ := each field among
    exact Nat.le_trans ih (Raw.depth_member_le inside)

end Value

end Outpost.Json
