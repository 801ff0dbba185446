import Outpost.Json.Record
import Outpost.Proofs.Json.Values

/-!
# Records are read and written back

A record is read as the object that the same document says: each declared field has the value that
is read for it, and what is kept are the other fields.  A record that is written as its declared
fields and the kept ones behind them is read back field by field.
-/

namespace Outpost.Json.Record

open Bytes

variable {document : Raw} {members : List (String × Raw)} {name : String}
  {declared : List String} {fields known rest : List (String × Value)}

/-! ## Members and values -/

def values? (members : List (String × Raw)) : Option (List (String × Value)) :=
  members.mapM fun member => do return (member.1, ← Value.ofRaw? member.2)

theorem value_eq_some {member : String × Raw} {field : String × Value} :
    (do return (member.1, ← Value.ofRaw? member.2) : Option (String × Value)) = some field ↔
      member.1 = field.1 ∧ Value.ofRaw? member.2 = some field.2 := by
  obtain ⟨name, value⟩ := field
  cases Value.ofRaw? member.2 <;> simp

theorem member_eq_some {raw : Bytes × Raw} {member : String × Raw} :
    (do return (← Quoted.text? raw.1, raw.2) : Option (String × Raw)) = some member ↔
      Quoted.text? raw.1 = some member.1 ∧ raw.2 = member.2 := by
  obtain ⟨name, value⟩ := member
  cases Quoted.text? raw.1 <;> simp

theorem ofRaw?_of_members? (read : members? document = some members) :
    Value.ofRaw? document =
      (values? members).map fun fields => .object (Fields.ofList fields) := by
  cases document with
  | object raws =>
      have row : raws.mapM Value.fieldOfRaw? = values? members := by
        unfold members? at read
        unfold values?
        induction raws generalizing members with
        | nil =>
            cases read
            rfl
        | cons raw raws ih =>
            obtain ⟨member, others, rfl, first, behind⟩ := Rows.mapM_cons_inv read
            obtain ⟨name, same⟩ := member_eq_some.mp first
            rw [List.mapM_cons, List.mapM_cons, ih behind, Value.fieldOfRaw?, name, same]
            rfl
      rw [Value.ofRaw?_object, row]
  | _ => cases read

theorem ofRaw?_of_text? {value : Raw} {text : String} (read : text? value = some text) :
    Value.ofRaw? value = some (.string text) := by
  cases value with
  | string body => exact congrArg (Option.map Value.string) read
  | _ => cases read

inductive TextOf (text : String) : Option Raw → Prop
  | absent (empty : text = "") : TextOf text none
  | present {value : Raw} (read : Value.ofRaw? value = some (.string text)) :
      TextOf text (some value)

theorem textOf {found : Option Raw} {text : String} (read : textOr "" found = some text) :
    TextOf text found := by
  cases found with
  | none => exact .absent (Option.some.inj read).symm
  | some value => exact .present (ofRaw?_of_text? read)

/-- A field can be read as a value if it is written at all. -/
def Readable (found : Option Raw) : Prop :=
  ∀ value ∈ found, ∃ result, Value.ofRaw? value = some result

theorem TextOf.readable {found : Option Raw} {text : String} (holds : TextOf text found) :
    Readable found := by
  rintro value ⟨⟩
  cases holds with
  | present read => exact ⟨_, read⟩

theorem integral_of_members? (read : members? document = some members)
    (integral : document.Integral) : ∀ member ∈ members, member.2.Integral := by
  cases document with
  | object raws =>
      intro member among
      obtain ⟨raw, inside, found⟩ := Rows.mem_of_mapM read among
      exact (member_eq_some.mp found).2 ▸ Raw.integral_object.mp integral raw inside
  | _ => cases read

theorem depth_of_members? (read : members? document = some members) :
    ∀ member ∈ members, member.2.depth < document.depth := by
  cases document with
  | object raws =>
      intro member among
      obtain ⟨raw, inside, found⟩ := Rows.mem_of_mapM read among
      exact (member_eq_some.mp found).2 ▸ Nat.lt_succ_of_le (Raw.depth_member_le inside)
  | _ => cases read

theorem depth_pos_of_members? (read : members? document = some members) :
    0 < document.depth := by
  cases document with
  | object raws => exact Nat.succ_pos _
  | _ => cases read

/-! ## Declared fields -/

theorem filter_of_field? {found : Option Raw} (read : field? members name = some found) :
    members.filter (fun member => member.1 == name) =
      found.toList.map fun value => (name, value) := by
  unfold field? at read
  split at read
  · rename_i none
    cases read
    exact none
  · rename_i own value one
    cases read
    have among : (own, value) ∈ members.filter fun member => member.1 == name :=
      one ▸ List.mem_cons_self
    have same : own = name := beq_iff_eq.mp (List.mem_filter.mp among).2
    rw [one, same]
    rfl
  · cases read

theorem mem_of_field? {value : Raw} (read : field? members name = some (some value)) :
    (name, value) ∈ members := by
  have among : (name, value) ∈ members.filter fun member => member.1 == name := by
    rw [filter_of_field? read]
    exact List.mem_cons_self
  exact (List.mem_filter.mp among).1

theorem field?_of_mem {found : Option Raw} (read : field? members name = some found)
    {value : Raw} (among : (name, value) ∈ members) : found = some value := by
  have inside : (name, value) ∈ members.filter fun member => member.1 == name :=
    List.mem_filter.mpr ⟨among, beq_self_eq_true name⟩
  rw [filter_of_field? read] at inside
  cases found with
  | none => cases inside
  | some other =>
      cases List.mem_singleton.mp inside
      rfl

theorem find?_of_field? {found : Option Raw} (read : field? members name = some found)
    (all : values? members = some fields) :
    Fields.find? (Fields.ofList fields) name = found.bind Value.ofRaw? := by
  have some_filter : values? (members.filter fun member => member.1 == name) =
      some (fields.filter fun field => field.1 == name) :=
    Rows.mapM_filter all fun member _ field found => by rw [(value_eq_some.mp found).1]
  rw [filter_of_field? read] at some_filter
  rw [Fields.find?_ofList, Fields.find?_reverse]
  cases found with
  | none =>
      rw [← Option.some.inj some_filter]
      rfl
  | some value =>
      obtain ⟨field, others, same, first, behind⟩ := Rows.mapM_cons_inv some_filter
      cases behind
      rw [same]
      exact (value_eq_some.mp first).2.symm

/-! ## Kept fields -/

structure Kept (declared : List String) (rest : List (String × Value)) : Prop where
  sorted : Fields.Sorted rest
  undeclared : ∀ field ∈ rest, field.1 ∉ declared
  integral : ∀ field ∈ rest, field.2.Integral
  ordered : ∀ field ∈ rest, field.2.inOrder = field.2

theorem exists_of_mem_others? (read : others? members declared = some rest)
    {field : String × Value} (among : field ∈ rest) :
    ∃ member ∈ members, member.1 ∉ declared ∧ member.1 = field.1 ∧
      Value.ofRaw? member.2 = some field.2 := by
  obtain ⟨fields, all, rest_eq⟩ := Option.bind_eq_some_iff.mp read
  cases rest_eq
  obtain ⟨member, inside, found⟩ := Rows.mem_of_mapM all (Fields.mem_of_mem_ofList among)
  obtain ⟨present, undeclared⟩ := List.mem_filter.mp inside
  obtain ⟨name, value⟩ := value_eq_some.mp found
  exact ⟨member, present, by simpa using undeclared, name, value⟩

theorem kept_of_others? (read : others? members declared = some rest)
    (integral : ∀ member ∈ members, member.2.Integral) : Kept declared rest where
  sorted := by
    obtain ⟨fields, _, rest_eq⟩ := Option.bind_eq_some_iff.mp read
    cases rest_eq
    exact Fields.sorted_ofList fields
  undeclared := by
    intro field among
    obtain ⟨_, _, undeclared, name, _⟩ := exists_of_mem_others? read among
    exact name ▸ undeclared
  integral := by
    intro field among
    obtain ⟨member, inside, _, _, found⟩ := exists_of_mem_others? read among
    exact Value.integral_of_ofRaw? (integral member inside) found
  ordered := by
    intro field among
    obtain ⟨_, _, _, _, found⟩ := exists_of_mem_others? read among
    exact Value.inOrder_of_ofRaw? found

theorem depth_of_others? (read : members? document = some members)
    (others : others? members declared = some rest) :
    ∀ field ∈ rest, field.2.toRaw.depth < document.depth := by
  intro field among
  obtain ⟨member, inside, _, _, found⟩ := exists_of_mem_others? others among
  exact Nat.lt_of_le_of_lt (Value.depth_toRaw_le found) (depth_of_members? read member inside)

/-- The kept fields are the fields of the document without the declared ones. -/
theorem others?_eq (read : others? members declared = some rest)
    (all : values? members = some fields) :
    rest = (Fields.ofList fields).filter fun field => !declared.contains field.1 := by
  have left : values? (members.filter fun member => !declared.contains member.1) =
      some (fields.filter fun field => !declared.contains field.1) :=
    Rows.mapM_filter all fun member _ field found => by rw [(value_eq_some.mp found).1]
  obtain ⟨others, kept, rest_eq⟩ := Option.bind_eq_some_iff.mp read
  cases rest_eq
  rw [← Fields.ofList_filter fun name => !declared.contains name]
  exact congrArg _ (Option.some.inj (kept.symm.trans left))

theorem find?_others (read : others? members declared = some rest)
    (all : values? members = some fields) (undeclared : name ∉ declared) :
    Fields.find? rest name = Fields.find? (Fields.ofList fields) name := by
  rw [others?_eq read all, Fields.find?_filter_name fun name => !declared.contains name]
  exact if_pos (by simp [undeclared])

theorem exists_values? (others : others? members declared = some rest)
    (fields : ∀ name ∈ declared, ∃ found, field? members name = some found ∧ Readable found) :
    ∃ fields, values? members = some fields := by
  obtain ⟨kept, all, _⟩ := Option.bind_eq_some_iff.mp others
  refine Rows.exists_mapM_iff.mpr fun member among => ?_
  by_cases isDeclared : member.1 ∈ declared
  · obtain ⟨found, read, readable⟩ := fields member.1 isDeclared
    cases field?_of_mem read among
    obtain ⟨result, said⟩ := readable member.2 rfl
    exact ⟨(member.1, result), value_eq_some.mpr ⟨rfl, said⟩⟩
  · exact Rows.exists_mapM_iff.mp ⟨kept, all⟩ member
      (List.mem_filter.mpr ⟨among, by simpa using isDeclared⟩)

/-! ## Writing a record -/

def written (fields : List (String × Value)) : List (String × Raw) :=
  fields.map fun field => (field.1, field.2.toRaw)

theorem members?_toRaw (fields : List (String × Value)) :
    members? (Value.object fields).toRaw = some (written fields) := by
  rw [Value.toRaw, Value.fieldsToRaw_eq]
  exact Rows.mapM_map _ _ fun field _ => by simp

theorem field?_written (distinct : Fields.Distinct fields) :
    field? (written fields) name = some ((Fields.find? fields name).map Value.toRaw) := by
  have own : (written fields).filter (fun member => member.1 == name) =
      written (fields.filter fun field => field.1 == name) := List.filter_map
  unfold field?
  rw [own, distinct.filter_eq]
  cases Fields.find? fields name <;> rfl

/-- Declared fields in the order of their declaration, each at most once, and the kept ones. -/
structure Layout (declared : List String) (known rest : List (String × Value)) : Prop where
  names : (known.map (·.1)).Sublist declared
  nodup : declared.Nodup
  kept : Kept declared rest

namespace Layout

variable (layout : Layout declared known rest)

include layout

theorem declared_of_mem {field : String × Value} (among : field ∈ known) : field.1 ∈ declared :=
  layout.names.subset (List.mem_map_of_mem among)

theorem distinct : Fields.Distinct (known ++ rest) := by
  unfold Fields.Distinct
  rw [List.map_append]
  refine List.nodup_append.mpr
    ⟨layout.names.nodup layout.nodup, layout.kept.sorted.distinct, ?_⟩
  rintro name among _ other rfl
  obtain ⟨field, inside, rfl⟩ := List.mem_map.mp other
  exact layout.kept.undeclared field inside (layout.names.subset among)

theorem find?_eq : Fields.find? (known ++ rest) name =
    if name ∈ declared then Fields.find? known name else Fields.find? rest name := by
  rw [Fields.find?_append]
  split
  · rename_i isDeclared
    have absent : Fields.find? rest name = none := Fields.find?_eq_none fun field among same =>
      layout.kept.undeclared field among (same ▸ isDeclared)
    rw [absent, Option.or_none]
  · rename_i undeclared
    have absent : Fields.find? known name = none := Fields.find?_eq_none fun field among same =>
      undeclared (same ▸ layout.declared_of_mem among)
    rw [absent, Option.none_or]

theorem others?_written : others? (written (known ++ rest)) declared = some rest := by
  have left : (written (known ++ rest)).filter (fun member => !declared.contains member.1) =
      written rest := by
    have none : known.filter (fun field => !declared.contains field.1) = [] :=
      List.filter_eq_nil_iff.mpr fun field among => by simp [layout.declared_of_mem among]
    have all : rest.filter (fun field => !declared.contains field.1) = rest :=
      List.filter_eq_self.mpr fun field among => by simp [layout.kept.undeclared field among]
    rw [written, List.filter_map, List.filter_append]
    exact congrArg written (congrArg₂ (· ++ ·) none all)
  have all : values? (written rest) = some rest := by
    unfold values? written
    rw [Rows.mapM_map _ fun field => field, List.map_id']
    intro field among
    refine value_eq_some.mpr ⟨rfl, ?_⟩
    rw [Value.ofRaw?_toRaw (layout.kept.integral field among), layout.kept.ordered field among]
  unfold others?
  rw [left]
  refine Option.bind_eq_some_iff.mpr ⟨rest, all, ?_⟩
  rw [Fields.ofList_of_sorted layout.kept.sorted]
  rfl

/-- What a record says in order: each declared field's value in order, and the kept fields. -/
theorem inOrder_eq (sorted : Fields.Sorted fields)
    (ofDeclared : ∀ name ∈ declared,
      (Fields.find? known name).map Value.inOrder = Fields.find? fields name)
    (ofOthers : ∀ name ∉ declared, Fields.find? rest name = Fields.find? fields name) :
    (Value.object (known ++ rest)).inOrder = .object fields := by
  rw [Value.inOrder, Value.fieldsInOrder_eq, Fields.ofList_map]
  refine congrArg _ (((Fields.sorted_ofList _).map _).ext sorted fun name => ?_)
  rw [Fields.find?_map, Fields.find?_ofList_of_distinct layout.distinct, layout.find?_eq]
  split
  · exact ofDeclared name ‹_›
  · rw [← ofOthers name ‹_›]
    cases found : Fields.find? rest name with
    | none => rfl
    | some value =>
        exact congrArg some (layout.kept.ordered _ (Fields.mem_of_find? found))

theorem integral (ofKnown : ∀ field ∈ known, field.2.Integral) :
    (Value.object (known ++ rest)).Integral :=
  .object (List.forall_mem_append.mpr ⟨ofKnown, layout.kept.integral⟩)

end Layout

end Outpost.Json.Record
