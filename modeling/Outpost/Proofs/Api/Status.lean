import Outpost.Api.Status
import Outpost.Proofs.Json.Records

/-!
# Status objects are read back

A status that is written as its object is read back as it was.  The parts of its details that are
empty are not written, and are empty again when they are missing.
-/

namespace Outpost.Api

open Bytes Json

/-! ## Details -/

namespace StatusDetails

variable {details : StatusDetails} {row : List (String × String)} {name text : String}

def texts (row : List (String × String)) : List (String × Value) :=
  (row.filter (·.2 ≠ "")).map fun part => (part.1, .string part.2)

theorem distinct_texts (distinct : Fields.Distinct row) : Fields.Distinct (texts row) :=
  (distinct.filter _).map Value.string

theorem find?_texts (distinct : Fields.Distinct row) : Fields.find? (texts row) name =
    ((Fields.find? row name).filter (· ≠ "")).map .string := by
  unfold texts
  rw [Fields.find?_map, distinct.find?_filter]

theorem integral_texts : (Value.object (texts row)).Integral :=
  .object (List.forall_mem_map.mpr fun _ _ => .string _)

theorem depth_texts : (Value.object (texts row)).toRaw.depth ≤ 1 :=
  Value.depth_object_le Nat.one_pos (List.forall_mem_map.mpr fun _ _ => Nat.one_pos)

theorem textOr_texts (distinct : Fields.Distinct row) (has : Fields.find? row name = some text) :
    Record.textOr "" ((Fields.find? (texts row) name).map Value.toRaw) = some text := by
  rw [find?_texts distinct, has]
  by_cases empty : text = ""
  · cases empty
    rfl
  · rw [Option.filter_some, if_pos (decide_eq_true empty)]
    exact Quoted.text?_escape text

def declared (details : StatusDetails) : List (String × String) :=
  [("name", details.name), ("group", details.group), ("kind", details.kind)]

def ordered (details : StatusDetails) : List (String × String) :=
  [("group", details.group), ("kind", details.kind), ("name", details.name)]

theorem distinct_declared : Fields.Distinct details.declared := by
  simp [Fields.Distinct, declared]

theorem sorted_ordered : Fields.Sorted details.ordered := by
  have kinds : "group" < "kind" := by decide +kernel
  have names : "kind" < "name" := by decide +kernel
  refine .cons ?_ (.cons ?_ (List.pairwise_singleton _ _))
  · exact List.forall_mem_cons.mpr
      ⟨kinds, List.forall_mem_singleton.mpr (String.lt_trans kinds names)⟩
  · exact List.forall_mem_singleton.mpr names

theorem find?_ordered : Fields.find? details.ordered name = Fields.find? details.declared name := by
  have same : ∀ field, field ∈ details.ordered ↔ field ∈ details.declared := by
    intro field
    simp only [ordered, declared, List.mem_cons, List.not_mem_nil, or_false]
    tauto
  ext text
  rw [sorted_ordered.find?_eq_some_iff, distinct_declared.find?_eq_some_iff, same]

theorem detailsValue_eq : Status.detailsValue details = .object (texts details.declared) := by
  unfold Status.detailsValue texts declared
  by_cases name : details.name = "" <;> by_cases group : details.group = "" <;>
    by_cases kind : details.kind = "" <;> simp [name, group, kind]

theorem inOrder_detailsValue :
    (Status.detailsValue details).inOrder = .object (texts details.ordered) := by
  have unchanged : (texts details.declared).map (fun field => (field.1, field.2.inOrder)) =
      texts details.declared := by
    unfold texts
    rw [List.map_map]
    exact List.map_congr_left fun _ _ => by simp [Value.inOrder]
  have sorted : Fields.Sorted (texts details.ordered) := (sorted_ordered.filter _).map Value.string
  rw [detailsValue_eq, Value.inOrder, Value.fieldsInOrder_eq, unchanged]
  refine congrArg _ ((Fields.sorted_ofList _).ext sorted fun name => ?_)
  rw [Fields.find?_ofList_of_distinct (distinct_texts distinct_declared),
    find?_texts distinct_declared, find?_texts sorted_ordered.distinct, find?_ordered]

example : (Status.detailsValue ⟨"web", "", "pods"⟩).inOrder =
    .object [("kind", .string "pods"), ("name", .string "web")] := inOrder_detailsValue

theorem detailsOfRaw?_toRaw :
    Status.detailsOfRaw? (Status.detailsValue details).toRaw = some details := by
  have part (name : String) : Record.field? (Record.written (texts details.declared)) name =
      some ((Fields.find? (texts details.declared) name).map Value.toRaw) :=
    Record.field?_written (distinct_texts distinct_declared)
  have name : Fields.find? details.declared "name" = some details.name := rfl
  have group : Fields.find? details.declared "group" = some details.group := rfl
  have kind : Fields.find? details.declared "kind" = some details.kind := rfl
  have members := Record.members?_toRaw (texts details.declared)
  rw [detailsValue_eq]
  rw [Value.toRaw] at members ⊢
  rw [Status.detailsOfRaw?, members]
  · simp [part, textOr_texts distinct_declared name, textOr_texts distinct_declared group,
      textOr_texts distinct_declared kind]
  · intro parts same
    cases same

end StatusDetails

/-! ## The object -/

namespace Status

variable {status : Status} {details : StatusDetails}

def fields (status : Status) : List (String × Value) :=
  [("kind", .string status.kind), ("apiVersion", .string status.apiVersion),
    ("metadata", .object status.metadata), ("status", .string status.status),
    ("message", .string status.message), ("reason", .string status.reason.name)] ++
  status.details.toList.map (fun details => ("details", detailsValue details)) ++
  [("code", .number (.integer status.code.toNat))]

theorem toValue_eq : status.toValue = .object status.fields := by
  unfold toValue fields
  cases status.details <;> rfl

theorem distinct_fields : Fields.Distinct status.fields := by
  unfold fields
  cases status.details <;> simp [Fields.Distinct]

theorem find?_fields_details :
    Fields.find? status.fields "details" = status.details.map detailsValue := by
  unfold fields
  cases status.details <;> rfl

theorem find?_fields_code :
    Fields.find? status.fields "code" = some (.number (.integer status.code.toNat)) := by
  unfold fields
  cases status.details <;> rfl

structure WellFormed (status : Status) : Prop where
  integral : (Value.object status.metadata).Integral
  ordered : (Value.object status.metadata).inOrder = .object status.metadata
  shallow : (Value.object status.metadata).toRaw.depth < maxDepth

theorem wellFormed_failure (code : Http.StatusCode) (reason : StatusReason) (message : String) :
    (failure code reason message).WellFormed where
  integral := .object (List.forall_mem_nil _)
  ordered := rfl
  shallow := show 1 < maxDepth by decide

theorem WellFormed.withDetails (wellFormed : status.WellFormed) (details : StatusDetails) :
    (status.withDetails details).WellFormed := ⟨wellFormed.1, wellFormed.2, wellFormed.3⟩

theorem fits_code (code : Http.StatusCode) : Fits code.toNat := by
  have := code.toNat_lt
  unfold Fits
  omega

theorem forall_fields {motive : Value → Prop} (string : ∀ text, motive (.string text))
    (metadata : motive (.object status.metadata))
    (details : ∀ details, motive (detailsValue details))
    (code : motive (.number (.integer status.code.toNat))) :
    ∀ field ∈ status.fields, motive field.2 := by
  unfold fields
  cases status.details <;>
    simp [string, metadata, details, code]

theorem WellFormed.integral_toValue (wellFormed : status.WellFormed) :
    status.toValue.Integral := by
  rw [toValue_eq]
  refine .object (forall_fields .string wellFormed.integral (fun details => ?_)
    (.number (fits_code _)))
  rw [StatusDetails.detailsValue_eq]
  exact StatusDetails.integral_texts

theorem WellFormed.shallow_toValue (wellFormed : status.WellFormed) :
    status.toValue.toRaw.depth ≤ maxDepth := by
  rw [toValue_eq]
  refine Value.depth_object_le (by decide) (forall_fields (motive := fun value =>
    value.toRaw.depth < maxDepth) (fun _ => Nat.succ_pos _) wellFormed.shallow (fun details => ?_)
    (Nat.succ_pos _))
  rw [StatusDetails.detailsValue_eq]
  exact Nat.lt_of_le_of_lt StatusDetails.depth_texts (by decide)

/-! ## Reading it back -/

theorem text?_toRaw (text : String) : Record.text? (Value.string text).toRaw = some text :=
  Quoted.text?_escape text

theorem reasonOfRaw?_toRaw (reason : StatusReason) :
    reasonOfRaw? (Value.string reason.name).toRaw = some reason := by
  have name : Record.choice? (Value.string reason.name).toRaw = some reason.name :=
    Quoted.text?_escape reason.name
  rw [reasonOfRaw?, name]
  exact StatusReason.ofName?_name reason

theorem codeOfRaw?_toRaw (code : Http.StatusCode) :
    codeOfRaw? (Value.number (.integer code.toNat)).toRaw = some code := by
  have range : (0 : Int) ≤ code.toNat ∧ (code.toNat : Int) < 65536 := by
    have := code.toNat_lt
    omega
  rw [Value.toRaw, Num.text, codeOfRaw?, Num.ofText?_ofInt (fits_code code)]
  simp only [if_pos range, Int.toNat_natCast]
  exact congrArg some (UInt16.ofNat_toNat)

theorem WellFormed.metadataOfRaw?_toRaw (wellFormed : status.WellFormed) :
    metadataOfRaw? (Value.object status.metadata).toRaw = some status.metadata := by
  rw [metadataOfRaw?, if_pos (Nat.succ_le_of_lt wellFormed.shallow),
    Value.ofRaw?_toRaw wellFormed.integral, wellFormed.ordered]

theorem optionalDetails?_toRaw (details : Option StatusDetails) :
    optionalDetails? ((details.map detailsValue).map Value.toRaw) = some details := by
  cases details with
  | none => rfl
  | some details =>
      have read : detailsOfRaw? (detailsValue details).toRaw = some details :=
        StatusDetails.detailsOfRaw?_toRaw
      rw [StatusDetails.detailsValue_eq, Value.toRaw] at read
      rw [Option.map_some, StatusDetails.detailsValue_eq, Option.map_some, Value.toRaw]
      exact congrArg (Option.map some) read

theorem WellFormed.ofRaw?_toRaw (wellFormed : status.WellFormed) :
    ofRaw? status.toValue.toRaw = some status := by
  have part (name : String) : Record.field? (Record.written status.fields) name =
      some ((Fields.find? status.fields name).map Value.toRaw) :=
    Record.field?_written distinct_fields
  have required (name : String) {value : Value}
      (has : Fields.find? status.fields name = some value) :
      Record.required? (Record.written status.fields) name = some value.toRaw := by
    rw [Record.required?, part, has]
    rfl
  have members := Record.members?_toRaw status.fields
  rw [toValue_eq]
  rw [Value.toRaw] at members ⊢
  rw [ofRaw?, members]
  · simp only [Option.bind_eq_bind, Option.bind_some, part, find?_fields_details,
      required "kind" rfl, required "apiVersion" rfl, required "metadata" rfl,
      required "status" rfl, required "message" rfl, required "reason" rfl,
      required "code" find?_fields_code]
    simp only [ofParts?, text?_toRaw, wellFormed.metadataOfRaw?_toRaw, reasonOfRaw?_toRaw,
      optionalDetails?_toRaw, codeOfRaw?_toRaw]
    rfl
  · intro _ _ _ _ _ _ _ _ same
    cases same

theorem WellFormed.decode?_encode (wellFormed : status.WellFormed) :
    decode? status.encode = some status := by
  rw [decode?, encode, Value.raw_parse?_render wellFormed.integral_toValue]
  exact wellFormed.ofRaw?_toRaw

theorem WellFormed.find?_details (wellFormed : status.WellFormed) :
    ∃ fields, Value.parse? status.encode = some (.object fields) ∧
      Fields.find? fields "details" =
        status.details.map fun details => .object (StatusDetails.texts details.ordered) := by
  refine ⟨Fields.ofList (Value.fieldsInOrder status.fields), ?_, ?_⟩
  · rw [encode, Value.parse?_render wellFormed.integral_toValue wellFormed.shallow_toValue,
      toValue_eq, Value.inOrder]
  rw [Value.fieldsInOrder_eq, Fields.ofList_map, Fields.find?_map,
    Fields.find?_ofList_of_distinct distinct_fields, find?_fields_details, Option.map_map]
  exact congrArg (Option.map · _) (funext fun details => StatusDetails.inOrder_detailsValue)

end Status

end Outpost.Api
