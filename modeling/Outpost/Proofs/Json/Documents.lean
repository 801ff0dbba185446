import Outpost.Proofs.Json.Tokens

/-!
# Documents are read back

A document whose numbers and strings can be read back is read back as a whole.  Its tokens are
found in what is written for it, and taken one by one they build the document again.
-/

namespace Outpost.Json

open Bytes

@[elab_as_elim, induction_eliminator]
theorem Raw.nested {motive : Raw → Prop} (null : motive .null)
    (bool : ∀ value, motive (.bool value)) (number : ∀ text, motive (.number text))
    (string : ∀ body, motive (.string body))
    (array : ∀ items, (∀ item ∈ items, motive item) → motive (.array items))
    (object : ∀ members, (∀ member ∈ members, motive member.2) → motive (.object members))
    (document : Raw) : motive document :=
  match document with
  | .null => null
  | .bool value => bool value
  | .number text => number text
  | .string body => string body
  | .array items => array items fun item _ =>
      nested null bool number string array object item
  | .object members => object members fun member _ =>
      nested null bool number string array object member.2
termination_by sizeOf document
decreasing_by
  · simp only [Raw.array.sizeOf_spec]
    have := List.sizeOf_lt_of_mem ‹_ ∈ _›
    omega
  · obtain ⟨key, value⟩ := member
    have := List.sizeOf_lt_of_mem ‹_ ∈ _›
    simp only [Raw.object.sizeOf_spec, Prod.mk.sizeOf_spec] at this ⊢
    omega

variable {token : Token} {tokens front back : List Token} {rest : Bytes} {document : Raw}

/-! ## What holds of every token -/

namespace Raw

variable {property : Token → Prop}

theorem forall_itemTokens {items : List Raw} (comma : property .comma) :
    (∀ token ∈ itemTokens items, property token) ↔
      ∀ item ∈ items, ∀ token ∈ item.tokens, property token := by
  induction items with
  | nil => simp [itemTokens]
  | cons item items ih =>
      cases items with
      | nil => simp [itemTokens]
      | cons next items =>
          rw [itemTokens, List.forall_mem_append, List.forall_mem_cons, ih]
          · simp [comma]
          · nofun

theorem forall_memberTokens {members : List (Bytes × Raw)} (comma : property .comma)
    (colon : property .colon) :
    (∀ token ∈ memberTokens members, property token) ↔
      ∀ member ∈ members,
        property (.string member.1) ∧ ∀ token ∈ member.2.tokens, property token := by
  induction members with
  | nil => simp [memberTokens]
  | cons member members ih =>
      obtain ⟨key, value⟩ := member
      cases members with
      | nil => simp [memberTokens, colon]
      | cons next members =>
          rw [memberTokens, List.cons_append, List.cons_append, List.forall_mem_cons,
            List.forall_mem_cons, List.forall_mem_append, List.forall_mem_cons, ih,
            List.forall_mem_cons]
          · simp [comma, colon, and_assoc]
          · nofun

theorem forall_tokens_array {items : List Raw} (comma : property .comma)
    (openArray : property .openArray) (closeArray : property .closeArray) :
    (∀ token ∈ (array items).tokens, property token) ↔
      ∀ item ∈ items, ∀ token ∈ item.tokens, property token := by
  rw [tokens, List.cons_append, List.forall_mem_cons, List.forall_mem_append,
    List.forall_mem_singleton, forall_itemTokens comma]
  exact (and_iff_right openArray).trans (and_iff_left closeArray)

theorem forall_tokens_object {members : List (Bytes × Raw)} (comma : property .comma)
    (colon : property .colon) (openObject : property .openObject)
    (closeObject : property .closeObject) :
    (∀ token ∈ (object members).tokens, property token) ↔
      ∀ member ∈ members,
        property (.string member.1) ∧ ∀ token ∈ member.2.tokens, property token := by
  rw [tokens, List.cons_append, List.forall_mem_cons, List.forall_mem_append,
    List.forall_mem_singleton, forall_memberTokens comma colon]
  exact (and_iff_right openObject).trans (and_iff_left closeObject)

end Raw

/-! ## Finding the tokens -/

/-- The tokens are found in what is written for them, in front of `rest`. -/
def Found (tokens : List Token) (rest : Bytes) : Prop :=
  tokens? (tokens.flatMap Token.render ++ rest) = (tokens? rest).map (tokens ++ ·)

namespace Found

theorem nil (rest : Bytes) : Found [] rest := by
  unfold Found
  simp

theorem cons (wellFormed : token.WellFormed)
    (leaves : token.Leaves (tokens.flatMap Token.render ++ rest)) (found : Found tokens rest) :
    Found (token :: tokens) rest := by
  unfold Found at found ⊢
  rw [List.flatMap_cons, List.append_assoc, tokens?_render wellFormed leaves, found,
    Option.map_map]
  rfl

theorem append (first : Found front (back.flatMap Token.render ++ rest))
    (second : Found back rest) : Found (front ++ back) rest := by
  unfold Found at first second ⊢
  rw [List.flatMap_append, List.append_assoc, first, second, Option.map_map]
  simp only [Function.comp_def, List.append_assoc]

end Found

def Raw.WellFormed (document : Raw) : Prop := ∀ token ∈ document.tokens, token.WellFormed

namespace Raw

def IsFound (document : Raw) : Prop := ∀ rest, EndsNumber rest → Found document.tokens rest

theorem found_items {items : List Raw} (each : ∀ item ∈ items, item.IsFound)
    (ends : EndsNumber rest) : Found (itemTokens items) rest := by
  induction items with
  | nil => exact .nil rest
  | cons item items ih =>
      obtain ⟨first, others⟩ := List.forall_mem_cons.mp each
      cases items with
      | nil => exact first rest ends
      | cons next items => exact .append (first _ (.cons rfl)) (.cons trivial trivial (ih others))

theorem found_members {members : List (Bytes × Raw)}
    (each : ∀ member ∈ members, (Token.string member.1).WellFormed ∧ member.2.IsFound)
    (ends : EndsNumber rest) : Found (memberTokens members) rest := by
  induction members with
  | nil => exact .nil rest
  | cons member members ih =>
      obtain ⟨key, value⟩ := member
      obtain ⟨⟨name, first⟩, others⟩ := List.forall_mem_cons.mp each
      cases members with
      | nil => exact .cons name trivial (.cons trivial trivial (first rest ends))
      | cons next members =>
          exact .cons name trivial (.cons trivial trivial
            (.append (first _ (.cons rfl)) (.cons trivial trivial (ih others))))

theorem isFound (wellFormed : document.WellFormed) : document.IsFound := by
  induction document with
  | null => exact fun rest _ => .cons trivial trivial (.nil rest)
  | bool value => exact fun rest _ => .cons trivial trivial (.nil rest)
  | number text => exact fun rest ends => .cons (wellFormed _ List.mem_cons_self) ends (.nil rest)
  | string body =>
      exact fun rest _ => .cons (wellFormed _ List.mem_cons_self) trivial (.nil rest)
  | array items each =>
      intro rest _
      have inside := (forall_tokens_array trivial trivial trivial).mp wellFormed
      have found : Found (itemTokens items) (0x5D :: rest) :=
        found_items (fun item among => each item among (inside item among)) (.cons rfl)
      exact .cons trivial trivial (.append found (.cons trivial trivial (.nil rest)))
  | object members each =>
      intro rest _
      have inside := (forall_tokens_object trivial trivial trivial trivial).mp wellFormed
      have found : Found (memberTokens members) (0x7D :: rest) :=
        found_members (fun member among =>
          ⟨(inside member among).1, each member among (inside member among).2⟩) (.cons rfl)
      exact .cons trivial trivial (.append found (.cons trivial trivial (.nil rest)))

theorem tokens?_render (wellFormed : document.WellFormed) :
    tokens? document.render = some document.tokens := by
  have found := isFound wellFormed [] .nil
  unfold Found at found
  rw [List.append_nil, tokens?_nil, Option.map_some, List.append_nil] at found
  exact found

end Raw

/-! ## Building the document -/

namespace Reader

variable {stack : List Frame} {done : List Raw}

/-- Reading the tokens of the document completes it. -/
def Builds (document : Raw) : Prop :=
  ∀ stack rest, (document.tokens ++ rest).foldlM step (awaitValue stack) =
    rest.foldlM step (complete document stack)

theorem begins (document : Raw) :
    ∃ first others, document.tokens = first :: others ∧ first ≠ .closeArray := by
  cases document <;> exact ⟨_, _, rfl, nofun⟩

theorem begins_items (item : Raw) (items : List Raw) :
    ∃ first others, Raw.itemTokens (item :: items) = first :: others ∧ first ≠ .closeArray := by
  obtain ⟨first, others, starts, other⟩ := begins item
  cases items with
  | nil => exact ⟨first, others, starts, other⟩
  | cons next items =>
      refine ⟨first, others ++ .comma :: Raw.itemTokens (next :: items), ?_, other⟩
      rw [Raw.itemTokens, starts, List.cons_append]
      nofun

theorem step_awaitFirstItem (other : token ≠ .closeArray) :
    step (awaitFirstItem stack) token = step (awaitValue (.items [] :: stack)) token := by
  cases token <;> first | rfl | exact absurd rfl other

theorem build_items {items : List Raw} (each : ∀ item ∈ items, Builds item) {item : Raw}
    (first : Builds item) (done : List Raw) (stack : List Frame) (rest : List Token) :
    (Raw.itemTokens (item :: items) ++ .closeArray :: rest).foldlM step
        (awaitValue (.items done :: stack)) =
      rest.foldlM step (complete (.array (done.reverse ++ item :: items)) stack) := by
  induction items generalizing item done with
  | nil =>
      rw [Raw.itemTokens, first, ← List.reverse_cons]
      rfl
  | cons next items ih =>
      obtain ⟨second, others⟩ := List.forall_mem_cons.mp each
      have behind := ih others second (item :: done)
      rw [List.reverse_cons, List.append_assoc] at behind
      rw [Raw.itemTokens, List.append_assoc, first]
      · exact behind
      · nofun

theorem build_members {members : List (Bytes × Raw)} (each : ∀ member ∈ members, Builds member.2)
    (key : Bytes) {value : Raw} (first : Builds value) (isFirst : Bool)
    (done : List (Bytes × Raw)) (stack : List Frame) (rest : List Token) :
    (Raw.memberTokens ((key, value) :: members) ++ .closeObject :: rest).foldlM step
        (awaitKey isFirst done stack) =
      rest.foldlM step (complete (.object (done.reverse ++ (key, value) :: members)) stack) := by
  induction members generalizing key value done isFirst with
  | nil =>
      have built := first (.members done key :: stack) (.closeObject :: rest)
      rw [← List.reverse_cons]
      cases isFirst <;> exact built
  | cons next members ih =>
      obtain ⟨nextKey, next⟩ := next
      obtain ⟨second, others⟩ := List.forall_mem_cons.mp each
      have behind := ih others nextKey second false ((key, value) :: done)
      have built := first (.members done key :: stack)
        (.comma :: Raw.memberTokens ((nextKey, next) :: members) ++ .closeObject :: rest)
      rw [List.reverse_cons, List.append_assoc] at behind
      rw [Raw.memberTokens, List.append_assoc]
      · cases isFirst <;> exact built.trans behind
      · nofun

theorem builds (document : Raw) : Builds document := by
  intro stack rest
  induction document generalizing stack rest with
  | null => rfl
  | bool value => rfl
  | number text => rfl
  | string body => rfl
  | array items each =>
      cases items with
      | nil => rfl
      | cons item items =>
          obtain ⟨first, others⟩ := List.forall_mem_cons.mp each
          have built := build_items others first [] stack rest
          obtain ⟨token, more, starts, other⟩ := begins_items item items
          rw [Raw.tokens, List.cons_append, List.cons_append, List.append_assoc]
          rw [starts] at built ⊢
          exact (congrArg (Option.bind · _) (step_awaitFirstItem other)).trans built
  | object members each =>
      cases members with
      | nil => rfl
      | cons member members =>
          obtain ⟨first, others⟩ := List.forall_mem_cons.mp each
          have built := build_members others member.1 first true [] stack rest
          simpa [Raw.tokens, step, begin] using built

end Reader

theorem Raw.parse?_render (wellFormed : document.WellFormed) :
    Raw.parse? document.render = some document := by
  have built := Reader.builds document [] []
  rw [List.append_nil] at built
  unfold parse?
  rw [tokens?_render wellFormed, Option.bind_eq_bind, Option.bind_some, built]
  rfl

end Outpost.Json
