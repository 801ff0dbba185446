import Outpost.Proofs.Url.Escapes

/-!
# Written authorities

An authority is written in characters none of which ends it: no blank, no control, no slash,
backslash, question mark or number sign.  A URL that begins with a written authority therefore
goes on where the authority stops.
-/

namespace Outpost.Url

def stands (char : Char) : Bool := 0x20 < char.toNat && !endsAuthority char

theorem stands_of_code : ∀ code ∈ codeChars, stands code = true :=
  Text.forall_mem_of_all (by decide)

/-! ## Domains -/

namespace Domain

theorem stands_of_allowed {char : Char} (allowed : isForbidden char = false) :
    stands char = true := by
  simp only [isForbidden, Bool.or_eq_false_iff, decide_eq_false_iff_not, Nat.not_le] at allowed
  obtain ⟨⟨visible, -⟩, unlisted⟩ := allowed
  simp at unlisted
  simp [stands, endsAuthority, isSlash, visible, unlisted]

end Domain

/-! ### Encoded labels -/

namespace Punycode

open Domain

theorem allowed_digitChar : ∀ digit < 36, isForbidden (digitChar digit) = false := by decide

theorem threshold_le (place bias : Nat) : threshold place bias ≤ 26 := by
  unfold threshold
  split
  · omega
  · split <;> omega

theorem allowed_encodeNumber (bias fuel place number : Nat) :
    ∀ char ∈ encodeNumber bias fuel place number, isForbidden char = false := by
  induction fuel generalizing place number with
  | zero => exact fun _ inside => nomatch inside
  | succ fuel ih =>
      have limit := threshold_le place bias
      unfold encodeNumber
      dsimp only
      split
      · simpa using allowed_digitChar number (by omega)
      · refine List.forall_mem_cons.mpr ⟨allowed_digitChar _ ?_, ih _ _⟩
        have := Nat.mod_lt (number - threshold place bias)
          (show 0 < 36 - threshold place bias by omega)
        omega

variable {label : List Char}

theorem allowed_encodePoint {basic point : Nat} {state : EncodeState} {char : Char}
    (h : ∀ letter ∈ state.output, isForbidden letter = false) :
    ∀ letter ∈ (encodePoint basic point state char).output, isForbidden letter = false := by
  intro letter inside
  unfold encodePoint at inside
  split at inside
  · exact h letter inside
  · split at inside
    · exact (List.mem_append.mp inside).elim (h letter) (allowed_encodeNumber _ _ _ _ letter)
    · exact h letter inside

theorem allowed_pass {basic point : Nat} (label : List Char) {state : EncodeState}
    (h : ∀ char ∈ state.output, isForbidden char = false) :
    ∀ char ∈ (label.foldl (encodePoint basic point) state).output, isForbidden char = false :=
  List.foldlRecOn label _
    (motive := fun state : EncodeState => ∀ char ∈ state.output, isForbidden char = false) h
    fun _ output _ _ => allowed_encodePoint output

theorem allowed_encode (allowed : ∀ char ∈ label, isForbidden char = false) :
    ∀ char ∈ encode label, isForbidden char = false := by
  have basic : ∀ char ∈ label.filter (fun char => char.toNat < 0x80),
      isForbidden char = false := fun char inside =>
    allowed char (List.mem_filter.mp inside).1
  unfold encode
  dsimp only
  refine List.foldlRecOn _ _
    (motive := fun state : EncodeState × Nat =>
      ∀ char ∈ state.1.output, isForbidden char = false) ?_
    fun state output point _ => allowed_pass label output
  refine List.forall_mem_append.mpr ⟨basic, ?_⟩
  split
  · exact fun _ inside => nomatch inside
  · exact Text.forall_mem_of_all (by decide)

end Punycode

namespace Domain

theorem mapM_option {first : Type} {second : Type} {f : first → Option second}
    {items : List first} {results : List second} (h : items.mapM f = some results) :
    ∀ result ∈ results, ∃ item ∈ items, f item = some result := by
  induction items generalizing results with
  | nil =>
      cases h
      exact fun _ inside => nomatch inside
  | cons item rest ih =>
      rw [List.mapM_cons] at h
      obtain ⟨result, found, h⟩ := Option.bind_eq_some_iff.mp h
      obtain ⟨others, later, h⟩ := Option.bind_eq_some_iff.mp h
      cases h
      refine List.forall_mem_cons.mpr ⟨⟨item, List.mem_cons_self, found⟩, fun other inside => ?_⟩
      obtain ⟨origin, among, yields⟩ := ih later other inside
      exact ⟨origin, List.mem_cons_of_mem _ among, yields⟩

variable [Mapping]

theorem allowed_mapped? {name mapped : List Char} (h : mapped? name = some mapped) :
    ∀ char ∈ mapped, isForbidden char = false := by
  simpa using (Option.filter_eq_some_iff.mp h).2

theorem allowed_label? {label written : List Char}
    (allowed : ∀ char ∈ label, isForbidden char = false) (h : label? label = some written) :
    ∀ char ∈ written, isForbidden char = false := by
  unfold label? at h
  split at h
  · have same : written = label := by
      split at h
      · split at h
        · split at h
          · exact (Option.some.inj h).symm
          · cases h
        · cases h
      · exact (Option.some.inj h).symm
    rw [same]
    exact allowed
  · cases h
    exact List.forall_mem_append.mpr
      ⟨Text.forall_mem_of_all (by decide), Punycode.allowed_encode allowed⟩

theorem allowed_normalize? {host domain : List Char} (h : normalize? host = some domain) :
    ∀ char ∈ domain, isForbidden char = false := by
  unfold normalize? at h
  obtain ⟨text, -, h⟩ := Option.bind_eq_some_iff.mp h
  obtain ⟨name, maps, h⟩ := Option.bind_eq_some_iff.mp h
  obtain ⟨labels, writes, h⟩ := Option.bind_eq_some_iff.mp h
  cases h
  intro char inside
  rcases Text.mem_intercalate inside with rfl | ⟨written, among, inside⟩
  · decide
  · obtain ⟨label, cut, writes⟩ := mapM_option writes written among
    refine allowed_label? (fun letter here => ?_) writes char inside
    by_cases dot : letter = '.'
    · rw [dot]
      decide
    · exact allowed_mapped? maps letter ((Text.mem_iff_of_splitOn '.' dot).mpr ⟨label, cut, here⟩)

end Domain

/-! ## Addresses -/

open Domain

theorem allowed_digit (value : Nat) : isForbidden value.digitChar = false := by
  fun_cases Nat.digitChar value <;> decide

theorem allowed_toDigits (base number : Nat) :
    ∀ char ∈ Nat.toDigits base number, isForbidden char = false := by
  have core : ∀ (fuel number : Nat) (digits : List Char),
      (∀ char ∈ digits, isForbidden char = false) →
      ∀ char ∈ Nat.toDigitsCore base fuel number digits, isForbidden char = false := by
    intro fuel
    induction fuel with
    | zero => exact fun _ _ h => h
    | succ fuel ih =>
        intro number digits h
        have more : ∀ char ∈ (number % base).digitChar :: digits, isForbidden char = false :=
          List.forall_mem_cons.mpr ⟨allowed_digit _, h⟩
        rw [Nat.toDigitsCore]
        split
        · exact more
        · exact ih _ _ more
  exact core _ _ _ fun _ inside => nomatch inside

theorem toList_toString (number : Nat) : (toString number).toList = Nat.toDigits 10 number := by
  rw [Nat.toString_eq_repr, Nat.repr, String.toList_ofList]

theorem allowed_toString (number : Nat) :
    ∀ char ∈ (toString number).toList, isForbidden char = false := by
  rw [toList_toString]
  exact allowed_toDigits 10 number

theorem forall_mem_intercalate {holds : Char → Prop} (mark : Char) (marks : holds mark)
    {texts : List String} (h : ∀ text ∈ texts, ∀ char ∈ text.toList, holds char) :
    ∀ char ∈ ((String.singleton mark).intercalate texts).toList, holds char := by
  intro char inside
  rw [String.toList_intercalate, String.toList_singleton] at inside
  rcases Text.mem_intercalate inside with rfl | ⟨piece, among, inside⟩
  · exact marks
  · obtain ⟨text, member, rfl⟩ := List.mem_map.mp among
    exact h text member char inside

theorem IPv4.allowed_render (address : Nat) :
    ∀ char ∈ (IPv4.render address).toList, isForbidden char = false := by
  refine forall_mem_intercalate '.' (by decide) fun text among => ?_
  simp only [List.mem_cons, List.not_mem_nil, or_false] at among
  rcases among with rfl | rfl | rfl | rfl <;> exact allowed_toString _

theorem IPv6.allowed_render (pieces : List Nat) :
    ∀ char ∈ (IPv6.render pieces).toList, isForbidden char = false ∨ char = ':' := by
  have joined : ∀ pieces : List Nat, ∀ char ∈ (":".intercalate (pieces.map IPv6.hex)).toList,
      isForbidden char = false ∨ char = ':' := by
    intro pieces
    refine forall_mem_intercalate ':' (.inr rfl) fun text among => ?_
    obtain ⟨piece, -, rfl⟩ := List.mem_map.mp among
    rw [IPv6.hex, String.toList_ofList]
    exact fun char inside => .inl (allowed_toDigits 16 piece char inside)
  unfold IPv6.render
  split
  · exact joined pieces
  · rw [String.toList_append, String.toList_append]
    exact List.forall_mem_append.mpr
      ⟨List.forall_mem_append.mpr ⟨joined _, by simp⟩, joined _⟩

/-! ## Authorities -/

inductive HostText : List Char → Prop where
  | plain (text : List Char) (filled : text ≠ [])
      (allowed : ∀ char ∈ text, isForbidden char = false) : HostText text
  | bracketed (inner : List Char)
      (allowed : ∀ char ∈ inner, isForbidden char = false ∨ char = ':') :
      HostText ('[' :: (inner ++ [']']))

theorem Host.text_of_parseHost [Mapping] {chars : List Char} {host : Host}
    (h : parseHost chars = .ok host) : HostText host.render.toList := by
  unfold parseHost at h
  split at h
  · cases h
  · unfold bracketed? at h
    split at h
    · split at h
      · cases h
        rw [Host.render, String.toList_append, String.toList_append]
        exact .bracketed _ (IPv6.allowed_render _)
      · cases h
    · cases h
  · split at h
    · cases h
    · cases h
    · rename_i domain written filled
      split at h
      · split at h
        · cases h
          exact .plain _ (by simp [Host.render, IPv4.render]) (IPv4.allowed_render _)
        · cases h
      · cases h
        rw [Host.render, String.toList_ofList]
        exact .plain _ (fun empty => written (by rw [empty])) (allowed_normalize? ‹_›)

namespace HostText

variable {text : List Char}

theorem filled (h : HostText text) : text ≠ [] := by
  cases h with
  | plain _ filled => exact filled
  | bracketed => exact List.cons_ne_nil _ _

theorem stands (h : HostText text) : ∀ char ∈ text, stands char = true := by
  cases h with
  | plain _ _ allowed => exact fun char inside => stands_of_allowed (allowed char inside)
  | bracketed inner allowed =>
      refine List.forall_mem_cons.mpr ⟨by decide, List.forall_mem_append.mpr
        ⟨?_, List.forall_mem_singleton.mpr (by decide)⟩⟩
      intro char inside
      rcases allowed char inside with allowed | rfl
      · exact stands_of_allowed allowed
      · decide

end HostText

theorem stands_of_unescaped {char : Char} (kept : escapesInUserInfo char = false) :
    stands char = true := by
  simp only [escapesInUserInfo, escapesInPath, escapesInFragment, isControl,
    Bool.or_eq_false_iff, decide_eq_false_iff_not, Nat.not_lt] at kept
  obtain ⟨⟨⟨⟨visible, -⟩, unquoted⟩, unlisted⟩, other⟩ := kept
  simp at unquoted unlisted other
  have blank : char.toNat ≠ 0x20 := fun same => unquoted.1 (Char.toNat_inj.mp same)
  have visible : 0x20 < char.toNat := by omega
  simp [stands, endsAuthority, isSlash, visible, unlisted, other]

theorem stands_escape (chars : List Char) :
    ∀ char ∈ (escape escapesInUserInfo chars).toList, stands char = true := by
  intro char inside
  rcases mem_escape inside with ⟨-, kept⟩ | code
  · exact stands_of_unescaped kept
  · exact stands_of_code char code

theorem UserInfo.stands_render {chars : List Char} {info : UserInfo}
    (h : userInfo? chars = some info) : ∀ char ∈ info.render.toList, stands char = true := by
  obtain ⟨-, h⟩ := Option.ite_none_left_eq_some.mp h
  cases h
  simp only [UserInfo.render, String.toList_append, List.forall_mem_append]
  refine ⟨⟨stands_escape _, ?_⟩, Text.forall_mem_of_all (by decide)⟩
  split
  · exact fun _ inside => nomatch inside
  · rename_i password given
    split at given
    · cases given
      rw [String.toList_append]
      exact List.forall_mem_append.mpr ⟨Text.forall_mem_of_all (by decide), stands_escape _⟩
    · cases given

/-- What is known of the parts of an authority that was read. -/
structure Authority.IsRead [Mapping] (scheme : Scheme) (authority : Authority) : Prop where
  userInfo : ∀ info ∈ authority.userInfo, ∃ chars, userInfo? chars = some info
  host : ∃ chars, parseHost chars = .ok authority.host
  port : ∀ number ∈ authority.port, number < 65536 ∧ number ≠ scheme.defaultPort

theorem port_of_parsePort {chars : List Char} {port : Option Nat}
    (h : parsePort chars = .ok port) : ∀ number ∈ port, number < 65536 := by
  unfold parsePort at h
  split at h
  · cases h
    exact fun _ given => nomatch given
  · cases h
    exact fun _ given => nomatch given
  · split at h
    · split at h
      · cases h
        rintro _ ⟨⟩
        assumption
      · cases h
    · cases h

theorem Authority.isRead_of_parse [Mapping] {scheme : Scheme} {chars : List Char}
    {authority : Authority}
    (h : parseAuthority scheme chars = .ok authority) : authority.IsRead scheme := by
  unfold parseAuthority at h
  dsimp only at h
  cases named : parseHost (splitPort false (splitUserInfo chars).2).1 with
  | error => rw [named] at h; cases h
  | ok host =>
      cases numbered : parsePort (splitPort false (splitUserInfo chars).2).2 with
      | error => rw [named, numbered] at h; cases h
      | ok port =>
          rw [named, numbered] at h
          cases h
          refine ⟨fun info given => ?_, ⟨_, named⟩, fun number given => ?_⟩
          · obtain ⟨text, -, given⟩ := Option.bind_eq_some_iff.mp given
            exact ⟨text, given⟩
          · obtain ⟨given, other⟩ := Option.filter_eq_some_iff.mp given
            exact ⟨port_of_parsePort numbered number given, by simpa using other⟩

/-- An authority that was read is written in characters that do not end it. -/
theorem Authority.render_of_parse [Mapping] {scheme : Scheme} {chars : List Char}
    {authority : Authority}
    (h : parseAuthority scheme chars = .ok authority) :
    authority.render.toList ≠ [] ∧ ∀ char ∈ authority.render.toList, stands char = true := by
  have read := isRead_of_parse h
  obtain ⟨text, named⟩ := read.host
  have written := Host.text_of_parseHost named
  simp only [Authority.render, String.toList_append, List.forall_mem_append]
  refine ⟨by simp [written.filled], ⟨?_, written.stands⟩, ?_⟩
  · split
    · exact fun _ inside => nomatch inside
    · obtain ⟨text, given⟩ := read.userInfo _ ‹_›
      exact UserInfo.stands_render given
  · split
    · exact fun _ inside => nomatch inside
    · rw [String.toList_append]
      exact List.forall_mem_append.mpr ⟨Text.forall_mem_of_all (by decide),
        fun char inside => stands_of_allowed (allowed_toString _ char inside)⟩

end Outpost.Url
