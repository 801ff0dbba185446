import Outpost.Proofs.Text
import Outpost.Proofs.Url.Authorities

/-!
# Authorities read again

An authority that was read is written so that it reads as the same authority, provided that its
host does: the at sign and the colon that are written between its parts are the ones where it is
cut again, whatever the user information holds.
-/

namespace Outpost.Url

/-! ## User information -/

section UserInformation

variable {chars front back : List Char} {escapes : Char → Bool}

theorem escape_escape (uncoded : ∀ code ∈ codeChars, escapes code = false) (chars : List Char) :
    escape escapes (escape escapes chars).toList = escape escapes chars := by
  rw [escape_eq_self, String.ofList_toList]
  intro char inside
  rcases mem_escape inside with ⟨-, kept⟩ | code
  · exact kept
  · exact uncoded char code

theorem not_mem_escape {char : Char} (escaped : escapes char = true) (other : char ∉ codeChars) :
    char ∉ (escape escapes chars).toList := fun inside => by
  rcases mem_escape inside with ⟨-, kept⟩ | code
  · exact absurd (kept.symm.trans escaped) (by decide)
  · exact other code

theorem escape_ne_empty (filled : chars ≠ []) : escape escapes chars ≠ "" := fun empty => by
  have written := congrArg String.toList empty
  rw [toList_escape, String.toList_empty] at written
  exact filled (flatMap_coded_eq_nil.mp written)

theorem splitUserInfo_of_not_mem (plain : '@' ∉ chars) : splitUserInfo chars = (none, chars) := by
  have plain : '@' ∉ chars.reverse := fun inside => plain (List.mem_reverse.mp inside)
  unfold splitUserInfo
  dsimp only
  rw [(Text.uncut plain).2]

theorem splitUserInfo_append (plain : '@' ∉ back) (front : List Char) :
    splitUserInfo (front ++ '@' :: back) = (some front, back) := by
  have plain : '@' ∉ back.reverse := fun inside => plain (List.mem_reverse.mp inside)
  have reversed : (front ++ '@' :: back).reverse = back.reverse ++ '@' :: front.reverse := by simp
  obtain ⟨after, before⟩ := Text.cut_at plain front.reverse
  unfold splitUserInfo
  dsimp only
  rw [reversed, before, after]
  dsimp only
  rw [List.reverse_reverse, List.reverse_reverse]

def UserInfo.text (info : UserInfo) : String :=
  info.user ++ match info.password with
    | none => ""
    | some password => ":" ++ password

theorem userInfo?_text {info : UserInfo} (h : userInfo? chars = some info) :
    userInfo? info.text.toList = some info := by
  have uncoded : ∀ code ∈ codeChars, escapesInUserInfo code = false :=
    Text.forall_mem_of_all (by decide)
  have uncut : ∀ part, ':' ∉ (escape escapesInUserInfo part).toList := fun part =>
    not_mem_escape (by decide) (by decide)
  obtain ⟨kept, h⟩ := Option.ite_none_left_eq_some.mp h
  generalize chars.takeWhile (· ≠ ':') = name at kept h
  cases h
  unfold UserInfo.text
  split at kept <;> dsimp only
  · rename_i first rest _
    obtain ⟨before, behind⟩ := Text.cut_at (uncut name)
      (escape escapesInUserInfo (first :: rest)).toList
    have written : (escape escapesInUserInfo name ++
        (":" ++ escape escapesInUserInfo (first :: rest))).toList =
        (escape escapesInUserInfo name).toList ++
          ':' :: (escape escapesInUserInfo (first :: rest)).toList := by simp
    unfold userInfo?
    rw [written, before, behind, escape_escape uncoded]
    cases password : (escape escapesInUserInfo (first :: rest)).toList with
    | nil =>
        have filled := @escape_ne_empty _ escapesInUserInfo (List.cons_ne_nil first rest)
        exact absurd (String.toList_eq_nil_iff.mp password) filled
    | cons letter letters =>
        have again := escape_escape uncoded (first :: rest)
        rw [password] at again
        dsimp only
        rw [if_neg (by simp), again]
  · obtain ⟨before, behind⟩ := Text.uncut (uncut name)
    unfold userInfo?
    rw [String.append_empty, before, behind, escape_escape uncoded, if_neg kept]

end UserInformation

/-! ## Hosts and ports -/

section HostAndPort

variable {text rest : List Char}

def opensAfter (inBrackets : Bool) (char : Char) : Bool :=
  if char = '[' then true else if char = ']' then false else inBrackets

theorem splitPort_cons {inBrackets : Bool} {char : Char} (within : char = ':' → inBrackets = true)
    (rest : List Char) :
    splitPort inBrackets (char :: rest) =
      (char :: (splitPort (opensAfter inBrackets char) rest).1,
        (splitPort (opensAfter inBrackets char) rest).2) := by
  have inside : (decide (char = ':') && !inBrackets) = false := by
    by_cases same : char = ':'
    · simp [within same]
    · simp [same]
  rw [splitPort, if_neg (by simp [inside])]
  rfl

theorem splitPort_plain {inBrackets : Bool}
    (plain : ∀ char ∈ text, char ≠ '[' ∧ char ≠ ']' ∧ (char = ':' → inBrackets = true))
    (rest : List Char) :
    splitPort inBrackets (text ++ rest) =
      (text ++ (splitPort inBrackets rest).1, (splitPort inBrackets rest).2) := by
  induction text with
  | nil => rfl
  | cons char text ih =>
      rw [List.forall_mem_cons] at plain
      obtain ⟨⟨opens, closes, within⟩, plain⟩ := plain
      have same : opensAfter inBrackets char = inBrackets := by simp [opensAfter, opens, closes]
      rw [List.cons_append, splitPort_cons within, same, ih plain]
      rfl

def IsPortText (chars : List Char) : Prop := chars = [] ∨ ∃ digits, chars = ':' :: digits

theorem splitPort_of_isPortText (port : IsPortText rest) : splitPort false rest = ([], rest) := by
  rcases port with rfl | ⟨digits, rfl⟩ <;> rfl

theorem ne_of_allowed {char mark : Char} (allowed : Domain.isForbidden char = false)
    (forbidden : Domain.isForbidden mark = true) : char ≠ mark := by
  rintro rfl
  exact absurd (allowed.symm.trans forbidden) (by decide)

theorem splitPort_append (host : HostText text) (port : IsPortText rest) :
    splitPort false (text ++ rest) = (text, rest) := by
  cases host with
  | plain _ _ allowed =>
      rw [splitPort_plain, splitPort_of_isPortText port, List.append_nil]
      intro char inside
      have other := fun mark => @ne_of_allowed char mark (allowed char inside)
      exact ⟨other _ (by decide), other _ (by decide), fun colon => absurd colon
        (other _ (by decide))⟩
  | bracketed inner allowed =>
      have within : splitPort true (inner ++ ']' :: rest) = (inner ++ [']'], rest) := by
        have closed : opensAfter true ']' = false := rfl
        rw [splitPort_plain, splitPort_cons (fun _ => rfl), closed, splitPort_of_isPortText port]
        intro char inside
        rcases allowed char inside with allowed | rfl
        · have other := fun mark => @ne_of_allowed char mark allowed
          exact ⟨other _ (by decide), other _ (by decide), fun _ => rfl⟩
        · exact ⟨by decide, by decide, fun _ => rfl⟩
      have opened : opensAfter false '[' = true := rfl
      rw [List.cons_append, List.append_assoc, List.singleton_append,
        splitPort_cons (fun colon => absurd colon (by decide)), opened, within]

theorem HostText.at_not_mem (host : HostText text) : '@' ∉ text := fun inside => by
  cases host with
  | plain _ _ allowed => exact ne_of_allowed (allowed _ inside) (by decide) rfl
  | bracketed inner allowed =>
      simp only [List.mem_cons, List.mem_append, List.not_mem_nil, or_false] at inside
      rcases inside with same | inside | same
      · exact absurd same (by decide)
      · rcases allowed _ inside with allowed | colon
        · exact ne_of_allowed allowed (by decide) rfl
        · exact absurd colon (by decide)
      · exact absurd same (by decide)

theorem digitValue?_digitChar : ∀ digit < 10, IPv4.digitValue? digit.digitChar = some digit ∧
    digit.digitChar.toNat < 0x80 := by decide

theorem inBase?_concat {digits : List Char} {value digit : Nat} (small : digit < 10)
    (front : IPv4.inBase? 10 digits = some value) :
    IPv4.inBase? 10 (digits ++ [digit.digitChar]) = some (10 * value + digit) := by
  obtain ⟨read, ascii⟩ := digitValue?_digitChar digit small
  unfold IPv4.inBase? at front ⊢
  rw [List.foldlM_append, front]
  simp [read, ascii, small]

theorem inBase?_toDigits (number : Nat) :
    IPv4.inBase? 10 (Nat.toDigits 10 number) = some number := by
  induction number using Nat.strongRecOn with
  | ind number ih =>
      rcases Nat.lt_or_ge number 10 with small | large
      · rw [Nat.toDigits_of_lt_base small]
        simpa using @inBase?_concat [] 0 number small rfl
      · rw [Nat.toDigits_of_base_le (by decide) large,
          inBase?_concat (Nat.mod_lt _ (by decide)) (ih (number / 10) (by omega)), Nat.div_add_mod]

theorem parsePort_toDigits {number : Nat} (small : number < 65536) :
    parsePort (':' :: Nat.toDigits 10 number) = .ok (some number) := by
  have decimal : IPv4.isDecimal (Nat.toDigits 10 number) = true := by
    simp only [IPv4.isDecimal, Bool.and_eq_true, Bool.not_eq_true', List.all_eq_true]
    exact ⟨by simp [Nat.toDigits_ne_nil],
      fun char inside => Nat.isDigit_of_mem_toDigits (by decide) (by decide) inside⟩
  unfold parsePort
  split
  · cases ‹_ :: _ = []›
  · exact absurd (List.cons.inj ‹_›).2 Nat.toDigits_ne_nil
  · obtain ⟨-, rfl⟩ := List.cons.inj ‹_›
    rw [decimal, inBase?_toDigits]
    exact if_pos small

end HostAndPort

/-! ## Authorities -/

namespace Authority

variable {scheme : Scheme} {authority : Authority}

def portText (authority : Authority) : List Char :=
  match authority.port with
  | none => []
  | some port => ':' :: Nat.toDigits 10 port

theorem portText_isPortText (authority : Authority) : IsPortText authority.portText := by
  unfold portText
  split
  · exact .inl rfl
  · exact .inr ⟨_, rfl⟩

theorem parsePort_portText [Domain.Mapping] (read : authority.IsRead scheme) :
    (parsePort authority.portText).map (Option.filter (· ≠ scheme.defaultPort)) =
      .ok authority.port := by
  unfold portText
  cases given : authority.port with
  | none => rfl
  | some number =>
      obtain ⟨small, other⟩ := read.port number given
      dsimp only
      rw [parsePort_toDigits small]
      simp [Except.map, Option.filter, other]

theorem toList_render (authority : Authority) :
    authority.render.toList = (match authority.userInfo with
      | none => []
      | some info => info.text.toList ++ ['@']) ++
        (authority.host.render.toList ++ authority.portText) := by
  unfold render portText UserInfo.render UserInfo.text
  obtain ⟨_ | ⟨user, _ | password⟩, host, _ | port⟩ := authority <;> simp

/-- An authority reads as it was written, if its host does. -/
theorem parse_render [Domain.Mapping] (read : authority.IsRead scheme)
    (reread : parseHost authority.host.render.toList = .ok authority.host) :
    parseAuthority scheme authority.render.toList = .ok authority := by
  obtain ⟨text, named⟩ := read.host
  have host := Host.text_of_parseHost named
  have cut := splitPort_append host authority.portText_isPortText
  have noAt : '@' ∉ authority.host.render.toList ++ authority.portText := by
    rw [List.mem_append, not_or]
    refine ⟨host.at_not_mem, ?_⟩
    unfold portText
    split
    · exact List.not_mem_nil
    · rw [List.mem_cons, not_or]
      exact ⟨by decide, fun inside =>
        ne_of_allowed (allowed_toDigits 10 _ _ inside) (by decide) rfl⟩
  have user : ∃ user, splitUserInfo authority.render.toList =
      (user, authority.host.render.toList ++ authority.portText) ∧
      user.bind userInfo? = authority.userInfo := by
    rw [toList_render]
    cases given : authority.userInfo with
    | none => exact ⟨none, splitUserInfo_of_not_mem noAt, rfl⟩
    | some info =>
        obtain ⟨chars, named⟩ := read.userInfo info given
        refine ⟨some info.text.toList, ?_, userInfo?_text named⟩
        dsimp only
        rw [List.append_assoc, List.singleton_append, splitUserInfo_append noAt]
  obtain ⟨user, taken, given⟩ := user
  have port := parsePort_portText read
  unfold parseAuthority
  rw [taken]
  dsimp only
  rw [cut]
  dsimp only
  rw [reread]
  cases numbered : parsePort authority.portText with
  | error => rw [numbered] at port; cases port
  | ok number =>
      rw [numbered] at port
      obtain ⟨userInfo, host, written⟩ := authority
      cases port
      cases given
      rfl

end Authority

end Outpost.Url
