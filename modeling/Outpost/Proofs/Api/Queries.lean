import Mathlib.Data.List.Forall2
import Mathlib.Data.List.TakeWhile
import Outpost.Cache.Key
import Outpost.Proofs.Api.Request
import Outpost.Proofs.Config.Upstream
import Outpost.Proofs.Url.Queries

/-!
# Written queries

There are many ways of writing parameters as a query: any character may be written by the codes of
its bytes, and a blank also as a plus sign.  What has another meaning in a query has to be coded.
All ways are read back as the same parameters, so a request is read the same however its query is
written.
-/

namespace Outpost.Api

open Http Url

/-! ## Ways of writing a text -/

def IsHexDigit (value : Nat) (digit : Char) : Prop :=
  "0123456789abcdef".toList[value]? = some digit ∨ "0123456789ABCDEF".toList[value]? = some digit

instance (value : Nat) (digit : Char) : Decidable (IsHexDigit value digit) :=
  inferInstanceAs (Decidable (_ ∨ _))

def IsCode (byte : UInt8) (chars : List Char) : Prop :=
  ∃ high low, chars = ['%', high, low] ∧
    IsHexDigit (byte.toNat / 16) high ∧ IsHexDigit (byte.toNat % 16) low

/-- A text and a way of writing it, in which no reserved character stands for itself. -/
inductive Written (reserved : Char → Bool) : List Char → List Char → Prop
  | nil : Written reserved [] []
  | kept {char : Char} {text written : List Char} (free : reserved char = false)
      (rest : Written reserved text written) : Written reserved (char :: text) (char :: written)
  | coded {char : Char} {codes : List (List Char)} {text written : List Char}
      (bytes : List.Forall₂ IsCode (String.utf8EncodeChar char) codes)
      (rest : Written reserved text written) :
      Written reserved (char :: text) (codes.flatten ++ written)
  | plus {text written : List Char} (rest : Written reserved text written) :
      Written reserved (' ' :: text) ('+' :: written)

/-- What a value may not hold as it stands: the characters that mean something in a query, and
those that no request target has. -/
def reservedInValue (char : Char) : Bool :=
  char = '%' || char = '&' || char = '+' || char = '#' || !Target.isQueryChar char

def reservedInKey (char : Char) : Bool := char = '=' || reservedInValue char

inductive WritesParameter : String × String → List Char → Prop
  | pair {name value : String} {writtenName writtenValue : List Char}
      (names : Written reservedInKey name.toList writtenName)
      (values : Written reservedInValue value.toList writtenValue) :
      WritesParameter (name, value) (writtenName ++ '=' :: writtenValue)
  | bare {name : String} {writtenName : List Char} (some : writtenName ≠ [])
      (names : Written reservedInKey name.toList writtenName) :
      WritesParameter (name, "") writtenName

/-- A way of writing parameters: their ways joined by ampersands, with empty ones in between. -/
def WritesQuery (parameters : List (String × String)) (query : String) : Prop :=
  ∃ pieces, query.toList = List.intercalate ['&'] pieces ∧
    List.Forall₂ WritesParameter parameters (pieces.filter fun piece => !piece.isEmpty)

/-! ## Digits -/

def hexDigits : List Char := "0123456789abcdefABCDEF".toList

theorem IsHexDigit.mem {value : Nat} {digit : Char} (h : IsHexDigit value digit) :
    digit ∈ hexDigits := by
  have lower : "0123456789abcdef".toList ⊆ hexDigits := by decide
  have upper : "0123456789ABCDEF".toList ⊆ hexDigits := by decide
  exact h.elim (fun found => lower (List.mem_of_getElem? found))
    fun found => upper (List.mem_of_getElem? found)

theorem IsHexDigit.reads {value : Nat} {digit : Char} (h : IsHexDigit value digit) :
    ∃ byte, String.utf8EncodeChar (spaced digit) = [byte] ∧
      Bytes.hexValue? byte = some value := by
  have each : ∀ row ∈ ["0123456789abcdef".toList, "0123456789ABCDEF".toList],
      ∀ value < 16, ∀ digit, row[value]? = some digit →
        String.utf8EncodeChar (spaced digit) = [UInt8.ofNat digit.toNat] ∧
          Bytes.hexValue? (UInt8.ofNat digit.toNat) = some value := by
    intro row among value small
    have digits : ∀ row ∈ ["0123456789abcdef".toList, "0123456789ABCDEF".toList],
        ∀ value < 16, (row[value]?.all fun digit =>
          String.utf8EncodeChar (spaced digit) == [UInt8.ofNat digit.toNat] &&
            Bytes.hexValue? (UInt8.ofNat digit.toNat) == some value) = true := by decide +kernel
    intro digit found
    have here := digits row among value small
    simpa [found] using here
  have small : value < 16 := by
    rcases h with found | found <;> exact (List.getElem?_eq_some_iff.mp found).1
  rcases h with found | found
  · exact ⟨_, each _ (by simp) value small digit found⟩
  · exact ⟨_, each _ (by simp) value small digit found⟩

/-! ## Reading back -/

theorem decode_append_of_free {bytes : Bytes} (free : ∀ byte ∈ bytes, byte ≠ 0x25)
    (rest : Bytes) : Percent.decode (bytes ++ rest) = bytes ++ Percent.decode rest := by
  induction bytes with
  | nil => rfl
  | cons byte bytes ih =>
      simp only [List.forall_mem_cons] at free
      rw [List.cons_append, decode_cons free.1, ih free.2, List.cons_append]

theorem ne_percent_of_mem_utf8EncodeChar {char : Char} (other : char ≠ '%') {byte : UInt8}
    (h : byte ∈ String.utf8EncodeChar char) : byte ≠ 0x25 := by
  rintro rfl
  by_cases ascii : char.toNat < 0x80
  · rw [utf8EncodeChar_ascii ascii, List.mem_singleton] at h
    have same := congrArg UInt8.toNat h
    rw [UInt8.toNat_ofNat_of_lt' (Nat.lt_trans ascii (by decide))] at same
    exact other (Char.toNat_inj.mp same.symm)
  · exact absurd (le_of_mem_utf8EncodeChar (Nat.le_of_not_lt ascii) h) (by decide)

def spacedBytes (chars : List Char) : Bytes := (chars.map spaced).flatMap String.utf8EncodeChar

theorem decode_isCode {byte : UInt8} {code : List Char} (h : IsCode byte code) (rest : Bytes) :
    Percent.decode (spacedBytes code ++ rest) = byte :: Percent.decode rest := by
  obtain ⟨high, low, rfl, upper, lower⟩ := h
  obtain ⟨first, encodesFirst, readsFirst⟩ := upper.reads
  obtain ⟨second, encodesSecond, readsSecond⟩ := lower.reads
  have percent : String.utf8EncodeChar (spaced '%') = [0x25] := by decide +kernel
  simp only [spacedBytes, List.map_cons, List.map_nil, List.flatMap_cons, List.flatMap_nil,
    percent, encodesFirst, encodesSecond, List.cons_append, List.nil_append, decode_percent,
    digits?, readsFirst, readsSecond]
  rw [show 16 * (byte.toNat / 16) + byte.toNat % 16 = byte.toNat by omega, UInt8.ofNat_toNat]

theorem decode_codes {bytes : Bytes} {codes : List (List Char)}
    (h : List.Forall₂ IsCode bytes codes) (rest : Bytes) :
    Percent.decode (spacedBytes codes.flatten ++ rest) = bytes ++ Percent.decode rest := by
  induction h with
  | nil => rfl
  | cons code _ ih =>
      have split : ∀ first second, spacedBytes (first ++ second) =
          spacedBytes first ++ spacedBytes second := by simp [spacedBytes]
      rw [List.flatten_cons, split, List.append_assoc, decode_isCode code, ih, List.cons_append]

theorem mem_codes {bytes : Bytes} {codes : List (List Char)}
    (h : List.Forall₂ IsCode bytes codes) {char : Char} (inside : char ∈ codes.flatten) :
    char = '%' ∨ char ∈ hexDigits := by
  induction h with
  | nil => cases inside
  | cons code _ ih =>
      obtain ⟨high, low, rfl, upper, lower⟩ := code
      simp only [List.flatten_cons, List.cons_append, List.nil_append, List.mem_cons] at inside
      rcases inside with same | rfl | rfl | later
      · exact .inl same
      · exact .inr upper.mem
      · exact .inr lower.mem
      · exact ih later

namespace Written

variable {reserved : Char → Bool} {text written text' written' : List Char}

theorem append (h : Written reserved text written) (h' : Written reserved text' written') :
    Written reserved (text ++ text') (written ++ written') := by
  induction h with
  | nil => exact h'
  | kept free _ ih => exact .kept free ih
  | coded bytes _ ih =>
      rw [List.append_assoc]
      exact .coded bytes ih
  | plus _ ih => exact .plus ih

theorem self (free : ∀ char ∈ text, reserved char = false) : Written reserved text text := by
  induction text with
  | nil => exact .nil
  | cons char rest ih =>
      simp only [List.forall_mem_cons] at free
      exact .kept free.1 (ih free.2)

theorem not_mem (h : Written reserved text written) {mark : Char} (marked : reserved mark = true)
    (uncoded : mark ∉ '%' :: '+' :: hexDigits) : mark ∉ written := by
  simp only [List.mem_cons, not_or] at uncoded
  induction h with
  | nil => exact List.not_mem_nil
  | kept free _ ih =>
      rw [List.mem_cons, not_or]
      refine ⟨?_, ih⟩
      rintro rfl
      cases marked.symm.trans free
  | coded bytes _ ih =>
      rw [List.mem_append, not_or]
      refine ⟨fun inside => ?_, ih⟩
      rcases mem_codes bytes inside with same | digit
      · exact uncoded.1 same
      · exact uncoded.2.2 digit
  | plus _ ih =>
      rw [List.mem_cons, not_or]
      exact ⟨uncoded.2.1, ih⟩

theorem decode (h : Written reserved text written) (percent : reserved '%' = true)
    (plus : reserved '+' = true) :
    Percent.decode (spacedBytes written) = text.flatMap String.utf8EncodeChar := by
  induction h with
  | nil => rfl
  | @kept char text written free _ ih =>
      have plain : ∀ mark, reserved mark = true → char ≠ mark := by
        rintro mark marked rfl
        cases marked.symm.trans free
      have unspaced : spaced char = char := if_neg (plain '+' plus)
      have bytes := fun byte => @ne_percent_of_mem_utf8EncodeChar char (plain '%' percent) byte
      change Percent.decode (String.utf8EncodeChar (spaced char) ++ spacedBytes written) = _
      rw [unspaced, decode_append_of_free bytes, ih, List.flatMap_cons]
  | @coded char codes text written bytes _ ih =>
      have split : spacedBytes (codes.flatten ++ written) =
          spacedBytes codes.flatten ++ spacedBytes written := by simp [spacedBytes]
      rw [split, decode_codes bytes, ih, List.flatMap_cons]
  | @plus text written _ ih =>
      have blank : String.utf8EncodeChar (spaced '+') = [0x20] := by decide +kernel
      change Percent.decode (String.utf8EncodeChar (spaced '+') ++ spacedBytes written) = _
      rw [blank, decode_append_of_free (List.forall_mem_singleton.mpr (by decide)), ih,
        List.flatMap_cons]
      rfl

/-- However a text is written, it is read back. -/
theorem decodeComponent {text : String} (h : Written reserved text.toList written)
    (percent : reserved '%' = true) (plus : reserved '+' = true) :
    decodeComponent (String.ofList written) = text := by
  rw [decodeComponent_eq]
  have bytes : Percent.decode (Bytes.ofText (String.ofList (written.map spaced))) =
      Bytes.ofText text := by
    rw [ofText_ofList, ← String.ofList_toList (s := text), ofText_ofList]
    exact h.decode percent plus
  rw [bytes, Bytes.text?_ofText, Option.getD_some]

end Written

/-! ## Parameters -/

def readParameter (piece : List Char) : String × String :=
  (decodeComponent (String.ofList (piece.takeWhile (· ≠ '='))),
    decodeComponent (String.ofList ((piece.dropWhile (· ≠ '=')).drop 1)))

theorem readParameter_of_writes {parameter : String × String} {piece : List Char}
    (h : WritesParameter parameter piece) : readParameter piece = parameter := by
  have equals : ∀ {name written : List Char}, Written reservedInKey name written →
      ∀ char ∈ written, decide (char ≠ '=') = true := by
    intro name written names char inside
    rw [decide_eq_true_iff]
    rintro rfl
    have marked : reservedInKey '=' = true := by decide
    exact names.not_mem marked (by decide) inside
  cases h with
  | pair names values =>
      unfold readParameter
      rw [List.takeWhile_append_of_pos (equals names), List.dropWhile_append_of_pos (equals names),
        List.takeWhile_cons_of_neg (by decide), List.dropWhile_cons_of_neg (by decide),
        List.append_nil, List.drop_one, List.tail_cons,
        names.decodeComponent (by decide) (by decide),
        values.decodeComponent (by decide) (by decide)]
  | bare some names =>
      unfold readParameter
      have whole := List.takeWhile_eq_self_iff.mpr (equals names)
      have behind := List.dropWhile_eq_nil_iff.mpr (equals names)
      rw [whole, behind, List.drop_nil, names.decodeComponent (by decide) (by decide)]
      have empty : decodeComponent (String.ofList []) = "" :=
        Written.decodeComponent (.nil : Written reservedInKey "".toList []) (by decide) (by decide)
      rw [empty]

theorem not_mem_of_writes {parameter : String × String} {piece : List Char}
    (h : WritesParameter parameter piece) {mark : Char} (marked : reservedInValue mark = true)
    (uncoded : mark ∉ '%' :: '+' :: '=' :: hexDigits) : mark ∉ piece := by
  have inName : reservedInKey mark = true := by rw [reservedInKey, marked, Bool.or_true]
  have other : mark ≠ '=' := fun same => uncoded (by simp [same])
  have codeless : mark ∉ '%' :: '+' :: hexDigits := fun inside =>
    uncoded (by simp only [List.mem_cons] at inside ⊢; tauto)
  cases h with
  | pair names values =>
      rw [List.mem_append, List.mem_cons, not_or, not_or]
      exact ⟨names.not_mem inName codeless, other, values.not_mem marked codeless⟩
  | bare some names => exact names.not_mem inName codeless

theorem queryParameters_eq (query : String) : queryParameters query =
    ((query.toList.splitOn '&').filter fun pair => !pair.isEmpty).map readParameter := rfl

namespace WritesQuery

variable {parameters : List (String × String)} {query : String}

theorem pieces (h : WritesQuery parameters query) : ∃ pieces,
    query.toList = List.intercalate ['&'] pieces ∧
      (pieces.filter fun piece => !piece.isEmpty).map readParameter = parameters ∧
      ∀ piece ∈ pieces, piece = [] ∨ ∃ parameter, WritesParameter parameter piece := by
  obtain ⟨pieces, joined, written⟩ := h
  refine ⟨pieces, joined, ?_, fun piece inside => ?_⟩
  · have read := written.imp fun parameter piece h => (readParameter_of_writes h).symm
    rw [← List.forall₂_map_right_iff, List.forall₂_eq_eq_eq] at read
    exact read.symm
  · by_cases empty : piece = []
    · exact .inl empty
    · have kept : piece ∈ pieces.filter fun piece => !piece.isEmpty :=
        List.mem_filter.mpr ⟨inside, by simpa using empty⟩
      obtain ⟨place, here⟩ := List.mem_iff_get.mp kept
      have there := written.get (by rw [written.length_eq]; exact place.isLt) place.isLt
      rw [Fin.eta, here] at there
      exact .inr ⟨_, there⟩

theorem not_mem (h : WritesQuery parameters query) {mark : Char}
    (marked : reservedInValue mark = true) (uncoded : mark ∉ '%' :: '+' :: '=' :: hexDigits)
    (other : mark ≠ '&') : mark ∉ query.toList := by
  obtain ⟨pieces, joined, -, each⟩ := h.pieces
  intro inside
  rw [joined] at inside
  obtain ⟨piece, among, here⟩ := (Text.mem_intercalate inside).resolve_left other
  rcases each piece among with rfl | ⟨parameter, writes⟩
  · cases here
  · exact not_mem_of_writes writes marked uncoded here

/-- However parameters are written, they are read back. -/
theorem queryParameters_eq (h : WritesQuery parameters query) :
    queryParameters query = parameters := by
  obtain ⟨pieces, joined, read, each⟩ := h.pieces
  have uncut : ∀ piece ∈ pieces, '&' ∉ piece := by
    intro piece among
    rcases each piece among with rfl | ⟨parameter, writes⟩
    · exact List.not_mem_nil
    · exact not_mem_of_writes writes (by decide) (by decide)
  rw [Api.queryParameters_eq, joined]
  cases pieces with
  | nil => exact read
  | cons piece rest => rw [List.splitOn_intercalate '&' uncut (List.cons_ne_nil _ _), read]

theorem of_parse? (h : WritesQuery parameters query) {path : List Char} {target : Target}
    (noQuery : '?' ∉ path) (noFragment : '#' ∉ path)
    (parsed : Target.parse? (String.ofList ('/' :: (path ++ '?' :: query.toList))) =
      some target) :
    target.path = String.ofList ('/' :: path) ∧ target.query = some query := by
  have origin := Target.origin_of_parse? parsed
  have visible :
      (path ++ '?' :: query.toList).takeWhile (· ≠ '#') = path ++ '?' :: query.toList := by
    rw [List.takeWhile_eq_self_iff]
    intro char inside
    rw [decide_eq_true_iff]
    rintro rfl
    rcases List.mem_append.mp inside with early | late
    · exact noFragment early
    · rcases List.mem_cons.mp late with same | late
      · cases same
      · exact h.not_mem (by decide) (by decide) (by decide) late
  have before : ∀ char ∈ '/' :: path, decide (char ≠ '?') = true := by
    intro char inside
    rw [decide_eq_true_iff]
    rintro rfl
    exact (List.mem_cons.mp inside).elim (by decide) noQuery
  have path' := origin.path
  have query' := origin.query
  rw [visible, ← List.cons_append, List.takeWhile_append_of_pos before,
    List.takeWhile_cons_of_neg (by decide), List.append_nil] at path'
  rw [visible, ← List.cons_append, List.dropWhile_append_of_pos before,
    List.dropWhile_cons_of_neg (by decide), List.tail?_cons, Option.map_some,
    String.ofList_toList] at query'
  exact ⟨path', query'⟩

end WritesQuery

/-! ## Selectors -/

/-- The token with this word occurs in the selector. -/
def Selects (selector word : String) : Prop := ("type=" ++ word).toList <:+: selector.toList

instance (selector word : String) : Decidable (Selects selector word) :=
  inferInstanceAs (Decidable (_ <:+: _))

theorem Policy.ofSelector_eq (selector : String) :
    Policy.ofSelector selector =
      if selector = "" then .unselected
      else if Selects selector "benchmark" then .passthrough
      else if Selects selector "functional" then .functional
      else if Selects selector "filter" then .filter
      else if Selects selector "resourceusage" then .volatile
      else if Selects selector "consistency" then .durable
      else .other := by
  have occurs : ∀ word, Text.contains selector ("type=" ++ word) =
      decide (Selects selector word) := by
    intro word
    rw [Bool.eq_iff_iff, decide_eq_true_iff]
    exact Text.occurs_iff
  have tokens : Policy.tokens = [("type=" ++ "benchmark", .passthrough),
      ("type=" ++ "functional", .functional), ("type=" ++ "filter", .filter),
      ("type=" ++ "resourceusage", .volatile), ("type=" ++ "consistency", .durable)] := rfl
  unfold Policy.ofSelector
  rw [tokens]
  simp only [List.find?_cons, List.find?_nil, occurs]
  repeat' split
  all_goals simp_all

theorem parameter_eq_lookup (parameters : List (String × String)) (name : String) :
    parameter parameters name = (parameters.lookup name).getD "" := by
  unfold parameter
  congr 1
  induction parameters with
  | nil => rfl
  | cons first rest ih =>
      rw [List.find?_cons, List.lookup_cons, BEq.comm (a := name)]
      cases first.1 == name
      · exact ih
      · rfl

namespace RequestInfo

variable {method : Method} {target other : Target}

theorem labelSelector_classify (method : Method) (target : Target) :
    (classify method target).labelSelector =
      parameter (queryParameters (target.query.getD "")) "labelSelector" := by
  unfold classify
  simp only
  split <;> rfl

/-- Of the query, a request is read by its parameters alone. -/
theorem classify_congr (method : Method) (path : other.path = target.path)
    (parameters : queryParameters (other.query.getD "") =
      queryParameters (target.query.getD "")) :
    classify method other =
      { classify method target with path := other.pathAndQuery.getD other.path } := by
  unfold classify
  simp only [path, parameters]
  cases ResourcePath.ofSegments? (segments target.path) <;> rfl

/-- A request asks for the policy of the first selector among its parameters, and for a watch if one
of them says so, in whatever way the parameters are written; so requests for one path whose queries
write the same parameters have one policy and one cache key. -/
theorem classify_readsQuery {parameters : List (String × String)} {query : String}
    (writes : WritesQuery parameters query) :
    (∀ (method : Method) (target : Target), target.query.getD "" = query →
      let info := classify method target
      info.labelSelector = (parameters.lookup "labelSelector").getD "" ∧
      info.policy =
        (if info.labelSelector = "" then .unselected
        else if Selects info.labelSelector "benchmark" then .passthrough
        else if Selects info.labelSelector "functional" then .functional
        else if Selects info.labelSelector "filter" then .filter
        else if Selects info.labelSelector "resourceusage" then .volatile
        else if Selects info.labelSelector "consistency" then .durable
        else .other) ∧
      (isWatching (queryParameters query) = true ↔
        ("watch", "true") ∈ parameters ∨ ("watch", "1") ∈ parameters) ∧
      (∀ resource, ResourcePath.ofSegments? (segments target.path) = some resource →
        resource.legacyWatch = false → resource.name = "" → Verb.ofMethod method = .get →
        (info.verb = .watch ↔ ("watch", "true") ∈ parameters ∨ ("watch", "1") ∈ parameters)) ∧
      ∀ other : Target, other.path = target.path →
        WritesQuery parameters (other.query.getD "") →
        classify method other = { info with path := other.pathAndQuery.getD other.path } ∧
        (classify method other).policy = info.policy ∧
        Cache.Key.ofRequest? (classify method other) = Cache.Key.ofRequest? info) ∧
    ∀ (path : List Char) (target : Target), '?' ∉ path → '#' ∉ path →
      Target.parse? (String.ofList ('/' :: (path ++ '?' :: query.toList))) = some target →
      target.path = String.ofList ('/' :: path) ∧ target.query = some query := by
  refine ⟨fun method target asked => ?_, fun path target => writes.of_parse?⟩
  have read : queryParameters (target.query.getD "") = parameters :=
    asked ▸ writes.queryParameters_eq
  have watching : isWatching (queryParameters query) = true ↔
      ("watch", "true") ∈ parameters ∨ ("watch", "1") ∈ parameters := by
    rw [writes.queryParameters_eq, isWatching_iff]
  refine ⟨?_, ?_, watching, fun resource named plain unnamed reads => ?_,
    fun other path rewritten => ?_⟩
  · rw [labelSelector_classify, read, parameter_eq_lookup]
  · rw [policy_classify, Policy.ofSelector_eq]
  · rw [← watching, classify_of_resource named, asked]
    simp only [verbOn, plain, unnamed, reads, Verb.onCollection]
    cases isWatching (queryParameters query) <;> decide
  · have same := classify_congr method path
      (rewritten.queryParameters_eq.trans read.symm)
    rw [same]
    exact ⟨rfl, rfl, rfl⟩

end RequestInfo

/-! ### A selector in codes -/

def codedQuery : String :=
  "label%53elector=type%3dconsist%65ncy&&watch=1&note=caf%c3%A9+%2B"

def codedParameters : List (String × String) :=
  [("labelSelector", "type=consistency"), ("watch", "1"), ("note", "caf\u00E9 +")]

theorem writes_codedQuery : WritesQuery codedParameters codedQuery := by
  have letter : ∀ {char high low : Char} (byte : UInt8) (reserved : Char → Bool),
      String.utf8EncodeChar char = [byte] → IsHexDigit (byte.toNat / 16) high →
      IsHexDigit (byte.toNat % 16) low → Written reserved [char] ['%', high, low] := by
    intro char high low byte reserved encoded upper lower
    have codes : List.Forall₂ IsCode (String.utf8EncodeChar char) [['%', high, low]] := by
      rw [encoded]
      exact .cons ⟨high, low, rfl, upper, lower⟩ .nil
    exact .coded codes .nil
  have accented : Written reservedInValue ['\u00E9'] "%c3%A9".toList := by
    have codes : List.Forall₂ IsCode (String.utf8EncodeChar '\u00E9')
        [['%', 'c', '3'], ['%', 'A', '9']] :=
      .cons ⟨'c', '3', rfl, by decide, by decide⟩ (.cons ⟨'A', '9', rfl, by decide, by decide⟩ .nil)
    exact .coded codes .nil
  have plain : ∀ text : String, (text.toList.all fun char => !reservedInKey char) = true →
      Written reservedInKey text.toList text.toList ∧
        Written reservedInValue text.toList text.toList := by
    intro text free
    simp only [List.all_eq_true, Bool.not_eq_true', reservedInKey, Bool.or_eq_false_iff] at free
    exact ⟨.self fun char inside => by rw [reservedInKey, (free char inside).1,
      (free char inside).2, Bool.or_false], .self fun char inside => (free char inside).2⟩
  have name : Written reservedInKey "labelSelector".toList "label%53elector".toList :=
    (plain "label" (by decide)).1.append
      ((letter 0x53 _ (by decide) (by decide) (by decide)).append
        (plain "elector" (by decide)).1)
  have value : Written reservedInValue "type=consistency".toList "type%3dconsist%65ncy".toList :=
    (plain "type" (by decide)).2.append
      ((letter 0x3D _ (by decide) (by decide) (by decide)).append
        ((plain "consist" (by decide)).2.append
          ((letter 0x65 _ (by decide) (by decide) (by decide)).append
            (plain "ncy" (by decide)).2)))
  have note : Written reservedInValue "caf\u00E9 +".toList "caf%c3%A9+%2B".toList :=
    (plain "caf" (by decide)).2.append
      (accented.append (.plus (letter 0x2B _ (by decide) (by decide) (by decide))))
  refine ⟨["label%53elector=type%3dconsist%65ncy".toList, [], "watch=1".toList,
    "note=caf%c3%A9+%2B".toList], by decide, ?_⟩
  exact .cons (.pair name value) (.cons (.pair (plain "watch" (by decide)).1
    (plain "1" (by decide)).2) (.cons (.pair (plain "note" (by decide)).1 note) .nil))

def podsPath : List Char := "api/v1/pods".toList

def podsTarget (query : String) : Target :=
  ⟨"/api/v1/pods", some query, some ("/api/v1/pods?" ++ query)⟩

theorem classify_readsQuery_coded :
    WritesQuery codedParameters codedQuery ∧
      (RequestInfo.classify "GET" (podsTarget codedQuery)).labelSelector = "type=consistency" ∧
      (RequestInfo.classify "GET" (podsTarget codedQuery)).policy = .durable ∧
      (RequestInfo.classify "GET" (podsTarget codedQuery)).verb = .watch ∧
      Target.parse? (String.ofList ('/' :: (podsPath ++ '?' :: codedQuery.toList))) =
        some (podsTarget codedQuery) ∧
      (podsTarget codedQuery).query = some codedQuery := by
  obtain ⟨reads, target⟩ := RequestInfo.classify_readsQuery writes_codedQuery
  obtain ⟨selector, policy, -, watch, -⟩ := reads "GET" (podsTarget codedQuery) rfl
  have parsed : Target.parse? (String.ofList ('/' :: (podsPath ++ '?' :: codedQuery.toList))) =
      some (podsTarget codedQuery) := by decide +kernel
  have named : ResourcePath.ofSegments? (segments (podsTarget codedQuery).path) =
      some ⟨"", "v1", false, "", "pods", "", ""⟩ := by decide +kernel
  refine ⟨writes_codedQuery, selector, ?_, ?_, parsed, ?_⟩
  · rw [policy, selector]
    decide +kernel
  · exact (watch _ named rfl rfl rfl).mpr (.inr (by decide))
  · exact (target podsPath (podsTarget codedQuery) (by decide) (by decide) parsed).2

end Outpost.Api
