import Outpost.Coding.ContentCoding
import Outpost.Proofs.Text

/-!
# Codings of a body

All the codings that headers declare, in every value and in lists, and a body with them taken off.
Of these the decoding looks at the first value alone, and only at one that is the name of a format:
what it leaves is the content just where nothing else is declared.
-/

namespace Outpost.Coding

open Http

inductive ContentCoding where
  | known (format : Format)
  | other (name : String)
  | illegible
  deriving DecidableEq, Repr

/-- The coding that a name stands for.  An empty name is skipped, and the identity is none. -/
def ContentCoding.ofName? (name : String) : Option ContentCoding :=
  match Text.asciiLower (Text.trim name) with
  | "" => none
  | "identity" => none
  | "gzip" => some (.known .gzip)
  | "x-gzip" => some (.known .gzip)
  | "deflate" => some (.known .zlib)
  | name => some (.other name)

def listed (value : Bytes) : List ContentCoding :=
  match Headers.text? value with
  | none => [.illegible]
  | some text => (Text.split ',' text).filterMap ContentCoding.ofName?

/-- All codings that headers declare, in the order in which they were applied. -/
def codings (headers : Headers) : List ContentCoding :=
  (headers.values "content-encoding").flatMap listed

/-! ## Contents -/

section Contents

variable (others : String → Bytes → Option Bytes)

def ContentCoding.undo : ContentCoding → Bytes → Option Bytes
  | .known format, body => (decode format body).toOption
  | .other name, body => others name body
  | .illegible, _ => none

def uncoded : List ContentCoding → Bytes → Option Bytes
  | [], body => some body
  | coding :: later, body => (uncoded later body).bind (coding.undo others)

/-- What a body amounts to for a reader who honours its headers. -/
def content (headers : Headers) (body : Bytes) : Option Bytes :=
  uncoded others (codings headers) body

end Contents

/-! ## Declared and decoded -/

def decoded? (headers : Headers) (body : Bytes) : Option Bytes :=
  match declared? headers with
  | none => some body
  | some format => (decode format body).toOption

/-- The coding that is decoded is all that is declared. -/
def FullyDecoded (headers : Headers) : Prop :=
  codings headers = (declared? headers).toList.map .known

instance (headers : Headers) : Decidable (FullyDecoded headers) :=
  inferInstanceAs (Decidable (_ = _))

theorem comma_not_mem {text : String}
    (h : ',' ∉ (Text.asciiLower (Text.trim text)).toList) : ',' ∉ text.toList := by
  intro inside
  apply h
  unfold Text.asciiLower
  rw [String.toList_ofList]
  exact List.mem_map.mpr ⟨',', Text.mem_trim inside (by decide), by decide⟩

section Declared

variable {headers : Headers} {format : Format}

/-- What is decoded was declared first. -/
theorem codings_of_declared? (h : declared? headers = some format) :
    ∃ later, codings headers = .known format :: later := by
  unfold declared? Headers.firstText? Headers.first? at h
  obtain ⟨text, hfirst, h⟩ := Option.bind_eq_some_iff.mp h
  obtain ⟨value, hvalue, readable⟩ := Option.bind_eq_some_iff.mp hfirst
  obtain ⟨values, hvalues⟩ := List.head?_eq_some_iff.mp hvalue
  have named : ',' ∉ text.toList ∧ ContentCoding.ofName? text = some (.known format) := by
    unfold ContentCoding.ofName?
    split at h <;> rename_i name <;> cases h <;> rw [name] <;>
      exact ⟨comma_not_mem (name ▸ by decide), rfl⟩
  obtain ⟨uncut, named⟩ := named
  refine ⟨values.flatMap listed, ?_⟩
  unfold codings
  rw [hvalues, List.flatMap_cons]
  unfold listed
  simp [readable, Text.split_of_not_mem uncut, named]

theorem content_of_fullyDecoded (h : FullyDecoded headers)
    (others : String → Bytes → Option Bytes) (body : Bytes) :
    content others headers body = decoded? headers body := by
  unfold content decoded?
  rw [h]
  cases declared? headers with
  | none => rfl
  | some format => rfl

end Declared

/-! ## Empty bodies -/

def emptyBody : Option Format → Bytes
  | none => []
  | some .gzip =>
      [0x1F, 0x8B, 0x08, 0, 0, 0, 0, 0, 0, 0x03, 0x03, 0, 0, 0, 0, 0, 0, 0, 0, 0]
  | some .zlib => [0x78, 0x9C, 0x03, 0, 0, 0, 0, 0x01]

theorem decode_emptyBody (format : Format) :
    decode format (emptyBody (some format)) = .ok [] := by
  have contents : (decode format (emptyBody (some format))).toOption = some [] := by
    cases format <;> decide +kernel
  cases decoded : decode format (emptyBody (some format)) with
  | error halt =>
      rw [decoded] at contents
      cases contents
  | ok found =>
      rw [decoded] at contents
      rw [Option.some.inj contents]

section Empty

variable (coding : ContentCoding) (format : Format) {later : List ContentCoding}

theorem undo_nil : coding.undo (fun _ _ => none) [] = none := by
  cases coding with
  | known format => cases format <;> decide +kernel
  | other | illegible => rfl

theorem undo_emptyBody :
    coding.undo (fun _ _ => none) (emptyBody (some format)) = none ∨
      coding.undo (fun _ _ => none) (emptyBody (some format)) = some [] := by
  cases coding with
  | known other => cases other <;> cases format <;> decide +kernel
  | other | illegible => exact .inl rfl

theorem uncoded_emptyBody (coded : later ≠ []) :
    uncoded (fun _ _ => none) later (emptyBody (some format)) = none ∨
      uncoded (fun _ _ => none) later (emptyBody (some format)) = some [] := by
  induction later with
  | nil => exact absurd rfl coded
  | cons coding rest ih =>
      cases rest with
      | nil => exact undo_emptyBody coding format
      | cons next last =>
          rw [uncoded]
          rcases ih (List.cons_ne_nil next last) with gone | empty
          · exact .inl (by rw [gone]; rfl)
          · exact .inl (by rw [empty]; exact undo_nil coding)

theorem uncoded_nil (coded : later ≠ []) :
    uncoded (fun _ _ => none) later [] = none := by
  induction later with
  | nil => exact absurd rfl coded
  | cons coding rest ih =>
      cases rest with
      | nil => exact undo_nil coding
      | cons next last =>
          rw [uncoded, ih (List.cons_ne_nil next last)]
          rfl

end Empty

theorem content_emptyBody {headers : Headers} (h : ¬ FullyDecoded headers) :
    content (fun _ _ => none) headers (emptyBody (declared? headers)) = none := by
  unfold FullyDecoded at h
  unfold content
  cases coded : declared? headers with
  | none =>
      rw [coded] at h
      exact uncoded_nil h
  | some format =>
      obtain ⟨later, hlater⟩ := codings_of_declared? coded
      rw [coded, hlater] at h
      rw [hlater, uncoded]
      have more : later ≠ [] := by
        rintro rfl
        exact h rfl
      rcases uncoded_emptyBody format more with gone | empty
      · rw [gone]
        rfl
      · rw [empty]
        exact undo_nil (.known format)

end Outpost.Coding
