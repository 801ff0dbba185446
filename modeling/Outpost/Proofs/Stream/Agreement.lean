import Outpost.Proofs.Stream.Transcript

/-!
# Agreement of the two halves

Whatever the order of polls and drops, the foreground brings the source as it is, the background
gets what the foreground has yielded, and the end of the background tells the truth about it.
-/

namespace Outpost.Stream

/-- A declared length fits a source: one that ends brings as many bytes, and any other fewer. -/
def Source.Fits (source : Source) (expectedLength : Option Nat) : Prop :=
  ∀ length, expectedLength = some length →
    if source.fate = .ends then source.bytes.length = length else source.bytes.length < length

def Fate.ofEnding : Except String Unit → Fate
  | .ok _ => .ends
  | .error message => .fails message

namespace Transcript

def DeliveredAll (expectedLength : Option Nat) (transcript : Transcript) : Prop :=
  ∃ length, expectedLength = some length ∧ length ≤ transcript.foreground.bytes.length

structure Agrees (source : Source) (expectedLength : Option Nat) (transcript : Transcript) :
    Prop where
  yielded : transcript.foreground.bytes <+: source.bytes
  whole : ∀ ending, transcript.foreground.ending = some ending →
    Met source transcript (Fate.ofEnding ending)
  copied : transcript.hasBackground = true →
    transcript.background.chunks ++ Message.chunks transcript.tee.queue =
      transcript.foreground.chunks
  /-- The background ends without an error if and only if the foreground met the clean end or
  delivered the whole declared length. -/
  faithful : ∀ ending, transcript.background.ending = some ending →
    (ending = .ok () ↔
      transcript.foreground.ending = some (.ok ()) ∨ DeliveredAll expectedLength transcript)
  complete : transcript.background.ending = some (.ok ()) →
    transcript.background.bytes = source.bytes ∧ source.fate = .ends

variable {source : Source} {expectedLength : Option Nat} {transcript : Transcript}

theorem Sound.reachedExpectedLength_iff (h : Sound source expectedLength transcript) :
    transcript.tee.reachedExpectedLength = true ↔ DeliveredAll expectedLength transcript := by
  unfold Tee.reachedExpectedLength DeliveredAll
  rw [h.expected, h.delivered]
  cases expectedLength <;> simp

theorem Sound.complete_iff (h : Sound source expectedLength transcript) :
    transcript.tee.complete = true ↔
      transcript.foreground.ending = some (.ok ()) ∨ DeliveredAll expectedLength transcript := by
  rw [← h.reachedExpectedLength_iff]
  constructor
  · intro complete
    rcases (h.complete complete).2 with ⟨-, ended⟩ | reached
    · exact .inl ended
    · exact .inr reached
  · rintro (ended | reached)
    · exact h.ended ended
    · exact h.reached reached

/-- A background that ends without an error has got all chunks of the foreground. -/
theorem Sound.received_all (h : Sound source expectedLength transcript)
    (ended : transcript.background.ending = some (.ok ())) :
    transcript.background.bytes = transcript.foreground.bytes ∧
      transcript.tee.complete = true := by
  obtain ⟨-, truthful, all⟩ := h.backgroundEnd _ ended
  exact ⟨congrArg List.flatten (all rfl), truthful.mp rfl⟩

theorem Sound.met_of_deliveredAll (h : Sound source expectedLength transcript)
    (fits : source.Fits expectedLength) (all : DeliveredAll expectedLength transcript) :
    Met source transcript .ends := by
  obtain ⟨length, declared, delivered⟩ := all
  have bound := h.isPrefix.length_le
  have fit := fits length declared
  split at fit
  · rename_i ends
    exact ⟨h.isPrefix.eq_of_length_le (by omega), ends⟩
  · omega

theorem Sound.met_of_complete (h : Sound source expectedLength transcript)
    (fits : source.Fits expectedLength) (complete : transcript.tee.complete = true) :
    Met source transcript .ends := by
  rcases (h.complete complete).2 with ⟨met, -⟩ | reached
  · exact met
  · exact h.met_of_deliveredAll fits (h.reachedExpectedLength_iff.mp reached)

theorem run_agrees (source : Source) (buffer : Nat) (expectedLength : Option Nat)
    (fits : source.Fits expectedLength) (turns : List Turn) :
    Agrees source expectedLength ((start source buffer expectedLength).run turns) := by
  have h := run_sound (start_sound source buffer expectedLength) turns
  exact {
    yielded := h.isPrefix
    whole := by
      intro ending hend
      cases ending with
      | ok done => exact h.met_of_complete fits (h.ended hend)
      | error message => exact (h.failed message hend).2.2
    copied := h.queued
    faithful := by
      intro ending hend
      rw [← h.complete_iff]
      exact (h.backgroundEnd ending hend).2.1
    complete := by
      intro hend
      obtain ⟨received, complete⟩ := h.received_all hend
      rw [received]
      exact h.met_of_complete fits complete }

/-- The queue is full when the second chunk comes, and the declared length is reached before the
end of the source is met. -/
theorem run_agrees_parked :
    let source : Source := ⟨[.chunk [1, 2], .hold, .chunk [3]]⟩
    let transcript := (start source 1 (some 3)).run
      [.pollForeground 0, .pollForeground 0, .pollForeground 0, .pollBackground,
        .pollForeground 0, .dropForeground, .pollBackground, .pollBackground]
    source.Fits (some 3) ∧ transcript.background.ending = some (.ok ()) ∧
      Agrees source (some 3) transcript := by
  have fits : Source.Fits ⟨[.chunk [1, 2], .hold, .chunk [3]]⟩ (some 3) := by
    intro length declared
    cases declared
    decide
  exact ⟨fits, rfl, run_agrees _ 1 _ fits _⟩

end Transcript

end Outpost.Stream
