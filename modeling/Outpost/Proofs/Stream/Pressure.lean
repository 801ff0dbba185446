import Outpost.Proofs.Stream.Deliveries

/-!
# Back-pressure

The foreground of a tee is ahead of the background by no more than the queue holds.  A poll that
has a chunk and does not yield it finds the queue full, and finds the background still there; any
other poll that answers nothing finds nothing in the source either.
-/

namespace Outpost.Stream

/-! ## Why a poll answers nothing -/

namespace Source

inductive Idle (now : Nat) : List Item → Prop
  | pending {items : List Item} (h : (pollItems now items).2 = .pending) : Idle now items
  | past {items rest : List Item} (h : pollItems now items = (rest, .chunk []))
      (idle : Idle now rest) : Idle now items

variable {now : Nat} {items rest : List Item}

theorem Idle.congr (same : pollItems now items = pollItems now rest) (h : Idle now rest) :
    Idle now items := by
  cases h with
  | pending h => exact .pending (same ▸ h)
  | past h idle => exact .past (same.trans h) idle

theorem idle_iff_of_ne (h : ∀ rest, pollItems now items ≠ (rest, .chunk [])) :
    Idle now items ↔ (pollItems now items).2 = .pending := by
  constructor
  · intro idle
    cases idle with
    | pending h => exact h
    | past found _ => exact absurd found (h _)
  · exact .pending

theorem pollSource_eq_pending_iff (now : Nat) (items : List Item) :
    (Tee.pollSource now items).2 = .pending ↔ Idle now items := by
  fun_induction Tee.pollSource now items with
  | case1 rest ih =>
      refine ih.trans ⟨.past rfl, fun idle => ?_⟩
      cases idle with
      | pending h => cases h
      | past h idle =>
          cases h
          exact idle
  | case2 rest ih =>
      have same : pollItems now (.delay 0 :: rest) = pollItems now rest := by
        rw [pollItems, if_pos rfl]
      exact ih.trans ⟨.congr same, .congr same.symm⟩
  | case3 duration rest wait =>
      refine ⟨fun _ => .pending ?_, fun _ => rfl⟩
      rw [pollItems, if_neg wait]
  | case4 time rest due ih =>
      have same : pollItems now (.timer time :: rest) = pollItems now rest := by
        rw [pollItems, if_pos due]
      exact ih.trans ⟨.congr same, .congr same.symm⟩
  | case5 time rest early =>
      refine ⟨fun _ => .pending ?_, fun _ => rfl⟩
      rw [pollItems, if_neg early]
  | case6 items full undelayed untimed =>
      refine (idle_iff_of_ne fun rest found => ?_).symm
      cases items with
      | nil => cases found
      | cons item later =>
          cases item with
          | chunk bytes =>
              cases found
              exact full _ rfl
          | delay duration => exact undelayed duration later rfl
          | timer time => exact untimed time later rfl
          | hold | silence | failure => cases found

end Source

namespace Tee

variable {now : Nat} {tee : Tee}

def atHand? (now : Nat) (tee : Tee) : Option Bytes :=
  tee.parked.or
    (match (pollSource now tee.source.items).2 with
    | .chunk bytes => some bytes
    | _ => none)

/-- A poll of the foreground has a chunk and does not yield it. -/
structure HeldBack (now : Nat) (tee : Tee) : Prop where
  pending : (tee.pollForeground now).2 = .pending
  atHand : (tee.atHand? now).isSome

theorem pass_eq_pending_iff (chunk : Bytes) :
    (tee.pass chunk).2 = .pending ↔ tee.receiving = true ∧ tee.capacity ≤ tee.queue.length := by
  unfold pass
  split
  · rename_i receiving
    split
    · rename_i room
      exact ⟨nofun, fun full => absurd full.2 (Nat.not_le_of_lt room)⟩
    · rename_i full
      exact ⟨fun _ => ⟨receiving, Nat.le_of_not_lt full⟩, fun _ => rfl⟩
  · rename_i gone
    exact ⟨nofun, fun full => absurd full.1 gone⟩

theorem pollForeground_eq_pending_iff : (tee.pollForeground now).2 = .pending ↔
    tee.finished = false ∧
      ((tee.atHand? now).isSome ∧ tee.receiving = true ∧ tee.capacity ≤ tee.queue.length ∨
        tee.parked = none ∧ Source.Idle now tee.source.items) := by
  rw [← Source.pollSource_eq_pending_iff]
  unfold pollForeground atHand?
  split
  · rename_i finished
    simp [finished]
  · rename_i going
    rw [Bool.not_eq_true] at going
    split
    · rename_i chunk parked
      simp [going, parked, pass_eq_pending_iff]
    · rename_i parked
      simp only
      split
      · rename_i h
        simp [going, parked, h]
      · rename_i chunk h
        rw [pass_eq_pending_iff]
        simp [going, parked, h]
      · rename_i h
        simp [going, parked, h]
      · rename_i message h
        simp [going, parked, h]

theorem atHand?_of_idle (parked : tee.parked = none) (idle : Source.Idle now tee.source.items) :
    tee.atHand? now = none := by
  unfold atHand?
  rw [parked, (Source.pollSource_eq_pending_iff now _).mpr idle]
  rfl

/-- A poll is held back by a full queue and by nothing else. -/
theorem heldBack_iff : tee.HeldBack now ↔ tee.finished = false ∧ (tee.atHand? now).isSome ∧
    tee.receiving = true ∧ tee.capacity ≤ tee.queue.length := by
  constructor
  · rintro ⟨pending, atHand⟩
    obtain ⟨going, ⟨-, full⟩ | ⟨parked, idle⟩⟩ := pollForeground_eq_pending_iff.mp pending
    · exact ⟨going, atHand, full⟩
    · rw [atHand?_of_idle parked idle] at atHand
      cases atHand
  · rintro ⟨going, atHand, full⟩
    exact ⟨pollForeground_eq_pending_iff.mpr ⟨going, .inl ⟨atHand, full⟩⟩, atHand⟩

end Tee

/-! ## Turns -/

namespace Transcript

variable {source : Source} {expectedLength : Option Nat} {transcript : Transcript}
  {capacity : Nat}

structure Within (capacity : Nat) (transcript : Transcript) : Prop where
  capacity : transcript.tee.capacity = capacity
  bounded : transcript.tee.Bounded

theorem start_within (source : Source) (buffer : Nat) (expectedLength : Option Nat) :
    (start source buffer expectedLength).Within (max buffer 1) := by
  refine ⟨?_, Tee.start_bounded source buffer expectedLength⟩
  unfold start Tee.start
  simp only
  split <;> rfl

theorem Within.turn (h : transcript.Within capacity) (turn : Turn) :
    (transcript.turn turn).Within capacity := by
  cases turn with
  | pollForeground now =>
      unfold Transcript.turn
      simp only
      split
      · exact ⟨(Tee.pollForeground_keeps now _).1.trans h.capacity, h.bounded.pollForeground now⟩
      · exact h
  | pollBackground =>
      unfold Transcript.turn
      simp only
      split
      · obtain ⟨queue, drained, same⟩ := Tee.pollBackground_eq transcript.tee
        exact ⟨(congrArg Tee.capacity same).trans h.capacity, h.bounded.pollBackground⟩
      · exact h
  | dropForeground => exact ⟨h.capacity, h.bounded⟩
  | dropBackground => exact ⟨h.capacity, h.bounded.dropBackground⟩

theorem Within.run (h : transcript.Within capacity) (turns : List Turn) :
    (transcript.run turns).Within capacity := by
  induction turns generalizing transcript with
  | nil => exact h
  | cons turn rest ih => exact ih (h.turn turn)

theorem Sound.length_chunks (h : Sound source expectedLength transcript)
    (going : transcript.tee.finished = false) :
    (Message.chunks transcript.tee.queue).length = transcript.tee.queue.length := by
  have plain : ∀ queue : List Message, (∀ message, Message.failure message ∉ queue) →
      (Message.chunks queue).length = queue.length := by
    intro queue untold
    induction queue with
    | nil => rfl
    | cons message rest ih =>
        have later := ih fun message member => untold message (List.mem_cons_of_mem _ member)
        cases message with
        | chunk bytes => simpa using later
        | failure message => exact absurd List.mem_cons_self (untold message)
  refine plain _ fun message member => ?_
  cases going.symm.trans (h.told message member).1

/-! ## What the background can hold back -/

/-- How the halves wait for each other over a queue of this capacity. -/
structure Pressed (capacity : Nat) (transcript : Transcript) : Prop where
  ahead : transcript.hasBackground = true →
    transcript.foreground.chunks.length ≤ transcript.background.chunks.length + capacity
  pending : ∀ now, (transcript.tee.pollForeground now).2 = .pending →
    transcript.tee.HeldBack now ∨
      transcript.tee.parked = none ∧ Source.Idle now transcript.tee.source.items
  held : ∀ now, transcript.tee.HeldBack now ↔
    transcript.tee.finished = false ∧ (transcript.tee.atHand? now).isSome ∧
      transcript.hasBackground = true ∧ (Message.chunks transcript.tee.queue).length = capacity
  free : transcript.hasBackground = false → ∀ now,
    (transcript.tee.pollForeground now).2 = .pending →
    transcript.tee.parked = none ∧ Source.Idle now transcript.tee.source.items

theorem Sound.pressed (h : Sound source expectedLength transcript)
    (within : transcript.Within capacity) : transcript.Pressed capacity := by
  have room := within.bounded.1
  rw [within.capacity] at room
  have held : ∀ now, transcript.tee.HeldBack now ↔
      transcript.tee.finished = false ∧ (transcript.tee.atHand? now).isSome ∧
        transcript.hasBackground = true ∧
        (Message.chunks transcript.tee.queue).length = capacity := by
    intro now
    rw [Tee.heldBack_iff, h.receiving, within.capacity]
    refine and_congr_right fun going => and_congr_right fun _ => and_congr_right fun _ => ?_
    rw [h.length_chunks going]
    omega
  have pending : ∀ now, (transcript.tee.pollForeground now).2 = .pending →
      transcript.tee.HeldBack now ∨
        transcript.tee.parked = none ∧ Source.Idle now transcript.tee.source.items := by
    intro now h
    obtain ⟨-, ⟨atHand, -⟩ | idle⟩ := Tee.pollForeground_eq_pending_iff.mp h
    · exact .inl ⟨h, atHand⟩
    · exact .inr idle
  refine ⟨fun there => ?_, pending, held, fun gone now h => ?_⟩
  · have lengths := congrArg List.length (h.queued there)
    rw [List.length_append] at lengths
    have few : (Message.chunks transcript.tee.queue).length ≤ transcript.tee.queue.length :=
      List.length_filterMap_le _ _
    omega
  · refine (pending now h).resolve_left fun heldBack => ?_
    cases gone.symm.trans ((held now).mp heldBack).2.2.1

theorem run_pressed (source : Source) (buffer : Nat) (expectedLength : Option Nat)
    (turns : List Turn) :
    ((start source buffer expectedLength).run turns).Pressed (max buffer 1) :=
  (run_sound (start_sound source buffer expectedLength) turns).pressed
    ((start_within source buffer expectedLength).run turns)

end Transcript

end Outpost.Stream
