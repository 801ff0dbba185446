import Outpost.Proofs.Stream.Agreement

/-!
# Bodies on their way to a reader

A reader polls a source, or the foreground half of a tee that copies it.  Either way it hears a
beginning of the source, and all of it by the time it hears an end; and if it polls on whenever
the source is due, it hears everything.
-/

namespace Outpost.Stream

theorem Fate.ofEnding_injective {first second : Except String Unit}
    (h : Fate.ofEnding first = Fate.ofEnding second) : first = second := by
  cases first <;> cases second <;> simp_all [Fate.ofEnding]

namespace Log

/-- What has been heard of a source: a beginning, and at an end all of it. -/
structure Follows (log : Log String) (source : Source) : Prop where
  isPrefix : log.bytes <+: source.bytes
  whole : ∀ ending, log.ending = some ending →
    log.bytes = source.bytes ∧ source.fate = Fate.ofEnding ending

/-- All of a source has been heard: its end, or what comes before it stalls. -/
def HearsAll (log : Log String) (source : Source) : Prop :=
  log.ending.isSome ∨ log.bytes = source.bytes ∧ source.fate = .stalls

variable {log other : Log String} {source : Source}

theorem Follows.bytes_of_hearsAll (h : log.Follows source) (all : log.HearsAll source) :
    log.bytes = source.bytes := by
  rcases all with ended | ⟨all, -⟩
  · obtain ⟨ending, ended⟩ := Option.isSome_iff_exists.mp ended
    exact (h.whole ending ended).1
  · exact all

theorem Follows.le_of_hearsAll (h : log.Follows source) (hother : other.Follows source)
    (all : other.HearsAll source) :
    log.bytes <+: other.bytes ∧
      ∀ ending, log.ending = some ending →
        log.bytes = other.bytes ∧ other.ending = some ending := by
  rw [hother.bytes_of_hearsAll all]
  refine ⟨h.isPrefix, fun ending ended => ?_⟩
  obtain ⟨bytes, fate⟩ := h.whole ending ended
  refine ⟨bytes, ?_⟩
  rcases all with otherEnded | ⟨-, stalls⟩
  · obtain ⟨otherEnding, otherEnded⟩ := Option.isSome_iff_exists.mp otherEnded
    have same := fate.symm.trans (hother.whole otherEnding otherEnded).2
    rw [otherEnded, Fate.ofEnding_injective same]
  · rw [stalls] at fate
    cases ending <;> cases fate

theorem Follows.eq_of_hearsAll (h : log.Follows source) (hother : other.Follows source)
    (all : log.HearsAll source) (otherAll : other.HearsAll source) :
    log.bytes = other.bytes ∧ log.ending = other.ending := by
  refine ⟨(h.bytes_of_hearsAll all).trans (hother.bytes_of_hearsAll otherAll).symm, ?_⟩
  cases ended : log.ending with
  | some ending => exact ((h.le_of_hearsAll hother otherAll).2 ending ended).2.symm
  | none =>
      cases otherEnded : other.ending with
      | none => rfl
      | some ending =>
          have same := ((hother.le_of_hearsAll h all).2 ending otherEnded).2
          cases ended.symm.trans same

theorem HearsAll.ended (all : log.HearsAll source) (goes : source.fate ≠ .stalls) :
    log.ending.isSome :=
  all.resolve_right fun stalled => goes stalled.2

end Log

/-! ## Polls of a source -/

structure Source.Leaves (source rest : Source) (log : Log String) : Prop where
  going : log.ending = none →
    log.bytes ++ rest.bytes = source.bytes ∧ rest.fate = source.fate
  spent : ∀ ending, log.ending = some ending →
    rest.items = [] ∧ log.bytes = source.bytes ∧ source.fate = Fate.ofEnding ending

namespace Source

variable {source rest : Source} {log : Log String} {now : Nat}

theorem leaves_start (source : Source) : source.Leaves source .empty where
  going _ := ⟨rfl, rfl⟩
  spent _ h := by cases h

theorem Leaves.follows (h : source.Leaves rest log) : log.Follows source where
  isPrefix := by
    cases hend : log.ending with
    | none => exact ⟨rest.bytes, (h.going hend).1⟩
    | some ending => exact ⟨[], (List.append_nil _).trans (h.spent ending hend).2.1⟩
  whole ending hend := (h.spent ending hend).2

theorem items_of_end (now : Nat) (items : List Item)
    (h : (pollItems now items).2 = .ended ∨ ∃ message, (pollItems now items).2 = .failed message) :
    (pollItems now items).1 = [] := by
  fun_induction pollItems now items <;> simp_all

theorem Leaves.poll (h : source.Leaves rest log) (now : Nat) :
    source.Leaves (rest.poll now).1 (log.note (rest.poll now).2) := by
  obtain ⟨items⟩ := rest
  cases hend : log.ending with
  | some ending =>
      obtain ⟨spent, whole⟩ := h.spent ending hend
      cases spent
      have same : log.note .ended = log :=
        Log.note_ended (Option.isSome_iff_exists.mpr ⟨ending, hend⟩)
      have polled : Source.poll now ⟨[]⟩ = (⟨[]⟩, .ended) := rfl
      rw [polled, same]
      exact h
  | none =>
      obtain ⟨bytes, fate⟩ := h.going hend
      have answers := pollItems_answers now items
      have spent := items_of_end now items
      have polled : Source.poll now ⟨items⟩ =
          (⟨(pollItems now items).1⟩, (pollItems now items).2) := rfl
      rw [polled]
      generalize pollItems now items = found at answers spent
      obtain ⟨left, answer⟩ := found
      cases answer with
      | pending =>
          refine ⟨fun _ => ⟨answers.1 ▸ bytes, answers.2.trans fate⟩, fun ending ended => ?_⟩
          cases hend.symm.trans ended
      | chunk chunk =>
          refine ⟨fun _ => ⟨?_, answers.2.trans fate⟩, fun ending ended => ?_⟩
          · rw [← bytes, ← answers.1]
            simp [Log.note, Log.bytes]
          · cases hend.symm.trans ended
      | ended =>
          rw [answers.1, List.append_nil] at bytes
          refine ⟨fun unended => ?_, fun ending ended => ?_⟩
          · simp [Log.note, hend] at unended
          · obtain rfl : .ok () = ending := by simpa [Log.note, hend] using ended
            exact ⟨spent (.inl rfl), bytes, fate.symm.trans answers.2⟩
      | failed message =>
          rw [answers.1, List.append_nil] at bytes
          refine ⟨fun unended => ?_, fun ending ended => ?_⟩
          · simp [Log.note, hend] at unended
          · obtain rfl : .error message = ending := by simpa [Log.note, hend] using ended
            exact ⟨spent (.inr ⟨message, rfl⟩), bytes, fate.symm.trans answers.2⟩

/-! ## Polling on -/

/-- How many polls it takes at most until nothing but an end or silence is left, if the reader
comes back whenever the source is due. -/
def pollsLeft : List Item → Nat
  | [] | .silence :: _ | .failure _ :: _ => 0
  | .delay _ :: rest => pollsLeft rest + 2
  | .chunk _ :: rest | .hold :: rest | .timer _ :: rest => pollsLeft rest + 1

def IsDue (source : Source) (now : Nat) : Prop := ∀ time, source.wakeTime? = some time → time ≤ now

theorem pollsLeft_pollItems (now : Nat) (items : List Item) :
    pollsLeft (pollItems now items).1 ≤ pollsLeft items := by
  fun_induction pollItems now items <;> simp_all [pollsLeft] <;> omega

theorem pollsLeft_pollItems_lt {items : List Item} (due : IsDue ⟨items⟩ now)
    (more : pollsLeft items ≠ 0) : pollsLeft (pollItems now items).1 < pollsLeft items := by
  cases items with
  | nil => exact absurd rfl more
  | cons item rest =>
      have onward := pollsLeft_pollItems now rest
      cases item with
      | delay duration =>
          unfold pollItems
          split <;> simp [pollsLeft]
          omega
      | timer time =>
          have passed : time ≤ now := due time rfl
          simp only [pollItems, if_pos passed, pollsLeft]
          omega
      | silence | failure => exact absurd rfl more
      | chunk | hold => simp [pollItems, pollsLeft]

theorem pollItems_of_pollsLeft (now : Nat) {items : List Item} (h : pollsLeft items = 0) :
    (pollItems now items).2 = .ended ∨ (∃ message, (pollItems now items).2 = .failed message) ∨
      (pollItems now items).2 = .pending ∧ bytes ⟨items⟩ = [] ∧ fate ⟨items⟩ = .stalls := by
  cases items with
  | nil => exact .inl rfl
  | cons item rest =>
      cases item with
      | failure message => exact .inr (.inl ⟨message, rfl⟩)
      | silence => exact .inr (.inr ⟨rfl, bytes_silence rest, rfl⟩)
      | delay | timer | chunk | hold => simp [pollsLeft] at h

/-- With one more poll everything has been heard. -/
theorem Leaves.hearsAll (h : source.Leaves rest log) (now : Nat)
    (last : pollsLeft rest.items = 0) : (log.note (rest.poll now).2).HearsAll source := by
  have polled : (rest.poll now).2 = (pollItems now rest.items).2 := rfl
  rw [polled]
  rcases pollItems_of_pollsLeft now last with ended | ⟨message, failed⟩ | ⟨pending, nothing, stalls⟩
  · exact .inl (by simp [ended, Log.note])
  · exact .inl (by simp [failed, Log.note])
  rw [pending]
  cases hend : log.ending with
  | some ending => exact .inl (Option.isSome_iff_exists.mpr ⟨ending, hend⟩)
  | none =>
      obtain ⟨bytes, fate⟩ := h.going hend
      rw [nothing, List.append_nil] at bytes
      exact .inr ⟨bytes, fate.symm.trans stalls⟩

end Source

/-! ## Polls of the foreground of a tee -/

namespace Transcript

variable {source : Source} {expectedLength : Option Nat} {transcript : Transcript}

theorem Sound.follows (h : Sound source expectedLength transcript)
    (fits : source.Fits expectedLength) : transcript.foreground.Follows source where
  isPrefix := h.isPrefix
  whole ending hend := by
    cases ending with
    | ok => exact h.met_of_complete fits (h.ended hend)
    | error message => exact (h.failed message hend).2.2

end Transcript

namespace Tee

variable {tee after : Tee}

def Bounded (tee : Tee) : Prop := tee.queue.length ≤ tee.capacity ∧ 0 < tee.capacity

def HasRoom (tee : Tee) : Prop := tee.receiving = true → tee.queue.length < tee.capacity

theorem start_bounded (source : Source) (buffer : Nat) (expectedLength : Option Nat) :
    (start source buffer expectedLength).Bounded := by
  unfold start
  simp only
  split <;> exact ⟨Nat.zero_le _, Nat.lt_of_lt_of_le Nat.one_pos (Nat.le_max_right buffer 1)⟩

theorem Bounded.deliver (h : tee.Bounded) (chunk : Bytes) : (tee.deliver chunk).Bounded := by
  unfold Tee.deliver
  simp only
  split <;> exact h

theorem Bounded.pass (h : tee.Bounded) (chunk : Bytes) : (tee.pass chunk).1.Bounded := by
  unfold Tee.pass
  split
  · split
    · rename_i room
      have queued : Bounded { tee with queue := tee.queue ++ [Message.chunk chunk] } :=
        ⟨by simpa using Nat.succ_le_of_lt room, h.2⟩
      exact queued.deliver chunk
    · exact h
  · exact h.deliver chunk

theorem Bounded.fail (h : tee.Bounded) (message : String) : (tee.fail message).Bounded := by
  unfold Tee.fail
  refine ⟨?_, h.2⟩
  simp only
  split
  · rename_i room
    simp only [Bool.and_eq_true, decide_eq_true_eq] at room
    simpa using Nat.succ_le_of_lt room.2
  · exact h.1

theorem Bounded.pollForeground (h : tee.Bounded) (now : Nat) :
    (tee.pollForeground now).1.Bounded := by
  unfold Tee.pollForeground
  split
  · exact h
  split
  · exact h.pass _
  · have polled : Bounded { tee with source := ⟨(pollSource now tee.source.items).1⟩ } := h
    simp only
    split
    · exact polled
    · exact polled.pass _
    · exact polled
    · exact polled.fail _

theorem Bounded.pollBackground (h : tee.Bounded) : tee.pollBackground.1.Bounded := by
  unfold Tee.pollBackground Bounded at *
  grind

theorem Bounded.dropBackground (h : tee.Bounded) : tee.dropBackground.Bounded :=
  ⟨Nat.zero_le _, h.2⟩

theorem pollBackground_eq (tee : Tee) :
    ∃ queue drained, tee.pollBackground.1 = { tee with queue, drained } := by
  unfold Tee.pollBackground
  repeat' split
  all_goals exact ⟨_, _, rfl⟩

theorem pollForeground_keeps (now : Nat) (tee : Tee) :
    (tee.pollForeground now).1.capacity = tee.capacity ∧
      (tee.pollForeground now).1.receiving = tee.receiving := by
  have delivered : ∀ (before : Tee) (chunk : Bytes),
      (before.deliver chunk).capacity = before.capacity ∧
        (before.deliver chunk).receiving = before.receiving := by
    intro before chunk
    unfold Tee.deliver
    simp only
    split <;> exact ⟨rfl, rfl⟩
  have passed : ∀ (before : Tee) (chunk : Bytes),
      (before.pass chunk).1.capacity = before.capacity ∧
        (before.pass chunk).1.receiving = before.receiving := by
    intro before chunk
    unfold Tee.pass
    repeat' split
    all_goals first | exact ⟨rfl, rfl⟩ | exact delivered _ _
  unfold Tee.pollForeground
  split
  · exact ⟨rfl, rfl⟩
  split
  · exact passed _ _
  · simp only
    split
    · exact ⟨rfl, rfl⟩
    · exact passed _ _
    · exact ⟨rfl, rfl⟩
    · exact ⟨rfl, rfl⟩

theorem receiving_pollForeground (now : Nat) (tee : Tee) :
    (tee.pollForeground now).1.receiving = tee.receiving := (pollForeground_keeps now tee).2

theorem Bounded.hasRoom (h : tee.Bounded)
    (goes : tee.pollBackground.2 = .pending ∨ ∃ chunk, tee.pollBackground.2 = .chunk chunk) :
    tee.pollBackground.1.HasRoom := by
  unfold Tee.pollBackground HasRoom Bounded at *
  grind

/-! ## Polling on through a tee -/

theorem pollsLeft_pollSource (now : Nat) (items : List Item) :
    Source.pollsLeft (pollSource now items).1 ≤ Source.pollsLeft items := by
  fun_induction pollSource now items with
  | case6 items => exact Source.pollsLeft_pollItems now items
  | _ => simp_all [Source.pollsLeft] <;> omega

theorem pollsLeft_pollSource_lt {now : Nat} {items : List Item} (due : Source.IsDue ⟨items⟩ now)
    (more : Source.pollsLeft items ≠ 0) :
    Source.pollsLeft (pollSource now items).1 < Source.pollsLeft items := by
  cases items with
  | nil => exact absurd rfl more
  | cons item rest =>
      have onward := pollsLeft_pollSource now rest
      cases item with
      | chunk bytes =>
          cases bytes with
          | nil =>
              simp only [pollSource, Source.pollsLeft]
              omega
          | cons byte bytes => exact Nat.lt_succ_self _
      | delay duration =>
          unfold pollSource
          split <;> simp [Source.pollsLeft]
          omega
      | timer time =>
          have passed : time ≤ now := due time rfl
          simp only [pollSource, if_pos passed, Source.pollsLeft]
          omega
      | silence | failure => exact absurd rfl more
      | hold => exact Nat.lt_succ_self _

theorem pollSource_of_pollsLeft (now : Nat) {items : List Item} (h : Source.pollsLeft items = 0) :
    pollSource now items = Source.pollItems now items := by
  cases items with
  | nil => rfl
  | cons item rest =>
      cases item with
      | failure | silence | hold => rfl
      | delay | timer | chunk => simp [Source.pollsLeft] at h

def pollsLeft (tee : Tee) : Nat :=
  Source.pollsLeft tee.source.items + if tee.parked.isSome then 1 else 0

theorem pollsLeft_pass {tee : Tee} (room : tee.HasRoom) (chunk : Bytes) :
    (tee.pass chunk).1.pollsLeft = Source.pollsLeft tee.source.items := by
  have delivered : ∀ before : Tee, before.source = tee.source →
      (before.deliver chunk).pollsLeft = Source.pollsLeft tee.source.items := by
    intro before same
    unfold Tee.deliver
    simp only
    split <;> simp [pollsLeft, finish, same]
  unfold Tee.pass
  split
  · rename_i receiving
    rw [if_pos (room receiving)]
    exact delivered _ rfl
  · exact delivered _ rfl

theorem pollsLeft_pollForeground_lt {now : Nat} {tee : Tee} (unfinished : tee.finished = false)
    (room : tee.HasRoom) (due : tee.source.IsDue now) (more : tee.pollsLeft ≠ 0) :
    (tee.pollForeground now).1.pollsLeft < tee.pollsLeft := by
  unfold Tee.pollForeground
  rw [if_neg (by simp [unfinished])]
  split
  · rename_i chunk parked
    rw [pollsLeft_pass room]
    simp [pollsLeft, parked]
  · rename_i parked
    have left : tee.pollsLeft = Source.pollsLeft tee.source.items := by simp [pollsLeft, parked]
    rw [left] at more ⊢
    have less := pollsLeft_pollSource_lt due more
    have polled : HasRoom { tee with source := ⟨(pollSource now tee.source.items).1⟩ } := room
    simp only
    split
    · simpa [pollsLeft, parked] using less
    · rw [pollsLeft_pass polled]
      exact less
    · simpa [pollsLeft, finish, parked] using less
    · simpa [pollsLeft, fail, parked] using less

end Tee

theorem Transcript.Sound.hearsAll {source : Source} {expectedLength : Option Nat}
    {transcript : Transcript} (h : Sound source expectedLength transcript) (now : Nat)
    (last : transcript.tee.finished = true ∨ transcript.tee.pollsLeft = 0) :
    (transcript.foreground.note (transcript.tee.pollForeground now).2).HearsAll source := by
  by_cases finished : transcript.tee.finished = true
  · exact .inl (by simp [Tee.pollForeground, finished, Log.note])
  rw [Bool.not_eq_true] at finished
  have spent := last.resolve_left (by simp [finished])
  unfold Tee.pollsLeft at spent
  have parked : transcript.tee.parked = none := by
    cases hparked : transcript.tee.parked with
    | none => rfl
    | some chunk => simp [hparked] at spent
  obtain ⟨hopen, -, -, bytes, fate⟩ := h.going finished
  have left : Source.pollsLeft transcript.tee.source.items = 0 := by omega
  have polled := Tee.pollSource_of_pollsLeft now left
  have rest := Source.pollItems_of_pollsLeft now left
  rw [← polled] at rest
  unfold Tee.pollForeground
  simp only [finished, parked, Bool.false_eq_true, if_false]
  generalize Tee.pollSource now transcript.tee.source.items = found at rest
  obtain ⟨items, answer⟩ := found
  rcases rest with rfl | ⟨message, rfl⟩ | ⟨rfl, nothing, stalls⟩
  · exact .inl (by simp [Log.note])
  · exact .inl (by simp [Log.note])
  · refine .inr ⟨?_, fate.symm.trans stalls⟩
    rw [parked, nothing] at bytes
    simpa [Log.note] using bytes

end Outpost.Stream
