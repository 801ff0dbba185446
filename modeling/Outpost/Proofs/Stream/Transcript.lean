import Outpost.Proofs.Stream.Source

/-!
# Transcripts of a tee

Polls of the two halves of a tee and drops of either half come in any order.  A transcript keeps,
beside the tee, what each half has brought by then; `Sound` ties it to the source, and every turn
keeps it.
-/

namespace Outpost.Stream

structure Log (ε : Type) where
  chunks : List Bytes
  ending : Option (Except ε Unit)

namespace Log

variable {ε : Type}

def empty : Log ε := ⟨[], none⟩

def note (log : Log ε) : Poll ε → Log ε
  | .pending => log
  | .chunk bytes => { log with chunks := log.chunks ++ [bytes] }
  | .ended => { log with ending := log.ending.or (some (.ok ())) }
  | .failed error => { log with ending := log.ending.or (some (.error error)) }

def bytes (log : Log ε) : Bytes := log.chunks.flatten

theorem note_ended {log : Log ε} (h : log.ending.isSome) : log.note .ended = log := by
  obtain ⟨chunks, ending⟩ := log
  obtain ⟨ending, rfl⟩ := Option.isSome_iff_exists.mp h
  rfl

end Log

inductive Turn where
  | pollForeground (now : Nat)
  | pollBackground
  | dropForeground
  | dropBackground
  deriving DecidableEq, Repr

structure Transcript where
  tee : Tee
  hasForeground : Bool
  hasBackground : Bool
  foreground : Log String
  background : Log TeeError

namespace Transcript

def start (source : Source) (buffer : Nat) (expectedLength : Option Nat) : Transcript :=
  ⟨Tee.start source buffer expectedLength, true, true, .empty, .empty⟩

def turn (transcript : Transcript) : Turn → Transcript
  | .pollForeground now =>
      if transcript.hasForeground then
        let (tee, poll) := transcript.tee.pollForeground now
        { transcript with tee, foreground := transcript.foreground.note poll }
      else transcript
  | .pollBackground =>
      if transcript.hasBackground then
        let (tee, poll) := transcript.tee.pollBackground
        { transcript with tee, background := transcript.background.note poll }
      else transcript
  | .dropForeground =>
      { transcript with tee := transcript.tee.dropForeground, hasForeground := false }
  | .dropBackground =>
      { transcript with tee := transcript.tee.dropBackground, hasBackground := false }

def run (transcript : Transcript) (turns : List Turn) : Transcript := turns.foldl turn transcript

end Transcript

def Message.chunks (queue : List Message) : List Bytes :=
  queue.filterMap fun message =>
    match message with
    | .chunk bytes => some bytes
    | .failure _ => none

@[simp] theorem Message.chunks_nil : Message.chunks [] = [] := rfl

@[simp] theorem Message.chunks_chunk (bytes : Bytes) (queue : List Message) :
    Message.chunks (.chunk bytes :: queue) = bytes :: Message.chunks queue := rfl

@[simp] theorem Message.chunks_failure (message : String) (queue : List Message) :
    Message.chunks (.failure message :: queue) = Message.chunks queue := rfl

@[simp] theorem Message.chunks_append (first second : List Message) :
    Message.chunks (first ++ second) = Message.chunks first ++ Message.chunks second := by
  simp [Message.chunks]

theorem Message.chunks_fail (tee : Tee) (message : String) :
    Message.chunks (tee.fail message).queue = Message.chunks tee.queue := by
  unfold Tee.fail
  simp only
  split <;> simp

namespace Transcript

/-! ## What holds at every turn -/

/-- The foreground has brought all bytes of the source, which ends so. -/
def Met (source : Source) (transcript : Transcript) (fate : Fate) : Prop :=
  transcript.foreground.bytes = source.bytes ∧ source.fate = fate

structure Sound (source : Source) (expectedLength : Option Nat) (transcript : Transcript) :
    Prop where
  expected : transcript.tee.expectedLength = expectedLength
  delivered : transcript.tee.delivered = transcript.foreground.bytes.length
  receiving : transcript.tee.receiving = transcript.hasBackground
  sending : transcript.tee.sending = !transcript.tee.finished
  drained : transcript.tee.drained = transcript.background.ending.isSome
  going : transcript.tee.finished = false →
    transcript.foreground.ending = none ∧ transcript.tee.complete = false ∧
      transcript.tee.reachedExpectedLength = false ∧
      transcript.foreground.bytes ++
        (transcript.tee.parked.getD [] ++ transcript.tee.source.bytes) = source.bytes ∧
      transcript.tee.source.fate = source.fate
  isPrefix : transcript.foreground.bytes <+: source.bytes
  ended : transcript.foreground.ending = some (.ok ()) → transcript.tee.complete = true
  failed : ∀ message, transcript.foreground.ending = some (.error message) →
    transcript.tee.finished = true ∧ transcript.tee.complete = false ∧
      Met source transcript (.fails message)
  complete : transcript.tee.complete = true → transcript.tee.finished = true ∧
    (Met source transcript .ends ∧ transcript.foreground.ending = some (.ok ()) ∨
      transcript.tee.reachedExpectedLength = true)
  reached : transcript.tee.reachedExpectedLength = true → transcript.tee.complete = true
  stopped : transcript.tee.finished = true → transcript.hasForeground = true →
    transcript.foreground.ending = none → transcript.tee.complete = true
  queued : transcript.hasBackground = true →
    transcript.background.chunks ++ Message.chunks transcript.tee.queue =
      transcript.foreground.chunks
  told : ∀ message, Message.failure message ∈ transcript.tee.queue →
    transcript.tee.finished = true ∧ transcript.tee.complete = false
  backgroundEnd : ∀ ending, transcript.background.ending = some ending →
    transcript.tee.finished = true ∧ (ending = .ok () ↔ transcript.tee.complete = true) ∧
      (ending = .ok () → transcript.background.chunks = transcript.foreground.chunks)

theorem start_sound (source : Source) (buffer : Nat) (expectedLength : Option Nat) :
    Sound source expectedLength (start source buffer expectedLength) := by
  unfold start Tee.start
  split
  · rename_i declaredEmpty
    constructor <;>
      simp [Log.empty, Log.bytes, Tee.finish, Tee.reachedExpectedLength, declaredEmpty]
  · rename_i notEmpty
    have short : ∀ length, expectedLength = some length → 0 < length := by
      intro length declared
      rcases Nat.eq_zero_or_pos length with rfl | positive
      · exact absurd declared notEmpty
      · exact positive
    constructor <;> cases expectedLength <;>
      simp_all [Log.empty, Log.bytes, Tee.reachedExpectedLength]

variable {source : Source} {expectedLength : Option Nat} {transcript : Transcript}

theorem Sound.dropForeground (h : Sound source expectedLength transcript) :
    Sound source expectedLength (transcript.turn .dropForeground) where
  expected := h.expected
  delivered := h.delivered
  receiving := h.receiving
  sending := rfl
  drained := h.drained
  going := by
    intro unfinished
    cases unfinished
  isPrefix := h.isPrefix
  ended := h.ended
  failed := fun message hend => ⟨rfl, (h.failed message hend).2⟩
  complete := fun complete => ⟨rfl, (h.complete complete).2⟩
  reached := h.reached
  stopped := by
    intro _ there
    cases there
  queued := h.queued
  told := fun message member => ⟨rfl, (h.told message member).2⟩
  backgroundEnd := fun ending hend => ⟨rfl, (h.backgroundEnd ending hend).2⟩

theorem Sound.dropBackground (h : Sound source expectedLength transcript) :
    Sound source expectedLength (transcript.turn .dropBackground) where
  expected := h.expected
  delivered := h.delivered
  receiving := rfl
  sending := h.sending
  drained := h.drained
  going := h.going
  isPrefix := h.isPrefix
  ended := h.ended
  failed := h.failed
  complete := h.complete
  reached := h.reached
  stopped := h.stopped
  queued := by
    intro there
    cases there
  told := by
    intro message member
    cases member
  backgroundEnd := h.backgroundEnd

theorem Sound.endBackground (h : Sound source expectedLength transcript)
    (queue : List Message) (subqueue : ∀ message ∈ queue, message ∈ transcript.tee.queue)
    (chunks : Message.chunks queue = Message.chunks transcript.tee.queue)
    (finished : transcript.tee.finished = true)
    (hopen : transcript.background.ending = none) (ending : Except TeeError Unit)
    (truthful : ending = .ok () ↔ transcript.tee.complete = true)
    (all : ending = .ok () → transcript.background.chunks = transcript.foreground.chunks) :
    Sound source expectedLength
      { transcript with
        tee := { transcript.tee with queue, drained := true }
        background := { transcript.background with
          ending := transcript.background.ending.or (some ending) } } where
  expected := h.expected
  delivered := h.delivered
  receiving := h.receiving
  sending := h.sending
  drained := by rw [hopen]; rfl
  going := h.going
  isPrefix := h.isPrefix
  ended := h.ended
  failed := h.failed
  complete := h.complete
  reached := h.reached
  stopped := h.stopped
  queued := by
    intro there
    simpa only [chunks] using h.queued there
  told := fun message member => h.told message (subqueue _ member)
  backgroundEnd := by
    intro other hend
    rw [hopen] at hend
    cases hend
    exact ⟨finished, truthful, all⟩

theorem Sound.pollBackground (h : Sound source expectedLength transcript) :
    Sound source expectedLength (transcript.turn .pollBackground) := by
  unfold turn
  simp only
  split
  case isFalse => exact h
  rename_i there
  have queued := h.queued there
  unfold Tee.pollBackground
  split
  · rename_i drained
    simpa only [Log.note_ended (h.drained ▸ drained)] using h
  rename_i undrained
  have hopen : transcript.background.ending = none := by
    cases hend : transcript.background.ending with
    | none => rfl
    | some ending =>
        have := h.drained
        rw [hend] at this
        exact absurd this undrained
  split
  · rename_i bytes rest queue
    exact { h with
      drained := h.drained
      queued := fun _ => by simpa [Log.note, queue] using queued
      told := fun message member => h.told message (queue ▸ List.mem_cons_of_mem _ member)
      backgroundEnd := by
        intro ending hend
        rw [show (transcript.background.note (.chunk bytes)).ending = none from hopen] at hend
        cases hend }
  · rename_i message rest queue
    have told := h.told message (queue ▸ List.mem_cons_self)
    exact h.endBackground rest (fun _ member => queue ▸ List.mem_cons_of_mem _ member)
      (by rw [queue]; rfl) told.1 hopen _ (by simp [told.2]) (by simp)
  · rename_i queue
    have all : transcript.background.chunks = transcript.foreground.chunks := by
      simpa [queue] using queued
    split
    · exact h
    · rename_i unsent
      have finished : transcript.tee.finished = true := by
        simpa [h.sending] using unsent
      split
      · rename_i complete
        exact h.endBackground _ (fun _ member => member) rfl finished hopen _
          (by simp [complete]) (fun _ => all)
      · rename_i incomplete
        exact h.endBackground _ (fun _ member => member) rfl finished hopen _
          (by simp [incomplete]) (fun _ => all)

/-- The background comes to its end only after the foreground has. -/
theorem Sound.unheard (h : Sound source expectedLength transcript)
    (unfinished : transcript.tee.finished = false) : transcript.background.ending = none := by
  cases hend : transcript.background.ending with
  | none => rfl
  | some ending => cases unfinished.symm.trans (h.backgroundEnd ending hend).1

theorem Sound.deliver (h : Sound source expectedLength transcript)
    (unfinished : transcript.tee.finished = false) (rest : Source) (chunk : Bytes)
    (bytes : transcript.foreground.bytes ++ (chunk ++ rest.bytes) = source.bytes)
    (fate : rest.fate = source.fate) (queue : List Message)
    (copied : transcript.hasBackground = true →
      transcript.background.chunks ++ Message.chunks queue =
        transcript.foreground.chunks ++ [chunk])
    (untold : ∀ message, Message.failure message ∉ queue) :
    Sound source expectedLength
      { transcript with
        tee := { transcript.tee with source := rest, queue }.deliver chunk
        foreground := transcript.foreground.note (.chunk chunk) } := by
  obtain ⟨hopen, incomplete, -⟩ := h.going unfinished
  have grown : (transcript.foreground.note (.chunk chunk)).bytes =
      transcript.foreground.bytes ++ chunk := by
    simp [Log.note, Log.bytes]
  have delivered : transcript.tee.delivered + chunk.length =
      (transcript.foreground.note (.chunk chunk)).bytes.length := by
    rw [grown, h.delivered, List.length_append]
  have all : (transcript.foreground.note (.chunk chunk)).bytes ++ ([] ++ rest.bytes) =
      source.bytes := by
    rw [grown, List.nil_append, List.append_assoc]
    exact bytes
  have unheard := h.unheard unfinished
  have isPrefix : (transcript.foreground.note (.chunk chunk)).bytes <+: source.bytes :=
    ⟨rest.bytes, all⟩
  unfold Tee.deliver
  simp only
  split
  · rename_i reached
    exact {
      expected := h.expected
      delivered := delivered
      receiving := h.receiving
      sending := rfl
      drained := h.drained
      going := fun hgoing => by cases hgoing
      isPrefix := isPrefix
      ended := fun _ => rfl
      failed := fun message hend => by cases hopen.symm.trans hend
      complete := fun _ => ⟨rfl, .inr reached⟩
      reached := fun _ => rfl
      stopped := fun _ _ _ => rfl
      queued := copied
      told := fun message member => absurd member (untold message)
      backgroundEnd := fun ending hend => by cases unheard.symm.trans hend }
  · rename_i short
    exact {
      expected := h.expected
      delivered := delivered
      receiving := h.receiving
      sending := h.sending
      drained := h.drained
      going := fun _ => ⟨hopen, incomplete, by simpa using short, all, fate⟩
      isPrefix := isPrefix
      ended := fun hend => by cases hopen.symm.trans hend
      failed := fun message hend => by cases hopen.symm.trans hend
      complete := fun complete => by cases incomplete.symm.trans complete
      reached := fun reached => absurd reached short
      stopped := fun finished => by cases unfinished.symm.trans finished
      queued := copied
      told := fun message member => absurd member (untold message)
      backgroundEnd := fun ending hend => by cases unheard.symm.trans hend }

theorem Sound.pass (h : Sound source expectedLength transcript)
    (unfinished : transcript.tee.finished = false) (rest : Source) (chunk : Bytes)
    (bytes : transcript.foreground.bytes ++ (chunk ++ rest.bytes) = source.bytes)
    (fate : rest.fate = source.fate) :
    Sound source expectedLength
      { transcript with
        tee := ({ transcript.tee with source := rest }.pass chunk).1
        foreground :=
          transcript.foreground.note ({ transcript.tee with source := rest }.pass chunk).2 } := by
  have untold : ∀ message, Message.failure message ∉ transcript.tee.queue :=
    fun message member => by cases unfinished.symm.trans (h.told message member).1
  unfold Tee.pass
  simp only
  split
  · rename_i receiving
    have hears : transcript.hasBackground = true := h.receiving ▸ receiving
    split
    · exact h.deliver unfinished rest chunk bytes fate _
        (fun _ => by simp [← h.queued hears]) (by simpa using untold)
    · exact { h with
        going := fun _ => by
          obtain ⟨hopen, incomplete, short, -, -⟩ := h.going unfinished
          exact ⟨hopen, incomplete, short, bytes, fate⟩ }
  · rename_i deaf
    exact h.deliver unfinished rest chunk bytes fate _
      (fun hears => absurd (h.receiving ▸ hears) deaf) untold

theorem Sound.pollStopped (h : Sound source expectedLength transcript)
    (there : transcript.hasForeground = true) (finished : transcript.tee.finished = true) :
    Sound source expectedLength
      { transcript with foreground := transcript.foreground.note .ended } := by
  cases hopen : transcript.foreground.ending with
  | some ending =>
      rw [Log.note_ended (Option.isSome_iff_exists.mpr ⟨ending, hopen⟩)]
      exact h
  | none =>
      have complete : transcript.tee.complete = true := h.stopped finished there hopen
      exact { h with
        going := fun hgoing => by cases finished.symm.trans hgoing
        ended := fun _ => complete
        failed := fun message hend => by
          rw [show (transcript.foreground.note .ended).ending = some (.ok ()) by
            simp [Log.note, hopen]] at hend
          cases hend
        complete := fun _ => ⟨finished, .inr (by
          rcases (h.complete complete).2 with ⟨-, hend⟩ | reached
          · cases hopen.symm.trans hend
          · exact reached)⟩
        stopped := fun _ _ _ => complete }

theorem Sound.finish (h : Sound source expectedLength transcript)
    (unfinished : transcript.tee.finished = false) (rest : Source)
    (met : Met source transcript .ends) :
    Sound source expectedLength
      { transcript with
        tee := { transcript.tee with source := rest }.finish
        foreground := transcript.foreground.note .ended } := by
  obtain ⟨hopen, -⟩ := h.going unfinished
  have ended : (transcript.foreground.note .ended).ending = some (.ok ()) := by
    simp [Log.note, hopen]
  exact { h with
    sending := rfl
    going := fun hgoing => by cases hgoing
    ended := fun _ => rfl
    failed := fun message hend => by cases ended.symm.trans hend
    complete := fun _ => ⟨rfl, .inl ⟨met, ended⟩⟩
    reached := fun _ => rfl
    stopped := fun _ _ _ => rfl
    told := fun message member => by cases unfinished.symm.trans (h.told message member).1
    backgroundEnd := fun ending hend => by cases (h.unheard unfinished).symm.trans hend }

theorem Sound.fail (h : Sound source expectedLength transcript)
    (unfinished : transcript.tee.finished = false) (rest : Source) (message : String)
    (met : Met source transcript (.fails message)) :
    Sound source expectedLength
      { transcript with
        tee := { transcript.tee with source := rest }.fail message
        foreground := transcript.foreground.note (.failed message) } := by
  obtain ⟨hopen, incomplete, short, -⟩ := h.going unfinished
  have failed : (transcript.foreground.note (.failed message)).ending = some (.error message) := by
    simp [Log.note, hopen]
  exact { h with
    sending := rfl
    going := fun hgoing => by cases hgoing
    ended := fun hend => by cases failed.symm.trans hend
    failed := fun other hend => by
      cases failed.symm.trans hend
      exact ⟨rfl, incomplete, met⟩
    complete := fun complete => by cases incomplete.symm.trans complete
    reached := fun reached => by cases short.symm.trans reached
    stopped := fun _ _ hend => by cases failed.symm.trans hend
    queued := fun there =>
      (congrArg (_ ++ ·) (Message.chunks_fail _ message)).trans (h.queued there)
    told := fun _ _ => ⟨rfl, incomplete⟩
    backgroundEnd := fun ending hend => by cases (h.unheard unfinished).symm.trans hend }

theorem Sound.pollForeground (h : Sound source expectedLength transcript) (now : Nat) :
    Sound source expectedLength (transcript.turn (.pollForeground now)) := by
  unfold turn
  simp only
  split
  case isFalse => exact h
  rename_i there
  unfold Tee.pollForeground
  split
  · rename_i finished
    exact h.pollStopped there finished
  rename_i unfinished
  rw [Bool.not_eq_true] at unfinished
  obtain ⟨hopen, incomplete, short, bytes, fate⟩ := h.going unfinished
  split
  · rename_i chunk parked
    rw [parked] at bytes
    exact h.pass unfinished transcript.tee.source chunk bytes fate
  · rename_i parked
    rw [parked, Option.getD_none, List.nil_append] at bytes
    have answers := Source.pollSource_answers now transcript.tee.source.items
    generalize Tee.pollSource now transcript.tee.source.items = polled at answers ⊢
    obtain ⟨items, poll⟩ := polled
    cases poll with
    | pending =>
        exact { h with
          going := fun _ => ⟨hopen, incomplete, short,
            by rw [parked, Option.getD_none, List.nil_append, answers.1]; exact bytes,
            answers.2.trans fate⟩ }
    | chunk chunk =>
        exact h.pass unfinished ⟨items⟩ chunk (answers.1.symm ▸ bytes) (answers.2.trans fate)
    | ended =>
        refine h.finish unfinished ⟨items⟩ ⟨?_, fate.symm.trans answers.2⟩
        rw [← bytes, answers.1, List.append_nil]
    | failed message =>
        refine h.fail unfinished ⟨items⟩ message ⟨?_, fate.symm.trans answers.2⟩
        rw [← bytes, answers.1, List.append_nil]

theorem turn_sound (h : Sound source expectedLength transcript) (turn : Turn) :
    Sound source expectedLength (transcript.turn turn) := by
  cases turn with
  | pollForeground now => exact h.pollForeground now
  | pollBackground => exact h.pollBackground
  | dropForeground => exact h.dropForeground
  | dropBackground => exact h.dropBackground

theorem run_sound (h : Sound source expectedLength transcript) (turns : List Turn) :
    Sound source expectedLength (transcript.run turns) := by
  induction turns generalizing transcript with
  | nil => exact h
  | cons turn turns ih => exact ih (turn_sound h turn)

end Transcript

end Outpost.Stream
