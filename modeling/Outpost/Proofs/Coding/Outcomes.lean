import Outpost.Coding.ContentCoding
import Outpost.Proofs.Coding.Member
import Outpost.Proofs.Stream.Deliveries

/-!
# What reading a body comes to

A body that is read to its end, through a decoder if it has a coding, comes to an outcome that its
bytes and its fate decide.  How the bytes are cut into chunks, and when the reader looks, makes no
difference, and a reader that looks again whenever something is due gets there.
-/

namespace Outpost.Coding

open Outpost.Stream Source

/-- What bytes that come to this fate amount to, if they ever do.  A decoder has enough as soon as
one member is complete, or has a fault. -/
def outcome? (format : Option Format) (bytes : Bytes) (fate : Fate) :
    Option (Except Unit Bytes) :=
  match format with
  | none =>
      match fate with
      | .ends => some (.ok bytes)
      | .fails _ => some (.error ())
      | .stalls => none
  | some format =>
      match decode format bytes with
      | .ok contents => some (.ok contents)
      | .error .corrupt => some (.error ())
      | .error .starved => if fate = .stalls then none else some (.error ())

section Outcome

variable {format : Format} {bytes contents : Bytes}

theorem outcome?_of_ok (decoded : decode format bytes = .ok contents) (fate : Fate) :
    outcome? (some format) bytes fate = some (.ok contents) := by
  unfold outcome?
  simp only [decoded]

theorem outcome?_of_corrupt (corrupt : decode format bytes = .error .corrupt) (fate : Fate) :
    outcome? (some format) bytes fate = some (.error ()) := by
  unfold outcome?
  simp only [corrupt]

theorem outcome?_of_starved (starved : decode format bytes = .error .starved) (fate : Fate) :
    outcome? (some format) bytes fate = if fate = .stalls then none else some (.error ()) := by
  unfold outcome?
  simp only [starved]

end Outcome

namespace Collector

def outcome? (collector : Collector) (source : Source) : Option (Except Unit Bytes) :=
  Coding.outcome? collector.format (collector.received ++ source.bytes) source.fate

def Undecided (collector : Collector) : Prop :=
  ∀ format, collector.format = some format → decode format collector.received = .error .starved

variable {collector grown : Collector} {chunk : Bytes} {items : List Item}

theorem start_undecided (format : Option Format) : (start format).Undecided :=
  fun format _ => decode_nil format

theorem feed_decides {result : Except Unit Bytes}
    (fed : collector.feed chunk = (grown, some result)) :
    collector.outcome? ⟨.chunk chunk :: items⟩ = some result := by
  unfold feed at fed
  simp only at fed
  split at fed
  · cases fed
  rename_i format coded
  unfold outcome?
  rw [coded, bytes_chunk, ← List.append_assoc]
  split at fed
  · rename_i contents decoded
    cases fed
    exact outcome?_of_ok (decode_append decoded _) _
  · rename_i corrupt
    cases fed
    exact outcome?_of_corrupt (decode_faults corrupt _) _
  · cases fed

theorem feed_continues (fed : collector.feed chunk = (grown, none)) :
    grown.Undecided ∧ grown.outcome? ⟨items⟩ = collector.outcome? ⟨.chunk chunk :: items⟩ := by
  have shape : grown = { collector with received := collector.received ++ chunk } := by
    unfold feed at fed
    simp only at fed
    repeat' split at fed
    all_goals cases fed
    all_goals rfl
  subst shape
  refine ⟨fun format coded => ?_, ?_⟩
  · unfold feed at fed
    simp only [show collector.format = some format from coded] at fed
    split at fed
    · cases fed
    · cases fed
    · assumption
  · unfold outcome?
    rw [bytes_chunk, List.append_assoc]
    rfl

/-- With nothing more to come, the fate decides. -/
theorem outcome?_of_spent (undecided : collector.Undecided) {source : Source}
    (spent : source.bytes = []) : collector.outcome? source =
      match source.fate with
      | .ends => some collector.finish
      | .fails _ => some (.error ())
      | .stalls => none := by
  unfold outcome? finish
  rw [spent, List.append_nil]
  cases coded : collector.format with
  | none => rfl
  | some format =>
      rw [outcome?_of_starved (undecided format coded)]
      cases source.fate <;> rfl

end Collector

/-! ## Reading what is there -/

def Collected (collector : Collector) (items : List Item) :
    List Item × Collector × Option (Except Unit Bytes) → Prop
  | (_, _, some body) => collector.outcome? ⟨items⟩ = some body
  | (rest, grown, none) => grown.Undecided ∧ grown.outcome? ⟨rest⟩ = collector.outcome? ⟨items⟩

section Collected

variable {collector grown : Collector} {items rest : List Item}
  {found : List Item × Collector × Option (Except Unit Bytes)}

theorem Collected.of_congr (h : Collected grown rest found)
    (same : grown.outcome? ⟨rest⟩ = collector.outcome? ⟨items⟩) :
    Collected collector items found := by
  obtain ⟨left, last, known⟩ := found
  cases known with
  | some body => exact same.symm.trans h
  | none => exact ⟨h.1, h.2.trans same⟩

theorem Collected.outcome_eq (h : Collected collector items found) {body : Except Unit Bytes}
    (known : found.2.2 = some body) : collector.outcome? ⟨items⟩ = some body := by
  obtain ⟨left, last, _⟩ := found
  cases known
  exact h

end Collected

theorem collectItems_collected (now : Nat) (collector : Collector) (items : List Item)
    (undecided : collector.Undecided) :
    Collected collector items (collectItems now collector items) := by
  have paused : ∀ (collector : Collector) {item : Item} {rest : List Item},
      bytes ⟨item :: rest⟩ = bytes ⟨rest⟩ → fate ⟨item :: rest⟩ = fate ⟨rest⟩ →
      collector.outcome? ⟨rest⟩ = collector.outcome? ⟨item :: rest⟩ := by
    intro collector item rest bytes fate
    unfold Collector.outcome?
    rw [bytes, fate]
  fun_induction collectItems now collector items with
  | case1 collector => exact Collector.outcome?_of_spent undecided bytes_nil
  | case2 collector bytes rest grown result fed => exact Collector.feed_decides fed
  | case3 collector bytes rest grown fed ih =>
      obtain ⟨still, same⟩ := Collector.feed_continues fed
      exact (ih still).of_congr same
  | case4 collector rest => exact ⟨undecided, paused collector (bytes_hold rest) rfl⟩
  | case5 collector rest ih =>
      exact (ih undecided).of_congr (paused collector (bytes_delay 0 rest) rfl)
  | case6 collector duration rest pausing =>
      refine ⟨undecided, ?_⟩
      rw [← paused collector (bytes_timer _ rest) rfl,
        paused collector (bytes_delay duration rest) rfl]
  | case7 collector time rest passed ih =>
      exact (ih undecided).of_congr (paused collector (bytes_timer time rest) rfl)
  | case8 collector time rest coming => exact ⟨undecided, rfl⟩
  | case9 collector rest => exact ⟨undecided, rfl⟩
  | case10 collector message rest =>
      exact Collector.outcome?_of_spent undecided (bytes_failure message rest)

/-! ## Looking on -/

theorem pollsLeft_collectItems (now : Nat) (collector : Collector) (items : List Item) :
    pollsLeft (collectItems now collector items).1 ≤ pollsLeft items := by
  fun_induction collectItems now collector items <;> simp_all [pollsLeft] <;> omega

theorem pollsLeft_collectItems_lt {now : Nat} (collector : Collector) {items : List Item}
    (due : IsDue ⟨items⟩ now) (more : pollsLeft items ≠ 0) :
    pollsLeft (collectItems now collector items).1 < pollsLeft items := by
  cases items with
  | nil => exact absurd rfl more
  | cons item rest =>
      have onward := pollsLeft_collectItems now collector rest
      cases item with
      | chunk bytes =>
          unfold collectItems
          split
          · exact Nat.lt_succ_self _
          · exact Nat.lt_succ_of_le (pollsLeft_collectItems now _ rest)
      | delay duration =>
          unfold collectItems
          split <;> simp only [pollsLeft] <;> omega
      | timer time =>
          have passed : time ≤ now := due time rfl
          simp only [collectItems, if_pos passed, pollsLeft]
          omega
      | hold => simp [collectItems, pollsLeft]
      | silence | failure => exact absurd rfl more

theorem collectItems_of_pollsLeft (now : Nat) {collector : Collector} {items : List Item}
    (undecided : collector.Undecided) (decides : (collector.outcome? ⟨items⟩).isSome)
    (last : pollsLeft items = 0) : (collectItems now collector items).2.2.isSome := by
  cases items with
  | nil => rfl
  | cons item rest =>
      cases item with
      | failure message => rfl
      | silence =>
          rw [Collector.outcome?_of_spent undecided (bytes_silence rest)] at decides
          cases decides
      | chunk | hold | delay | timer => simp [pollsLeft] at last

end Outpost.Coding
