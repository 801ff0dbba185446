import Mathlib.Data.List.Induction
import Mathlib.Data.List.Pairwise
import Outpost.Proofs.Store.Keys
import Outpost.Store.Pending

/-!
# Keys with guards

A pending key has a guard, and stays pending until the guard is dropped.  Two keys collide if one
of them begins with all segments of the other, and so no key that is pending at one time begins
with the segments of another one.
-/

namespace Outpost

theorem Bytes.isPrefix_of_ofText {front text : String} {back : Bytes}
    (split : ofText text = ofText front ++ back) : front.toList <+: text.toList := by
  refine List.isPrefix_of_utf8Encode_append_eq_utf8Encode ⟨back.toArray⟩ ?_
  rw [String.utf8Encode_toList, String.utf8Encode_toList]
  refine ByteArray.ext (Array.toList_inj.mp ?_)
  simpa [ofText] using split.symm

end Outpost

namespace Outpost.Store

/-! ## Collisions -/

section Collisions

variable {first second parent child : String}

theorem isParent_iff : isParent parent child = true ↔ ∃ rest, child = parent ++ "/" ++ rest := by
  have slash : Bytes.ofText "/" = [0x2F] := by decide +kernel
  unfold isParent
  simp only [Bool.and_eq_true, decide_eq_true_eq, List.isPrefixOf_iff_prefix, beq_iff_eq]
  constructor
  · rintro ⟨⟨longer, back, split⟩, next⟩
    obtain ⟨byte, more, rfl⟩ := List.exists_cons_of_ne_nil (l := back) fun none => by
      rw [none, List.append_nil] at split
      exact absurd (congrArg List.length split) (Nat.ne_of_lt longer)
    rw [← split, List.getElem?_append_right (Nat.le_refl _), Nat.sub_self] at next
    cases next
    have begins : Bytes.ofText child = Bytes.ofText (parent ++ "/") ++ more := by
      rw [Bytes.ofText_append, slash, List.append_assoc, ← split]
      rfl
    obtain ⟨rest, whole⟩ := Bytes.isPrefix_of_ofText begins
    refine ⟨String.ofList rest, String.toList_injective ?_⟩
    rw [String.toList_append, String.toList_ofList, whole]
  · rintro ⟨rest, rfl⟩
    rw [Bytes.ofText_append, Bytes.ofText_append, slash, List.append_assoc]
    exact ⟨⟨by simp, List.prefix_append _ _⟩, by simp⟩

theorem keySegments_below (parent rest : String) :
    keySegments (parent ++ "/" ++ rest) = keySegments parent ++ keySegments rest := by
  have chars : (parent ++ "/" ++ rest).toList = parent.toList ++ '/' :: rest.toList := by
    rw [String.toList_append, String.toList_append, List.append_assoc]
    rfl
  unfold keySegments Text.split
  rw [chars, List.splitOn_append_cons_self, List.map_append]

theorem isParent_iff_segments : isParent parent child = true ↔
    ∃ more, more ≠ [] ∧ keySegments child = keySegments parent ++ more := by
  rw [isParent_iff]
  constructor
  · rintro ⟨rest, rfl⟩
    exact ⟨keySegments rest, keySegments_ne_nil rest, keySegments_below parent rest⟩
  · rintro ⟨more, some, split⟩
    refine ⟨"/".intercalate more, ?_⟩
    rw [← intercalate_keySegments child, split,
      String.intercalate_append_of_ne_nil (keySegments_ne_nil parent) some,
      intercalate_keySegments]

/-- One of the keys begins with all segments of the other. -/
def Nested (first second : String) : Prop :=
  keySegments first <+: keySegments second ∨ keySegments second <+: keySegments first

instance (first second : String) : Decidable (Nested first second) :=
  inferInstanceAs (Decidable (_ ∨ _))

theorem Nested.refl (key : String) : Nested key key := .inl (List.prefix_refl _)

theorem Nested.symm (h : Nested first second) : Nested second first := Or.symm h

theorem isPrefix_segments_iff : keySegments first <+: keySegments second ↔
    first = second ∨ isParent first second = true := by
  rw [isParent_iff_segments]
  constructor
  · rintro ⟨more, split⟩
    by_cases none : more = []
    · rw [none, List.append_nil] at split
      exact .inl (keySegments_injective split)
    · exact .inr ⟨more, none, split.symm⟩
  · rintro (rfl | ⟨more, -, split⟩)
    · exact List.prefix_refl _
    · exact ⟨more, split.symm⟩

theorem collides_iff : collides first second = true ↔ Nested first second := by
  unfold collides Nested
  rw [isPrefix_segments_iff, isPrefix_segments_iff, Bool.or_eq_true, Bool.or_eq_true, beq_iff_eq]
  grind

end Collisions

/-! ## Guards -/

structure Guard where
  number : Nat
  key : String
  deriving DecidableEq, Repr

/-- A set of pending keys and what refers to it. -/
structure Keyring where
  pending : PendingKeys
  handles : Nat
  guards : List Guard
  next : Nat

namespace Keyring

def start : Keyring := ⟨PendingKeys.empty, 1, [], 0⟩

def acquire (keyring : Keyring) (handle : Nat) (key : String) : Keyring × Option Guard :=
  if handle < keyring.handles then
    match keyring.pending.acquire? key with
    | none => (keyring, none)
    | some pending =>
        let guard := ⟨keyring.next, key⟩
        ({ keyring with
            pending
            guards := keyring.guards ++ [guard]
            next := keyring.next + 1 }, some guard)
  else (keyring, none)

def drop (keyring : Keyring) (guard : Guard) : Keyring :=
  { keyring with
    pending := keyring.pending.release guard.key
    guards := keyring.guards.filter (· ≠ guard) }

inductive Event where
  | clone (handle : Nat)
  | acquire (handle : Nat) (key : String)
  | drop (guard : Guard)

def step (keyring : Keyring) : Event → Keyring
  | .clone handle =>
      if handle < keyring.handles then { keyring with handles := keyring.handles + 1 }
      else keyring
  | .acquire handle key => (keyring.acquire handle key).1
  | .drop guard => if guard ∈ keyring.guards then keyring.drop guard else keyring

def run (keyring : Keyring) (events : List Event) : Keyring := events.foldl step keyring

theorem run_concat (keyring : Keyring) (events : List Event) (event : Event) :
    keyring.run (events ++ [event]) = (keyring.run events).step event := by
  unfold run
  rw [List.foldl_append]
  rfl

variable {keyring : Keyring} {guard other : Guard} {handle : Nat} {key : String}

theorem acquire_cases (keyring : Keyring) (handle : Nat) (key : String) :
    (∃ pending, keyring.pending.acquire? key = some pending ∧
      keyring.acquire handle key =
        ({ keyring with
            pending
            guards := keyring.guards ++ [⟨keyring.next, key⟩]
            next := keyring.next + 1 }, some ⟨keyring.next, key⟩)) ∨
    (handle < keyring.handles → keyring.pending.acquire? key = none) ∧
      keyring.acquire handle key = (keyring, none) := by
  unfold acquire
  split
  case isFalse absent => exact .inr ⟨fun present => absurd present absent, rfl⟩
  case isTrue present =>
    split
    case h_1 refused => exact .inr ⟨fun _ => refused, rfl⟩
    case h_2 pending acquired => exact .inl ⟨pending, acquired, rfl⟩

structure WellFormed (keyring : Keyring) : Prop where
  handles : 0 < keyring.handles
  keys : keyring.pending.keys = keyring.guards.map Guard.key
  apart : keyring.guards.Pairwise fun guard other => ¬ Nested guard.key other.key

theorem start_wellFormed : start.WellFormed := ⟨Nat.one_pos, rfl, .nil⟩

namespace WellFormed

variable (wellFormed : keyring.WellFormed)

include wellFormed

theorem eq_of_nested (live : guard ∈ keyring.guards) (among : other ∈ keyring.guards)
    (nested : Nested guard.key other.key) : guard = other := by
  have : Std.Symm fun guard other : Guard => ¬ Nested guard.key other.key :=
    ⟨fun _ _ apart nested => apart nested.symm⟩
  by_contra differs
  exact wellFormed.apart.forall live among differs nested

/-- A key can be had exactly if no guard's key begins with it or the other way round. -/
theorem acquire?_isSome_iff : (keyring.pending.acquire? key).isSome = true ↔
    ∀ guard ∈ keyring.guards, ¬ Nested guard.key key := by
  have free : (∀ other ∈ keyring.pending.keys, collides other key = false) ↔
      ∀ guard ∈ keyring.guards, ¬ Nested guard.key key := by
    rw [wellFormed.keys, List.forall_mem_map]
    exact forall₂_congr fun guard _ => by rw [← collides_iff, Bool.not_eq_true]
  rw [← free, Option.isSome_iff_exists]
  constructor
  · rintro ⟨pending, acquired⟩
    exact (PendingKeys.acquire?_eq_some_iff.mp acquired).1
  · exact fun free => ⟨_, PendingKeys.acquire?_eq_some_iff.mpr ⟨free, rfl⟩⟩

theorem acquire (handle : Nat) (key : String) : (keyring.acquire handle key).1.WellFormed := by
  rcases acquire_cases keyring handle key with ⟨pending, acquired, given⟩ | ⟨-, kept⟩
  · have free := wellFormed.acquire?_isSome_iff.mp (by rw [acquired]; rfl)
    obtain ⟨-, rfl⟩ := PendingKeys.acquire?_eq_some_iff.mp acquired
    rw [given]
    refine ⟨wellFormed.handles, by simp [wellFormed.keys], ?_⟩
    refine List.pairwise_append.mpr ⟨wellFormed.apart, List.pairwise_singleton _ _, ?_⟩
    rintro guard live other last
    rw [List.mem_singleton.mp last]
    exact free guard live
  · rw [kept]
    exact wellFormed

theorem drop (live : guard ∈ keyring.guards) : (keyring.drop guard).WellFormed where
  handles := wellFormed.handles
  keys := by
    have own : ∀ other ∈ keyring.guards, decide (other.key ≠ guard.key) = decide (other ≠ guard) :=
      fun other among => decide_eq_decide.mpr (not_congr
        ⟨fun same => wellFormed.eq_of_nested among live (same ▸ Nested.refl _), congrArg Guard.key⟩)
    change keyring.pending.keys.filter (· ≠ guard.key) =
      (keyring.guards.filter (· ≠ guard)).map Guard.key
    rw [wellFormed.keys, List.filter_map]
    exact congrArg (List.map Guard.key) (List.filter_congr own)
  apart := wellFormed.apart.filter _

theorem step (event : Event) : (keyring.step event).WellFormed := by
  cases event with
  | clone handle =>
      simp only [Keyring.step]
      split
      · exact ⟨Nat.succ_pos _, wellFormed.keys, wellFormed.apart⟩
      · exact wellFormed
  | acquire handle key => exact wellFormed.acquire handle key
  | drop guard =>
      simp only [Keyring.step]
      split
      · exact wellFormed.drop ‹_›
      · exact wellFormed

theorem run (events : List Event) : (keyring.run events).WellFormed := by
  induction events generalizing keyring with
  | nil => exact wellFormed
  | cons event rest ih => exact ih (wellFormed.step event)

end WellFormed

/-! ## Live guards -/

def given? (keyring : Keyring) : Event → Option Guard
  | .acquire handle key => (keyring.acquire handle key).2
  | _ => none

/-- A guard that one of the events gave, and none of those after it dropped. -/
def Live (events : List Event) (guard : Guard) : Prop :=
  ∃ before handle key after, events = before ++ .acquire handle key :: after ∧
    ((start.run before).acquire handle key).2 = some guard ∧ .drop guard ∉ after

theorem not_live_nil (guard : Guard) : ¬ Live [] guard := by
  rintro ⟨before, handle, key, after, split, -, -⟩
  exact absurd split.symm (List.append_ne_nil_of_right_ne_nil before (List.cons_ne_nil _ after))

theorem live_concat_iff (events : List Event) (event : Event) (guard : Guard) :
    Live (events ++ [event]) guard ↔ Live events guard ∧ event ≠ .drop guard ∨
      (start.run events).given? event = some guard := by
  constructor
  · rintro ⟨before, handle, key, after, split, gave, kept⟩
    rcases List.eq_nil_or_concat after with rfl | ⟨front, last, rfl⟩
    · obtain ⟨rfl, same⟩ := List.append_inj' split rfl
      cases same
      exact .inr gave
    · rw [List.concat_eq_append, ← List.cons_append, ← List.append_assoc] at split
      obtain ⟨rfl, same⟩ := List.append_inj' split rfl
      cases same
      rw [List.concat_eq_append, List.mem_append, List.mem_singleton, not_or] at kept
      exact .inl ⟨⟨before, handle, key, front, rfl, gave, kept.1⟩, Ne.symm kept.2⟩
  · rintro (⟨⟨before, handle, key, after, rfl, gave, kept⟩, other⟩ | gave)
    · refine ⟨before, handle, key, after ++ [event], ?_, gave, ?_⟩
      · rw [List.append_assoc, List.cons_append]
      · rw [List.mem_append, List.mem_singleton, not_or]
        exact ⟨kept, Ne.symm other⟩
    · cases event with
      | acquire handle key => exact ⟨events, handle, key, [], rfl, gave, List.not_mem_nil⟩
      | clone handle => cases gave
      | drop other => cases gave

theorem mem_guards_step_iff (keyring : Keyring) (event : Event) (guard : Guard) :
    guard ∈ (keyring.step event).guards ↔ guard ∈ keyring.guards ∧ event ≠ .drop guard ∨
      keyring.given? event = some guard := by
  cases event with
  | clone handle =>
      have same : (keyring.step (.clone handle)).guards = keyring.guards := by
        simp only [step]
        split <;> rfl
      rw [same]
      simp [given?]
  | acquire handle key =>
      simp only [step, given?]
      rcases acquire_cases keyring handle key with ⟨pending, -, given⟩ | ⟨-, kept⟩
      · rw [given]
        simp [eq_comm]
      · rw [kept]
        simp
  | drop other =>
      simp only [step, given?]
      split
      case isTrue live => simp [Keyring.drop, ne_comm]
      case isFalse absent =>
        have differs : guard ∈ keyring.guards → other ≠ guard := fun among same =>
          absent (same ▸ among)
        simpa using differs

/-- The guards that are kept are those that the events leave live. -/
theorem mem_guards_iff_live (events : List Event) :
    guard ∈ (start.run events).guards ↔ Live events guard := by
  induction events using List.reverseRecOn with
  | nil => exact iff_of_false List.not_mem_nil (not_live_nil guard)
  | append_singleton events event ih =>
      rw [run_concat, mem_guards_step_iff, live_concat_iff, ih]

/-- After these events the pending keys are those of the live guards and form an antichain, to
which a call through any handle adds its key exactly if it remains one. -/
structure HoldsAntichain (events : List Event) : Prop where
  handles : 0 < (start.run events).handles
  pending : ∀ key, key ∈ (start.run events).pending.keys ↔
    ∃ guard, Live events guard ∧ guard.key = key
  apart : ∀ guard other, Live events guard → Live events other → guard ≠ other →
    ¬ keySegments guard.key <+: keySegments other.key
  gives : ∀ handle < (start.run events).handles, ∀ key,
    ((start.run events).acquire handle key).2.isSome = true ↔
      ∀ guard, Live events guard → ¬ keySegments guard.key <+: keySegments key ∧
        ¬ keySegments key <+: keySegments guard.key
  given : ∀ handle key guard, ((start.run events).acquire handle key).2 = some guard →
    guard.key = key ∧ ¬ Live events guard
  refused : ∀ handle key, ((start.run events).acquire handle key).2 = none →
    ((start.run events).acquire handle key).1 = start.run events

/-- In every run of clones, calls and drops the pending keys are those of the guards that have been
given and not dropped, and an antichain. -/
theorem run_holdsAntichain (events : List Event) : HoldsAntichain events := by
  have wellFormed := start_wellFormed.run events
  have live : ∀ guard, guard ∈ (start.run events).guards ↔ Live events guard := fun _ =>
    mem_guards_iff_live events
  constructor
  case handles => exact wellFormed.handles
  case pending =>
    intro key
    simp only [wellFormed.keys, List.mem_map, live]
  case apart =>
    intro guard other liveGuard liveOther differs above
    exact differs (wellFormed.eq_of_nested ((live _).mpr liveGuard) ((live _).mpr liveOther)
      (.inl above))
  case gives =>
    intro handle present key
    have same : ((start.run events).acquire handle key).2.isSome =
        ((start.run events).pending.acquire? key).isSome := by
      rcases acquire_cases (start.run events) handle key with
        ⟨pending, acquired, given⟩ | ⟨refused, kept⟩
      · rw [given, acquired]
        rfl
      · rw [kept, refused present]
        rfl
    rw [same, wellFormed.acquire?_isSome_iff]
    simp only [live, Nested, not_or]
  case given =>
    intro handle key guard called
    rcases acquire_cases (start.run events) handle key with
      ⟨pending, acquired, given⟩ | ⟨-, kept⟩
    · have free := wellFormed.acquire?_isSome_iff.mp (by rw [acquired]; rfl)
      rw [given] at called
      cases called
      exact ⟨rfl, fun held => free _ ((live _).mpr held) (.refl key)⟩
    · rw [kept] at called
      cases called
  case refused =>
    intro handle key called
    rcases acquire_cases (start.run events) handle key with
      ⟨pending, acquired, given⟩ | ⟨-, kept⟩
    · rw [given] at called
      cases called
    · rw [kept]

/-- Calls through a clone are refused while the guard of the first handle is live, and one of them
is not once it has been dropped. -/
theorem run_holdsAntichain_released :
    let events : List Event := [.acquire 0 "cache/pods", .clone 0, .acquire 1 "cache/pods/x",
      .acquire 1 "cache", .acquire 1 "cache/podsx", .drop ⟨0, "cache/pods"⟩,
      .acquire 1 "cache/pods/x"]
    (start.run (events.take 4)).pending.keys = ["cache/pods"] ∧
      (start.run (events.take 5)).pending.keys = ["cache/pods", "cache/podsx"] ∧
      (start.run (events.take 6)).pending.keys = ["cache/podsx"] ∧
      (start.run events).pending.keys = ["cache/podsx", "cache/pods/x"] ∧
      HoldsAntichain events := by
  intro events
  have keys : (start.run (events.take 4)).pending.keys = ["cache/pods"] ∧
      (start.run (events.take 5)).pending.keys = ["cache/pods", "cache/podsx"] ∧
      (start.run (events.take 6)).pending.keys = ["cache/podsx"] ∧
      (start.run events).pending.keys = ["cache/podsx", "cache/pods/x"] := by decide +kernel
  exact ⟨keys.1, keys.2.1, keys.2.2.1, keys.2.2.2, run_holdsAntichain events⟩

example : Nested "cache/pods" "cache/pods/x" ∧ Nested "cache/pods" "cache" ∧
    ¬ Nested "cache/pods" "cache/podsx" := by
  decide +kernel

end Keyring

end Outpost.Store
