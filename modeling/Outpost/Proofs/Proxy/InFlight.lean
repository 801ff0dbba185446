import Mathlib.Algebra.BigOperators.Group.Finset.Basic
import Outpost.Proofs.Proxy.Counters

/-!
# Requests in flight

A request is underway from its arrival until its response is ready, or until its client leaves.
The counter of requests in flight goes up with an arrival and down with a response, but not with a
client that leaves: a request given up before its response is ready stays in the counter for good.
-/

namespace Outpost.Proxy

open Api Cache Coding Config Http Store Outpost.Stream

/-! ## Standings -/

/-- Where a number stands. -/
inductive Standing where
  | absent
  | underway
  | answered
  deriving DecidableEq, Repr

def Slot.standing (slot : Slot) : Standing :=
  match slot.exchange with
  | none => .absent
  | some exchange => if exchange.phase.isResponded then .answered else .underway

namespace Engine

def standing (engine : Engine) (id : Nat) : Standing := (engine.slot id).standing

def numbers (engine : Engine) (standing : Standing) : Finset Nat :=
  (Finset.range engine.nextId).filter fun id => engine.standing id = standing

def underway (engine : Engine) : Finset Nat := engine.numbers .underway

def forsaken (engine : Engine) : Finset Nat := engine.numbers .absent

variable {engine start : Engine} {exchange : Exchange} {id : Nat} {event : Event}
  {events : List Event}

theorem standing_of_exchange? (found : engine.exchange? id = some exchange) :
    engine.standing id = if exchange.phase.isResponded then .answered else .underway := by
  simp only [standing, Slot.standing, slot, found]

theorem standing_eq_underway_iff : engine.standing id = .underway ↔
    ∃ exchange, engine.exchange? id = some exchange ∧ exchange.phase.isResponded = false := by
  cases found : engine.exchange? id with
  | none => simp [standing, Slot.standing, slot, found]
  | some exchange => simp [standing_of_exchange? found]

theorem standing_eq_answered_iff : engine.standing id = .answered ↔
    ∃ exchange, engine.exchange? id = some exchange ∧ exchange.phase.isResponded = true := by
  cases found : engine.exchange? id with
  | none => simp [standing, Slot.standing, slot, found]
  | some exchange => simp [standing_of_exchange? found]

theorem standing_underway (found : engine.exchange? id = some exchange)
    (unanswered : exchange.phase.isResponded = false) : engine.standing id = .underway :=
  standing_eq_underway_iff.mpr ⟨exchange, found, unanswered⟩

theorem standing_answered (found : engine.exchange? id = some exchange)
    (answered : exchange.phase.isResponded = true) : engine.standing id = .answered :=
  standing_eq_answered_iff.mpr ⟨exchange, found, answered⟩

theorem standing_fresh (wellFormed : engine.WellFormed) (fresh : engine.nextId ≤ id) :
    engine.standing id = .absent := by
  rw [standing, (wellFormed id).fresh fresh]
  rfl

theorem mem_numbers {standing : Standing} :
    id ∈ engine.numbers standing ↔ id < engine.nextId ∧ engine.standing id = standing := by
  rw [numbers, Finset.mem_filter, Finset.mem_range]

/-! ## What an event does to a standing -/

/-- How the number that an event is about stands after it. -/
inductive Shifts (engine : Engine) (id : Nat) : Event → Standing → Prop where
  | starts (request : Request) (fresh : id = engine.nextId) :
      Shifts engine id (.arrive request) .underway
  | completes (event : Event) (was : engine.standing id = .underway)
      (own : event = .advance id ∨ ∃ result, event = .answer id result) :
      Shifts engine id event .answered
  | gives (was : engine.standing id = .underway) : Shifts engine id (.abandon id) .absent
  | stays (event : Event) (own : event.exchange? = some id) :
      Shifts engine id event (engine.standing id)

theorem Shifts.onward (found : engine.exchange? id = some exchange)
    (unanswered : exchange.phase.isResponded = false)
    (own : event = .advance id ∨ ∃ result, event = .answer id result) {slot : Slot}
    {later : Exchange} (there : slot.exchange = some later) :
    Shifts engine id event slot.standing := by
  have was := standing_underway found unanswered
  have about : event.exchange? = some id := by
    obtain rfl | ⟨result, rfl⟩ := own <;> rfl
  have after : slot.standing = if later.phase.isResponded then .answered else .underway := by
    rw [Slot.standing, there]
  rw [after]
  split
  · exact .completes event was own
  · exact was ▸ .stays event about

theorem Shifts.delivers (found : engine.exchange? id = some exchange) {response : Response}
    {delivery : Delivery} (responded : exchange.phase = .responded response delivery)
    (own : event.exchange? = some id) : Shifts engine id event .answered := by
  have was := standing_answered found (by rw [responded]; rfl)
  exact was ▸ .stays event own

theorem Move.shifts {slot : Slot} {shared : Shared} (move : Move engine id event slot shared)
    (wellFormed : engine.WellFormed) : Shifts engine id event slot.standing := by
  cases move with
  | arrive request fresh =>
      have absent : engine.exchange? id = none :=
        congrArg Slot.exchange ((wellFormed id).fresh (Nat.le_of_eq fresh.symm))
      rw [absent]
      exact .starts request fresh
  | turn exchange phase store found turns => exact .onward found turns.unanswered (.inl rfl) rfl
  | join exchange key tiers gate found approaching =>
      exact .onward found (by rw [approaching]; rfl) (.inl rfl) rfl
  | giveUp exchange key gate deadline found waiting =>
      exact .onward found (by rw [waiting]; rfl) (.inl rfl) rfl
  | conclude exchange event response found concludes =>
      have own : event = .advance id ∨ ∃ result, event = .answer id result := by
        have number := id_of_exchange? found
        subst number
        cases concludes <;> first | exact .inl rfl | exact .inr ⟨_, rfl⟩
      exact .onward found concludes.unanswered own rfl
  | filter exchange kind request reply found awaiting =>
      exact .onward found (by rw [awaiting]; rfl) (.inr ⟨_, rfl⟩) rfl
  | copy exchange key request reply found awaiting =>
      exact .onward found (by rw [awaiting]; rfl) (.inr ⟨_, rfl⟩) rfl
  | readDirect exchange response source found responded => exact .delivers found responded rfl
  | dropBody exchange response delivery found responded
  | dropCopy exchange response tee found responded => exact .delivers found responded rfl
  | abandon exchange found unanswered =>
      exact .gives (standing_underway found (Phase.isResponded_eq_false unanswered))
  | readCopy | work => exact .stays _ rfl

inductive Shifted (engine : Engine) (event : Event) (after : Engine) : Prop where
  | none (idle : after.nextId = engine.nextId)
      (standings : ∀ id, after.standing id = engine.standing id)
  | one (id : Nat) (standing : Standing) (here : after.standing id = standing)
      (shifts : Shifts engine id event standing)
      (others : ∀ other, other ≠ id → after.standing other = engine.standing other)

theorem step_shifted (wellFormed : engine.WellFormed) (event : Event) :
    Shifted engine event (engine.step event) := by
  rcases step_moved engine event with unmoved | ⟨id, moved⟩
  · exact .none (congrArg Frame.nextId unmoved.frame)
      fun id => congrArg Slot.standing (unmoved.slots id)
  · exact .one id _ rfl (moved.move.shifts wellFormed)
      fun other differs => congrArg Slot.standing (moved.others other differs)

theorem step_standing (wellFormed : engine.WellFormed) (event : Event) (id : Nat) :
    (engine.step event).standing id = engine.standing id ∨
      ∃ standing, (engine.step event).standing id = standing ∧ Shifts engine id event standing := by
  rcases step_shifted wellFormed event with
    ⟨-, standings⟩ | ⟨shifted, standing, here, shifts, others⟩
  · exact .inl (standings id)
  by_cases same : id = shifted
  · subst same
    exact .inr ⟨standing, here, shifts⟩
  · exact .inl (others id same)

theorem standing_step_of_answered (wellFormed : engine.WellFormed) (event : Event)
    (answered : engine.standing id = .answered) :
    (engine.step event).standing id = .answered := by
  rcases step_standing wellFormed event id with same | ⟨standing, here, shifts⟩
  · exact same.trans answered
  rw [here]
  cases shifts with
  | starts request fresh =>
      cases (standing_fresh wellFormed (Nat.le_of_eq fresh.symm)).symm.trans answered
  | completes => rfl
  | gives was => cases was.symm.trans answered
  | stays => exact answered

theorem standing_run_of_answered (wellFormed : engine.WellFormed) (events : List Event)
    (answered : engine.standing id = .answered) :
    (engine.run events).standing id = .answered := by
  induction events generalizing engine with
  | nil => exact answered
  | cons event rest ih =>
      exact ih (step_wellFormed wellFormed event)
        (standing_step_of_answered wellFormed event answered)

theorem nextId_step (engine : Engine) (event : Event) :
    (engine.step event).nextId = (engine.frameAfter event).nextId := by
  rcases step_moved engine event with unmoved | ⟨id, moved⟩
  · cases event with
    | arrive request => rfl
    | _ => exact congrArg Frame.nextId unmoved.frame
  · exact congrArg Frame.nextId moved.frame

theorem standing_abandon (underway : engine.standing id = .underway) :
    (engine.step (.abandon id)).standing id = .absent := by
  obtain ⟨exchange, found, unanswered⟩ := standing_eq_underway_iff.mp underway
  have gone : engine.step (.abandon id) = (engine.leaveGate exchange).removeExchange id := by
    unfold step abandon
    simp only [found]
    split
    · rename_i response delivery responded
      rw [responded] at unanswered
      cases unanswered
    · rfl
  have absent := @exchange?_removeExchange (engine.leaveGate exchange) id id
  rw [if_pos rfl, ← gone] at absent
  simp only [standing, Slot.standing, slot, absent]

theorem nextId_step_of_about (about : event.exchange? = some id) :
    (engine.step event).nextId = engine.nextId := by
  rw [nextId_step]
  cases event <;> first | rfl | cases about

theorem Shifts.grows {standing : Standing} (shifts : Shifts engine id event standing) :
    (engine.step event).nextId = engine.nextId ∨
      id = engine.nextId ∧ standing = .underway ∧
        (engine.step event).nextId = engine.nextId + 1 := by
  cases shifts with
  | starts request fresh => exact .inr ⟨fresh, rfl, rfl⟩
  | completes event was own =>
      obtain rfl | ⟨result, rfl⟩ := own <;> exact .inl (nextId_step_of_about rfl)
  | gives was => exact .inl (nextId_step_of_about rfl)
  | stays event own => exact .inl (nextId_step_of_about own)

theorem lt_nextId_of_standing (wellFormed : engine.WellFormed)
    (underway : engine.standing id = .underway) : id < engine.nextId :=
  Nat.lt_of_not_le fun fresh => by cases (standing_fresh wellFormed fresh).symm.trans underway

theorem standing_step_of_absent (wellFormed : engine.WellFormed) (event : Event)
    (given : id < engine.nextId) (absent : engine.standing id = .absent) :
    (engine.step event).standing id = .absent := by
  rcases step_standing wellFormed event id with same | ⟨standing, here, shifts⟩
  · exact same.trans absent
  rw [here]
  cases shifts with
  | starts request fresh => exact absurd fresh (Nat.ne_of_lt given)
  | completes event was | gives was => cases absent.symm.trans was
  | stays => exact absent

/-- A number that stands for nothing did so before, or has been given up with this event. -/
theorem forsaken_step_iff (wellFormed : engine.WellFormed) (event : Event) :
    (id < engine.nextId ∧ engine.standing id = .absent ∨
        event = .abandon id ∧ engine.standing id = .underway) ↔
      id < (engine.step event).nextId ∧ (engine.step event).standing id = .absent := by
  have grows := step_nextId engine event
  constructor
  · rintro (⟨given, absent⟩ | ⟨rfl, underway⟩)
    · exact ⟨Nat.lt_of_lt_of_le given grows, standing_step_of_absent wellFormed event given absent⟩
    · exact ⟨Nat.lt_of_lt_of_le (lt_nextId_of_standing wellFormed underway) grows,
        standing_abandon underway⟩
  · rintro ⟨given, absent⟩
    rcases step_shifted wellFormed event with
      ⟨idle, standings⟩ | ⟨shifted, standing, here, shifts, others⟩
    · exact .inl ⟨idle ▸ given, (standings id).symm.trans absent⟩
    by_cases same : id = shifted
    · subst same
      have gone : standing = .absent := here.symm.trans absent
      have kept : (engine.step event).nextId = engine.nextId :=
        shifts.grows.resolve_right fun more => by cases gone.symm.trans more.2.1
      cases shifts with
      | starts | completes => cases gone
      | gives was => exact .inr ⟨rfl, was⟩
      | stays => exact .inl ⟨kept ▸ given, gone⟩
    · have before := (others id same).symm.trans absent
      rcases shifts.grows with kept | ⟨fresh, -, more⟩
      · exact .inl ⟨kept ▸ given, before⟩
      · exact .inl ⟨by omega, before⟩

/-! ## Histories -/

def Started (start : Engine) (id : Nat) (events : List Event) : Prop :=
  ∃ request, start.Arrived id request events

def Completed (start : Engine) (id : Nat) (events : List Event) : Prop :=
  ∃ before after exchange, events = before ++ after ∧
    (start.run before).exchange? id = some exchange ∧ exchange.phase.isResponded = true

def Cancelled (start : Engine) (id : Nat) (events : List Event) : Prop :=
  ∃ before after exchange, events = before ++ .abandon id :: after ∧
    (start.run before).exchange? id = some exchange ∧ exchange.phase.isResponded = false

theorem started_iff (first : start.nextId = 0) :
    start.Started id events ↔ id < (start.run events).nextId := by
  constructor
  · rintro ⟨request, before, after, rfl, rfl⟩
    exact nextId_lt_of_arrive start request before after
  intro given
  induction events using List.reverseRecOn with
  | nil => exact absurd given (by simp [run, first])
  | append_singleton before event ih =>
      by_cases earlier : id < (start.run before).nextId
      · obtain ⟨request, arrived⟩ := ih earlier
        exact ⟨request, arrived.more [event]⟩
      rw [run_concat, nextId_step] at given
      cases event with
      | arrive request =>
          have last : (start.run before).nextId = id :=
            Nat.le_antisymm (Nat.le_of_not_lt earlier) (Nat.le_of_lt_succ given)
          exact ⟨request, before, [], rfl, last⟩
      | _ => exact absurd given earlier

theorem completed_iff (wellFormed : start.WellFormed) :
    start.Completed id events ↔ (start.run events).standing id = .answered := by
  constructor
  · rintro ⟨before, after, exchange, rfl, found, responded⟩
    rw [run_append]
    exact standing_run_of_answered (run_wellFormed wellFormed before) after
      (standing_answered found responded)
  · intro answered
    obtain ⟨exchange, found, responded⟩ := standing_eq_answered_iff.mp answered
    exact ⟨events, [], exchange, by simp, found, responded⟩

theorem cancelled_concat_iff : start.Cancelled id (events ++ [event]) ↔
    start.Cancelled id events ∨
      event = .abandon id ∧ (start.run events).standing id = .underway := by
  constructor
  · rintro ⟨before, after, exchange, split, found, unanswered⟩
    obtain ⟨rfl, rfl⟩ | ⟨rest, rfl⟩ := last_or_before split
    · exact .inr ⟨rfl, standing_underway found unanswered⟩
    · exact .inl ⟨before, rest, exchange, rfl, found, unanswered⟩
  · rintro (⟨before, after, exchange, rfl, found, unanswered⟩ | ⟨rfl, underway⟩)
    · exact ⟨before, after ++ [event], exchange, by simp, found, unanswered⟩
    · obtain ⟨exchange, found, unanswered⟩ := standing_eq_underway_iff.mp underway
      exact ⟨events, [], exchange, rfl, found, unanswered⟩

theorem cancelled_iff (wellFormed : start.WellFormed) (first : start.nextId = 0) :
    start.Cancelled id events ↔
      id < (start.run events).nextId ∧ (start.run events).standing id = .absent := by
  induction events using List.reverseRecOn with
  | nil =>
      constructor
      · rintro ⟨before, after, exchange, split, -⟩
        simp at split
      · rintro ⟨given, -⟩
        exact absurd given (by simp [run, first])
  | append_singleton before event ih =>
      rw [cancelled_concat_iff, ih, run_concat,
        forsaken_step_iff (run_wellFormed wellFormed before) event]

/-! ## The counter -/

theorem inFlight_recordEnd (metrics : Metrics) (status : StatusCode) :
    (metrics.recordEnd status).inFlight = metrics.inFlight - 1 := by
  unfold Metrics.recordEnd Metrics.recordStatus
  repeat' split
  all_goals rfl

theorem inFlight_countLeave (exchange : Exchange) (phase : Phase) :
    (engine.countLeave exchange phase).inFlight = engine.metrics.inFlight := by
  unfold countLeave countDispatch countAsked
  repeat' split
  all_goals rfl

theorem inFlight_countTurn (exchange : Exchange) (phase : Phase) :
    (engine.countTurn exchange phase).inFlight =
      if exchange.phase.isResponded = false ∧ phase.isResponded = true then
        engine.metrics.inFlight - 1
      else engine.metrics.inFlight := by
  unfold countTurn
  split
  · simp_all [Phase.isResponded]
  · simp_all [Phase.isResponded]
  · simp_all [Phase.isResponded, inFlight_recordEnd, inFlight_countLeave]
  · simp_all [Phase.isResponded, inFlight_countLeave]

theorem Counts.inFlight {after : Engine} (counts : Counts engine id after) :
    after.metrics.inFlight =
      if engine.standing id = .underway ∧ after.standing id = .answered then
        engine.metrics.inFlight - 1
      else engine.metrics.inFlight := by
  cases counts with
  | absent absent metrics =>
      have gone : engine.standing id = .absent := by
        simp only [standing, Slot.standing, slot, absent]
      rw [metrics, gone, if_neg (by simp)]
  | turn exchange later found there metrics =>
      rw [metrics, inFlight_countTurn, standing_of_exchange? found, standing_of_exchange? there]
      cases exchange.phase.isResponded <;> cases later.phase.isResponded <;> rfl

theorem step_inFlight (engine : Engine) (event : Event) :
    (engine.step event).metrics.inFlight =
      match event with
      | .arrive _ => engine.metrics.inFlight + 1
      | .advance id | .answer id _ =>
          if engine.standing id = .underway ∧ (engine.step event).standing id = .answered then
            engine.metrics.inFlight - 1
          else engine.metrics.inFlight
      | _ => engine.metrics.inFlight := by
  have counted := step_metrics engine event
  cases event with
  | arrive request => rfl
  | advance id => exact counted.inFlight
  | answer id result => exact counted.inFlight
  | read id => exact congrArg Metrics.inFlight counted
  | abandon id => exact congrArg Metrics.inFlight counted
  | work id => exact congrArg Metrics.inFlight counted
  | probed success => rfl
  | pass time => rfl

def Balanced (engine : Engine) : Prop :=
  engine.metrics.inFlight + UInt64.ofNat (engine.numbers .answered).card =
    UInt64.ofNat engine.nextId

theorem inFlight_kept (idle : (engine.step event).nextId = engine.nextId)
    (quiet : ∀ id, engine.standing id = .underway → (engine.step event).standing id ≠ .answered) :
    (engine.step event).metrics.inFlight = engine.metrics.inFlight := by
  have counted := step_inFlight engine event
  cases event with
  | arrive request => exact absurd idle (Nat.succ_ne_self _)
  | advance id | answer id result =>
      exact counted.trans (if_neg fun answers => quiet id answers.1 answers.2)
  | _ => exact counted

theorem Balanced.kept (h : engine.Balanced) (idle : (engine.step event).nextId = engine.nextId)
    (same : ∀ id, (engine.step event).standing id = .answered ↔ engine.standing id = .answered) :
    (engine.step event).Balanced := by
  have quiet : ∀ id, engine.standing id = .underway →
      (engine.step event).standing id ≠ .answered := fun id underway answered => by
    cases underway.symm.trans ((same id).mp answered)
  have numbers : (engine.step event).numbers .answered = engine.numbers .answered := by
    simp only [Engine.numbers, idle, same]
  rw [Balanced, inFlight_kept idle quiet, numbers, idle]
  exact h

theorem Balanced.starts (h : engine.Balanced) (request : Request)
    (here : (engine.step (.arrive request)).standing engine.nextId = .underway)
    (others : ∀ other, other ≠ engine.nextId →
      (engine.step (.arrive request)).standing other = engine.standing other) :
    (engine.step (.arrive request)).Balanced := by
  have numbers : (engine.step (.arrive request)).numbers .answered =
      engine.numbers .answered := by
    ext id
    have grown : (engine.step (.arrive request)).nextId = engine.nextId + 1 := rfl
    rw [mem_numbers, mem_numbers, grown]
    by_cases last : id = engine.nextId
    · subst last
      simp [here]
    · rw [others id last]
      exact and_congr_left fun _ => by omega
  have counted : (engine.step (.arrive request)).metrics.inFlight =
      engine.metrics.inFlight + 1 := rfl
  have grown : UInt64.ofNat (engine.step (.arrive request)).nextId =
      UInt64.ofNat engine.nextId + 1 := UInt64.ofNat_add _ 1
  unfold Balanced at h ⊢
  rw [numbers, counted, grown]
  grind

theorem Balanced.completes (wellFormed : engine.WellFormed) (h : engine.Balanced)
    (was : engine.standing id = .underway)
    (own : event = .advance id ∨ ∃ result, event = .answer id result)
    (here : (engine.step event).standing id = .answered)
    (others : ∀ other, other ≠ id →
      (engine.step event).standing other = engine.standing other) :
    (engine.step event).Balanced := by
  have idle : (engine.step event).nextId = engine.nextId := by
    obtain rfl | ⟨result, rfl⟩ := own <;> exact nextId_step_of_about rfl
  have counted : (engine.step event).metrics.inFlight = engine.metrics.inFlight - 1 := by
    have counted := step_inFlight engine event
    obtain rfl | ⟨result, rfl⟩ := own <;> exact counted.trans (if_pos ⟨was, here⟩)
  have numbers : (engine.step event).numbers .answered =
      insert id (engine.numbers .answered) := by
    ext other
    rw [Finset.mem_insert, mem_numbers, mem_numbers, idle]
    by_cases same : other = id
    · subst same
      simp [here, lt_nextId_of_standing wellFormed was]
    · rw [others other same]
      simp [same]
  have fresh : id ∉ engine.numbers .answered := fun member => by
    cases was.symm.trans (mem_numbers.mp member).2
  have more : UInt64.ofNat ((engine.numbers .answered).card + 1) =
      UInt64.ofNat (engine.numbers .answered).card + 1 := UInt64.ofNat_add _ 1
  unfold Balanced at h ⊢
  rw [numbers, Finset.card_insert_of_notMem fresh, counted, idle, more]
  grind

theorem step_balanced (wellFormed : engine.WellFormed) (h : engine.Balanced) (event : Event) :
    (engine.step event).Balanced := by
  rcases step_shifted wellFormed event with
    ⟨idle, standings⟩ | ⟨shifted, standing, here, shifts, others⟩
  · exact h.kept idle fun id => by rw [standings]
  have same (here : (engine.step event).standing shifted = .answered ↔
      engine.standing shifted = .answered) (id : Nat) :
      (engine.step event).standing id = .answered ↔ engine.standing id = .answered := by
    by_cases this : id = shifted
    · rw [this]
      exact here
    · rw [others id this]
  cases shifts with
  | starts request fresh =>
      subst fresh
      exact h.starts request here others
  | completes event was own => exact h.completes wellFormed was own here others
  | gives was => exact h.kept (nextId_step_of_about rfl) (same (by rw [here, was]; decide))
  | stays event own => exact h.kept (nextId_step_of_about own) (same (by rw [here]))

theorem run_balanced (wellFormed : engine.WellFormed) (h : engine.Balanced)
    (events : List Event) : (engine.run events).Balanced := by
  induction events generalizing engine with
  | nil => exact h
  | cons event rest ih =>
      exact ih (step_wellFormed wellFormed event) (step_balanced wellFormed h event)

/-! ## The counter of a run -/

theorem card_numbers (engine : Engine) :
    (engine.numbers .answered).card + (engine.underway.card + engine.forsaken.card) =
      engine.nextId := by
  have every : ∀ id ∈ Finset.range engine.nextId,
      engine.standing id ∈ ({.answered, .underway, .absent} : Finset Standing) := by
    intro id _
    cases engine.standing id <;> decide
  have whole := Finset.card_eq_sum_card_fiberwise every
  rw [Finset.card_range, Finset.sum_insert (by decide), Finset.sum_insert (by decide),
    Finset.sum_singleton] at whole
  exact whole.symm

theorem Balanced.inFlight (h : engine.Balanced) :
    engine.metrics.inFlight = UInt64.ofNat (engine.underway.card + engine.forsaken.card) := by
  unfold Balanced at h
  rw [← card_numbers engine, UInt64.ofNat_add] at h
  grind

/-- What the counter of requests in flight tells of a run. -/
structure CountsInFlight (start : Engine) (events : List Event) : Prop where
  underway : ∀ id, id ∈ (start.run events).underway ↔
    start.Started id events ∧ ¬ start.Completed id events ∧ ¬ start.Cancelled id events
  forsaken : ∀ id, id ∈ (start.run events).forsaken ↔ start.Cancelled id events
  counted : (start.run events).metrics.inFlight =
    UInt64.ofNat ((start.run events).underway.card + (start.run events).forsaken.card)
  noUnderflow : (start.run events).nextId < 2 ^ 64 → (start.run events).underway.Nonempty →
    (start.run events).metrics.inFlight ≠ 0
  /-- It tells how many requests are underway only if none has been given up, or so many that the
  counter has gone all the way round. -/
  exact_iff : (start.run events).metrics.inFlight =
    UInt64.ofNat (start.run events).underway.card ↔ 2 ^ 64 ∣ (start.run events).forsaken.card

theorem Balanced.exact_iff (h : engine.Balanced) :
    engine.metrics.inFlight = UInt64.ofNat engine.underway.card ↔
      2 ^ 64 ∣ engine.forsaken.card := by
  rw [h.inFlight, ← UInt64.toNat_inj, UInt64.toNat_ofNat', UInt64.toNat_ofNat']
  omega

theorem Balanced.ne_zero (h : engine.Balanced) (few : engine.nextId < 2 ^ 64)
    (busy : engine.underway.Nonempty) : engine.metrics.inFlight ≠ 0 := by
  have atLeastOne := Finset.card_pos.mpr busy
  have given := card_numbers engine
  rw [h.inFlight, ne_eq, ← UInt64.toNat_inj, UInt64.toNat_ofNat', UInt64.toNat_zero]
  omega

theorem mem_underway_iff (wellFormed : start.WellFormed) (first : start.nextId = 0) :
    id ∈ (start.run events).underway ↔
      start.Started id events ∧ ¬ start.Completed id events ∧ ¬ start.Cancelled id events := by
  rw [underway, mem_numbers, started_iff first, completed_iff wellFormed,
    cancelled_iff wellFormed first]
  cases (start.run events).standing id <;> simp

theorem run_countsInFlight (settings : Settings) (store : CountedStore) (now : Nat)
    (events : List Event) : (Engine.start settings store now).CountsInFlight events := by
  have wellFormed := start_wellFormed settings store now
  have balanced : ((Engine.start settings store now).run events).Balanced :=
    run_balanced wellFormed rfl events
  exact {
    underway := fun id => mem_underway_iff wellFormed rfl
    forsaken := fun id => mem_numbers.trans (cancelled_iff wellFormed rfl).symm
    counted := balanced.inFlight
    noUnderflow := balanced.ne_zero
    exact_iff := balanced.exact_iff }

/-- A client asks for the version and leaves before the upstream has answered: nothing is underway
any more, and the counter stays at one. -/
theorem versionRequest_stays_counted :
    let request : Request := ⟨Method.get, ⟨"/version", none, some "/version"⟩, [], []⟩
    let events := [.probed true, .arrive request, .advance 0, .abandon 0]
    let engine := (Engine.start (Settings.default default) .inMemory 0).run events
    engine.underway = ∅ ∧ engine.metrics.inFlight = 1 := by
  decide +kernel

end Engine

end Outpost.Proxy
