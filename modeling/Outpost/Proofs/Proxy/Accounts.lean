import Outpost.Proofs.Proxy.Tallies

/-!
# What the counters tell

Each counter but the one of requests in flight is the number of the requests with one thing in
common: that they were answered, or with a status of some class, that they were dispatched in some
state of the engine, or that a look found their volatile entry.  The counter of requests in flight
is the number of those that have not been answered, even if their client has left.  From this
follows how the counters compare, whatever is underway.
-/

namespace Outpost.Proxy

open Api Cache Coding Config Http Store Outpost.Stream

namespace Engine

variable {start engine : Engine} {events : List Event} {event : Event} {id : Nat}
  {exchange later : Exchange} {response : Response} {count : Metrics → UInt64}

/-! ## Answers -/

theorem countLeave_eq (engine : Engine) (exchange : Exchange) (phase : Phase) :
    ∃ fallbacks volatileRequests volatileHits, engine.countLeave exchange phase =
      { engine.metrics with fallbacks, volatileRequests, volatileHits } := by
  unfold countLeave countDispatch countAsked
  repeat' split
  all_goals exact ⟨_, _, _, rfl⟩

theorem CountsAnswers.of {status : StatusCode → Prop} [DecidablePred status]
    (counter : Metrics.IsCounter count)
    (others : ∀ (metrics : Metrics) (fallbacks volatileRequests volatileHits : UInt64),
      count { metrics with fallbacks, volatileRequests, volatileHits } = count metrics)
    (ends : ∀ (metrics : Metrics) (code : StatusCode),
      count (metrics.recordEnd code) = if status code then count metrics + 1 else count metrics) :
    CountsAnswers count status where
  toIsCounter := counter
  leaves engine exchange phase := by
    obtain ⟨_, _, _, left⟩ := countLeave_eq engine exchange phase
    rw [left, others]
  ends := ends

theorem countsAnswers_total : CountsAnswers Metrics.total fun _ => True := by
  refine .of ⟨by simp [Metrics.toList], rfl, fun _ => rfl⟩ (fun _ _ _ _ => rfl) ?_
  intro metrics code
  unfold Metrics.recordEnd Metrics.recordStatus
  repeat' split
  all_goals first | rfl | contradiction

theorem countsAnswers_succeeded :
    CountsAnswers Metrics.succeeded fun code => 200 ≤ code ∧ code < 400 := by
  refine .of ⟨by simp [Metrics.toList], rfl, fun _ => rfl⟩ (fun _ _ _ _ => rfl) ?_
  intro metrics code
  unfold Metrics.recordEnd Metrics.recordStatus
  repeat' split
  all_goals first | rfl | grind

theorem countsAnswers_clientErrors :
    CountsAnswers Metrics.clientErrors fun code => 400 ≤ code ∧ code < 500 := by
  refine .of ⟨by simp [Metrics.toList], rfl, fun _ => rfl⟩ (fun _ _ _ _ => rfl) ?_
  intro metrics code
  unfold Metrics.recordEnd Metrics.recordStatus
  repeat' split
  all_goals first | rfl | grind

theorem countsAnswers_serverErrors :
    CountsAnswers Metrics.serverErrors fun code => 500 ≤ code := by
  refine .of ⟨by simp [Metrics.toList], rfl, fun _ => rfl⟩ (fun _ _ _ _ => rfl) ?_
  intro metrics code
  unfold Metrics.recordEnd Metrics.recordStatus
  repeat' split
  all_goals rfl

/-! ## Dispatches -/

def DispatchesUnhealthy (engine : Engine) (exchange : Exchange) : Prop :=
  exchange.phase = .arrived ∧ engine.handler = .dev ∧ engine.health.isHealthy = false

def DispatchesVolatile (engine : Engine) (exchange : Exchange) : Prop :=
  exchange.phase = .arrived ∧ engine.handler = .dev ∧ exchange.info.policy = .volatile

theorem countLeave_arrived (arrived : exchange.phase = .arrived) (phase : Phase) :
    engine.countLeave exchange phase = engine.countDispatch exchange := by
  rw [countLeave, arrived]

theorem countLeave_dispatched (left : exchange.phase ≠ .arrived) (phase : Phase) :
    ∃ volatileHits, engine.countLeave exchange phase = { engine.metrics with volatileHits } := by
  unfold countLeave
  repeat' split
  all_goals first | contradiction | exact ⟨_, rfl⟩

theorem not_arrived_again (wellFormed : engine.WellFormed)
    (found : engine.exchange? id = some exchange) (arrived : exchange.phase = .arrived)
    (again : ((engine.step (.advance id)).run events).exchange? id = some later) :
    later.phase ≠ .arrived :=
  (run_hasLeft (step_left wellFormed found arrived) events).2 later again

theorem CountsSteps.ofDispatch {state : Engine → Exchange → Prop}
    (counter : Metrics.IsCounter count)
    (ends : ∀ (metrics : Metrics) (total inFlight succeeded clientErrors serverErrors : UInt64),
      count { metrics with total, inFlight, succeeded, clientErrors, serverErrors } =
        count metrics)
    (hits : ∀ (metrics : Metrics) (volatileHits : UInt64),
      count { metrics with volatileHits } = count metrics)
    (arrived : ∀ {engine : Engine} {exchange : Exchange}, state engine exchange →
      exchange.phase = .arrived)
    (dispatches : ∀ {engine : Engine} {exchange : Exchange}, exchange.phase = .arrived →
      state engine exchange ∧ count (engine.countDispatch exchange) = count engine.metrics + 1 ∨
        ¬ state engine exchange ∧ count (engine.countDispatch exchange) = count engine.metrics) :
    CountsSteps count state where
  toIsCounter := counter
  ends metrics code := by
    obtain ⟨_, _, _, _, _, ended⟩ := metrics.recordEnd_eq code
    rw [ended, ends]
  leaves := by
    intro engine id exchange later _ _
    by_cases fresh : exchange.phase = .arrived
    · rw [countLeave_arrived fresh]
      exact dispatches fresh
    · obtain ⟨_, left⟩ := countLeave_dispatched fresh later.phase
      exact .inr ⟨fun holds => fresh (arrived holds), by rw [left, hits]⟩
  once wellFormed found holds again holdsAgain :=
    not_arrived_again wellFormed found (arrived holds) again (arrived holdsAgain)

theorem countsSteps_fallbacks : CountsSteps Metrics.fallbacks DispatchesUnhealthy := by
  refine .ofDispatch ⟨by simp [Metrics.toList], rfl, fun _ => rfl⟩ (fun _ _ _ _ _ _ => rfl)
    (fun _ _ => rfl) And.left fun {engine exchange} arrived => ?_
  unfold DispatchesUnhealthy countDispatch countAsked
  cases engine.handler <;> cases engine.health.isHealthy <;>
    by_cases volatile : exchange.info.policy = .volatile <;>
    simp [arrived, volatile, Metrics.recordFallback, Metrics.recordVolatileRequest]

theorem countsSteps_volatileRequests :
    CountsSteps Metrics.volatileRequests DispatchesVolatile := by
  refine .ofDispatch ⟨by simp [Metrics.toList], rfl, fun _ => rfl⟩ (fun _ _ _ _ _ _ => rfl)
    (fun _ _ => rfl) And.left fun {engine exchange} arrived => ?_
  unfold DispatchesVolatile countDispatch countAsked
  cases engine.handler <;> cases engine.health.isHealthy <;>
    by_cases volatile : exchange.info.policy = .volatile <;>
    simp [arrived, volatile, Metrics.recordFallback, Metrics.recordVolatileRequest]

/-! ## Hits -/

def FindsEntry (engine : Engine) (exchange : Exchange) : Prop :=
  ∃ key payload, (exchange.phase = .firstLook key ∨ exchange.phase = .secondLook key) ∧
    engine.tiers.volatile? key = some payload

theorem hasResponse_conclude (found : engine.exchange? id = some exchange)
    (response : Response) : (engine.conclude exchange response).HasResponse id response := by
  have number := id_of_exchange? found
  subst number
  exact ⟨_, _, exchange?_conclude response found, rfl⟩

theorem hasResponse_hit {key : Key} {payload : Bytes}
    (found : engine.exchange? id = some exchange)
    (looking : exchange.phase = .firstLook key ∨ exchange.phase = .secondLook key)
    (present : engine.tiers.volatile? key = some payload) :
    (engine.step (.advance id)).HasResponse id (Response.json 200 payload) := by
  rw [step_hit found looking present]
  exact hasResponse_conclude (by exact found) _

theorem isResponded_look {key : Key} (found : engine.exchange? id = some exchange)
    (looking : exchange.phase = .firstLook key ∨ exchange.phase = .secondLook key)
    (there : (engine.step (.advance id)).exchange? id = some later) :
    later.phase.isResponded = true ↔ FindsEntry engine exchange := by
  cases present : engine.tiers.volatile? key with
  | some payload =>
      obtain ⟨same, delivery, again, responded⟩ := hasResponse_hit found looking present
      cases there.symm.trans again
      exact iff_of_true (by rw [responded]; rfl) ⟨key, payload, looking, present⟩
  | none =>
      have missed : later.phase.isResponded = false := by
        rcases looking with looking | looking
        · rw [step_miss found looking present, exchange?_setPhase found] at there
          cases there
          rfl
        · rw [step_missAgain found looking present, exchange?_setPhase found] at there
          cases there
          rfl
      refine iff_of_false (by rw [missed]; decide) ?_
      rintro ⟨other, payload, otherLooking, otherPresent⟩
      rcases looking with looking | looking <;> rcases otherLooking with same | same <;>
        cases looking.symm.trans same <;> cases present.symm.trans otherPresent

theorem countLeave_look {key : Key}
    (looking : exchange.phase = .firstLook key ∨ exchange.phase = .secondLook key)
    (phase : Phase) : engine.countLeave exchange phase =
      if phase.isResponded then engine.metrics.recordVolatileHit else engine.metrics := by
  rcases looking with looking | looking <;> rw [countLeave, looking]

theorem volatileHits_countLeave
    (other : ¬ ∃ key, exchange.phase = .firstLook key ∨ exchange.phase = .secondLook key)
    (phase : Phase) :
    (engine.countLeave exchange phase).volatileHits = engine.metrics.volatileHits := by
  unfold countLeave countDispatch countAsked
  repeat' split
  all_goals first | rfl | simp_all

theorem countsSteps_volatileHits : CountsSteps Metrics.volatileHits FindsEntry where
  toIsCounter := ⟨by simp [Metrics.toList], rfl, fun _ => rfl⟩
  ends metrics code := by
    obtain ⟨_, _, _, _, _, ended⟩ := metrics.recordEnd_eq code
    rw [ended]
  leaves := by
    intro engine id exchange later found there
    by_cases looks : ∃ key, exchange.phase = .firstLook key ∨ exchange.phase = .secondLook key
    · obtain ⟨key, looking⟩ := looks
      have answers := isResponded_look found looking there
      rw [countLeave_look looking]
      by_cases finds : FindsEntry engine exchange
      · rw [if_pos (answers.mpr finds)]
        exact .inl ⟨finds, rfl⟩
      · rw [if_neg (mt answers.mp finds)]
        exact .inr ⟨finds, rfl⟩
    · refine .inr ⟨fun ⟨key, _, looking, _⟩ => looks ⟨key, looking⟩, ?_⟩
      exact volatileHits_countLeave looks later.phase
  once := by
    rintro engine id exchange later events _ found ⟨key, payload, looking, present⟩ again
      ⟨other, _, lookingAgain, _⟩
    obtain ⟨same, delivery, there, responded⟩ :=
      (hasResponse_hit found looking present).run events
    cases again.symm.trans there
    simp [responded] at lookingAgain

/-! ## Requests in flight -/

/-- The number of the requests that have been given a number and have not been answered. -/
def unanswered (engine : Engine) : Nat := engine.underway.card + engine.forsaken.card

theorem unanswered_step_le (wellFormed : engine.WellFormed) (event : Event) :
    (engine.step event).unanswered ≤ engine.unanswered + 1 := by
  have answered : engine.numbers .answered ⊆ (engine.step event).numbers .answered := by
    intro id member
    obtain ⟨given, answered⟩ := mem_numbers.mp member
    exact mem_numbers.mpr ⟨Nat.lt_of_lt_of_le given (step_nextId engine event),
      standing_step_of_answered wellFormed event answered⟩
  have atMostOne : (engine.step event).nextId ≤ engine.nextId + 1 := by
    rw [nextId_step]
    cases event <;> first | exact Nat.le_refl _ | exact Nat.le_succ _
  have before := card_numbers engine
  have after := card_numbers (engine.step event)
  have more := Finset.card_le_card answered
  unfold unanswered
  omega

theorem unanswered_lt (wellFormed : start.WellFormed) (balanced : start.Balanced)
    (first : start.nextId = 0) (unwrapped : start.Unwrapped events) :
    (start.run events).unanswered < 2 ^ 64 := by
  induction events using List.reverseRecOn with
  | nil =>
      have given : start.unanswered ≤ start.nextId := by
        have := card_numbers start
        unfold unanswered
        omega
      exact Nat.lt_of_le_of_lt (first ▸ given) (by decide)
  | append_singleton before event ih =>
      obtain ⟨earlier, last, -⟩ := unwrapped_append.mp unwrapped
      have few := ih earlier
      have here := run_wellFormed wellFormed before
      have counted := run_balanced wellFormed balanced before
      have one := unanswered_step_le here event
      rw [run_concat]
      by_contra many
      have full : (start.run before).unanswered = 2 ^ 64 - 1 := by omega
      have spent : ((start.run before).step event).unanswered = 2 ^ 64 := by omega
      refine last ⟨((start.run before).metrics.inFlight,
        ((start.run before).step event).metrics.inFlight), by simp [Metrics.toList], ?_, ?_⟩
      · rw [counted.inFlight]
        exact congrArg (UInt64.ofNat · + 1) full
      · rw [(step_balanced here counted event).inFlight]
        exact (congrArg UInt64.ofNat spent).trans rfl

theorem inFlight_toNat (wellFormed : start.WellFormed) (balanced : start.Balanced)
    (first : start.nextId = 0) (unwrapped : start.Unwrapped events) :
    (start.run events).metrics.inFlight.toNat = (start.run events).unanswered := by
  have few := unanswered_lt wellFormed balanced first unwrapped
  rw [(run_balanced wellFormed balanced events).inFlight, UInt64.toNat_ofNat']
  exact Nat.mod_eq_of_lt few

/-! ## The counters of a run -/

section Runs

variable {settings : Settings} {store : CountedStore} {now : Nat}
  (unwrapped : (Engine.start settings store now).Unwrapped events)

include unwrapped

theorem encard_answeredWith {status : StatusCode → Prop} [DecidablePred status]
    (counts : CountsAnswers count status) :
    (((Engine.start settings store now).run events).answeredWith status).encard =
      (count ((Engine.start settings store now).run events).metrics).toNat := by
  refine run_tallied counts.toIsCounter rfl
    (fun events => ((Engine.start settings store now).run events).answeredWith status) ?_
    (fun before event => ?_) unwrapped
  · exact Set.eq_empty_of_forall_notMem fun id ⟨_, ⟨_, _, found, _⟩, _⟩ => by cases found
  · rw [run_concat]
    exact counts.tallies (run_wellFormed (start_wellFormed settings store now) before) event

theorem encard_stepped {state : Engine → Exchange → Prop} (counts : CountsSteps count state) :
    ((Engine.start settings store now).stepped state events).encard =
      (count ((Engine.start settings store now).run events).metrics).toNat := by
  refine run_tallied counts.toIsCounter rfl ((Engine.start settings store now).stepped state) ?_
    (fun before event => ?_) unwrapped
  · refine Set.eq_empty_of_forall_notMem fun id ⟨before, after, _, split, _⟩ => ?_
    simp at split
  · exact counts.tallies (start_wellFormed settings store now) before event

end Runs

theorem completed_eq (wellFormed : start.WellFormed) :
    {id | start.Completed id events} = (start.run events).answeredWith fun _ => True := by
  refine Set.ext fun id => (completed_iff wellFormed).trans ⟨fun answered => ?_, ?_⟩
  · obtain ⟨response, has⟩ := exists_hasResponse answered
    exact ⟨response, has, trivial⟩
  · rintro ⟨response, has, -⟩
    exact standing_of_hasResponse has

theorem completed_eq_numbers (wellFormed : start.WellFormed) :
    {id | start.Completed id events} = ((start.run events).numbers .answered : Set Nat) := by
  refine Set.ext fun id => (completed_iff wellFormed).trans ⟨fun answered => ?_, fun member => ?_⟩
  · refine mem_numbers.mpr ⟨Nat.lt_of_not_le fun fresh => ?_, answered⟩
    cases (standing_fresh (run_wellFormed wellFormed events) fresh).symm.trans answered
  · exact (mem_numbers.mp member).2

theorem stepped_subset (wellFormed : start.WellFormed) (state : Engine → Exchange → Prop)
    (events : List Event) :
    start.stepped state events ⊆ Finset.range (start.run events).nextId := by
  rintro id ⟨before, after, exchange, rfl, found, -⟩
  refine Finset.mem_coe.mpr (Finset.mem_range.mpr ?_)
  have known : id < (start.run before).nextId :=
    (run_wellFormed wellFormed before id).known fun empty => by
      cases (congrArg Slot.exchange empty).symm.trans found
  rw [run_append]
  exact Nat.lt_of_lt_of_le known (run_nextId _ _)

theorem stepped_findsEntry_subset (settings : Settings) (store : CountedStore) (now : Nat)
    (events : List Event) :
    (Engine.start settings store now).stepped FindsEntry events ⊆
      (Engine.start settings store now).stepped DispatchesVolatile events := by
  rintro id ⟨before, after, exchange, rfl, found, key, payload, looking, -⟩
  suffices asked : (Engine.start settings store now).StepsFrom id (fun earlier =>
      DispatchesVolatile ((Engine.start settings store now).run earlier)) before from
    asked.more _
  have wellFormed := run_wellFormed (start_wellFormed settings store now)
  have routed := run_routed settings store now before id exchange found
  have treated : exchange.phase.way? = some .treated := by
    rcases looking with looking | looking <;> rw [looking] <;> rfl
  have dev := (Relation.eq_of_treated (routed.way _ treated)).1
  have asks : AsksFor exchange.request key :=
    ((wellFormed before id).exchange exchange found).looks key (by
      rcases looking with looking | looking <;> rw [looking] <;> rfl)
  have dispatched : (Engine.start settings store now).DispatchedHealthy id before := by
    rcases run_accounted settings dev store now before id exchange found with
      arrived | answered | dispatched
    · rw [arrived] at treated
      cases treated
    · rcases looking with looking | looking <;> rw [looking] at answered <;> cases answered
    · exact dispatched
  obtain ⟨earlier, rest, first, rfl, foundFirst, arrived, -⟩ := dispatched
  have same : first.request = exchange.request :=
    ((run_routed settings store now earlier id first foundFirst).arrived.more _).unique
      routed.arrived
  refine ⟨earlier, rest, first, rfl, foundFirst, arrived, ?_, ?_⟩
  · exact (run_handler _ earlier).trans dev
  · rw [((wellFormed earlier id).exchange first foundFirst).info, same]
    exact asks.volatile

theorem not_mem_answeredWith {status other : StatusCode → Prop}
    (apart : ∀ code, status code → ¬ other code) (member : id ∈ engine.answeredWith status) :
    id ∉ engine.answeredWith other := by
  obtain ⟨response, has, holds⟩ := member
  rintro ⟨same, again, otherHolds⟩
  cases has.unique again
  exact apart _ holds otherHolds

structure Completes (status : StatusCode) (before after : Metrics) : Prop where
  total : after.total.toNat = before.total.toNat + 1
  succeeded : after.succeeded.toNat =
    before.succeeded.toNat + if 200 ≤ status ∧ status < 400 then 1 else 0
  clientErrors : after.clientErrors.toNat =
    before.clientErrors.toNat + if 400 ≤ status ∧ status < 500 then 1 else 0
  serverErrors : after.serverErrors.toNat =
    before.serverErrors.toNat + if 500 ≤ status then 1 else 0

theorem step_completes (wellFormed : engine.WellFormed)
    (unwrapped : ¬ engine.metrics.Wraps (engine.step event).metrics)
    (unanswered : engine.standing id ≠ .answered)
    (has : (engine.step event).HasResponse id response) :
    Completes response.status engine.metrics (engine.step event).metrics where
  total := countsAnswers_total.toNat_completes wellFormed unwrapped unanswered has
  succeeded := countsAnswers_succeeded.toNat_completes wellFormed unwrapped unanswered has
  clientErrors := countsAnswers_clientErrors.toNat_completes wellFormed unwrapped unanswered has
  serverErrors := countsAnswers_serverErrors.toNat_completes wellFormed unwrapped unanswered has

section Runs

variable {settings : Settings} {store : CountedStore} {now : Nat}
  (unwrapped : (Engine.start settings store now).Unwrapped events)

include unwrapped

/-- Every request that has got a number is in the total or in flight. -/
theorem total_add_inFlight : ((Engine.start settings store now).run events).metrics.total.toNat +
    ((Engine.start settings store now).run events).metrics.inFlight.toNat =
      ((Engine.start settings store now).run events).nextId := by
  have wellFormed := start_wellFormed settings store now
  have answered := encard_answeredWith unwrapped countsAnswers_total
  rw [← completed_eq wellFormed, completed_eq_numbers wellFormed,
    Set.encard_coe_eq_coe_finsetCard] at answered
  rw [← Nat.cast_inj.mp answered, inFlight_toNat wellFormed rfl rfl unwrapped]
  exact card_numbers _

theorem toNat_stepped_le {state : Engine → Exchange → Prop} (counts : CountsSteps count state) :
    (count ((Engine.start settings store now).run events).metrics).toNat ≤
      ((Engine.start settings store now).run events).metrics.total.toNat +
        ((Engine.start settings store now).run events).metrics.inFlight.toNat := by
  have given := Set.encard_le_encard
    (stepped_subset (start_wellFormed settings store now) state events)
  rw [encard_stepped unwrapped counts, Set.encard_coe_eq_coe_finsetCard, Finset.card_range,
    ← total_add_inFlight unwrapped] at given
  exact Nat.cast_le.mp given

theorem volatileHits_le :
    ((Engine.start settings store now).run events).metrics.volatileHits.toNat ≤
      ((Engine.start settings store now).run events).metrics.volatileRequests.toNat := by
  have fewer := Set.encard_le_encard (stepped_findsEntry_subset settings store now events)
  rw [encard_stepped unwrapped countsSteps_volatileHits,
    encard_stepped unwrapped countsSteps_volatileRequests] at fewer
  exact Nat.cast_le.mp fewer

theorem classes_le : ((Engine.start settings store now).run events).metrics.succeeded.toNat +
    ((Engine.start settings store now).run events).metrics.clientErrors.toNat +
      ((Engine.start settings store now).run events).metrics.serverErrors.toNat ≤
        ((Engine.start settings store now).run events).metrics.total.toNat := by
  generalize reached : (Engine.start settings store now).run events = engine
  have total := encard_answeredWith unwrapped countsAnswers_total
  have succeeded := encard_answeredWith unwrapped countsAnswers_succeeded
  have clientErrors := encard_answeredWith unwrapped countsAnswers_clientErrors
  have serverErrors := encard_answeredWith unwrapped countsAnswers_serverErrors
  rw [reached] at total succeeded clientErrors serverErrors
  have errors : Disjoint (engine.answeredWith fun code => 400 ≤ code ∧ code < 500)
      (engine.answeredWith fun code => 500 ≤ code) :=
    Set.disjoint_left.mpr fun _ => not_mem_answeredWith fun code => by grind
  have others : Disjoint (engine.answeredWith fun code => 200 ≤ code ∧ code < 400)
      ((engine.answeredWith fun code => 400 ≤ code ∧ code < 500) ∪
        engine.answeredWith fun code => 500 ≤ code) :=
    Set.disjoint_union_right.mpr
      ⟨Set.disjoint_left.mpr fun _ => not_mem_answeredWith fun code => by grind,
        Set.disjoint_left.mpr fun _ => not_mem_answeredWith fun code => by grind⟩
  have all : (engine.answeredWith fun code => 200 ≤ code ∧ code < 400) ∪
      ((engine.answeredWith fun code => 400 ≤ code ∧ code < 500) ∪
        engine.answeredWith fun code => 500 ≤ code) ⊆ engine.answeredWith fun _ => True := by
    rintro id (⟨response, has, -⟩ | ⟨response, has, -⟩ | ⟨response, has, -⟩) <;>
      exact ⟨response, has, trivial⟩
  have fewer := Set.encard_le_encard all
  rw [Set.encard_union_eq others, Set.encard_union_eq errors, succeeded, clientErrors,
    serverErrors, total] at fewer
  rw [Nat.add_assoc]
  exact_mod_cast fewer

end Runs

/-- What the counters tell of a run, whether clients leave in it or not. -/
structure KeepsCounts (start : Engine) (events : List Event) : Prop where
  volatileHits_le : (start.run events).metrics.volatileHits.toNat ≤
    (start.run events).metrics.volatileRequests.toNat
  volatileRequests_le : (start.run events).metrics.volatileRequests.toNat ≤
    (start.run events).metrics.total.toNat + (start.run events).metrics.inFlight.toNat
  fallbacks_le : (start.run events).metrics.fallbacks.toNat ≤
    (start.run events).metrics.total.toNat + (start.run events).metrics.inFlight.toNat
  completes : ∀ before event after id response, events = before ++ event :: after →
    ¬ start.Completed id before → (start.run (before ++ [event])).HasResponse id response →
    Completes response.status (start.run before).metrics (start.run (before ++ [event])).metrics
  total : {id | start.Completed id events}.encard = (start.run events).metrics.total.toNat
  succeeded : ((start.run events).answeredWith fun status => 200 ≤ status ∧ status < 400).encard =
    (start.run events).metrics.succeeded.toNat
  clientErrors :
    ((start.run events).answeredWith fun status => 400 ≤ status ∧ status < 500).encard =
      (start.run events).metrics.clientErrors.toNat
  serverErrors : ((start.run events).answeredWith fun status => 500 ≤ status).encard =
    (start.run events).metrics.serverErrors.toNat
  classes_le : (start.run events).metrics.succeeded.toNat +
    (start.run events).metrics.clientErrors.toNat +
      (start.run events).metrics.serverErrors.toNat ≤ (start.run events).metrics.total.toNat
  fallbacks : (start.stepped DispatchesUnhealthy events).encard =
    (start.run events).metrics.fallbacks.toNat

theorem run_keepsCounts (settings : Settings) (store : CountedStore) (now : Nat)
    (events : List Event) (unwrapped : (Engine.start settings store now).Unwrapped events) :
    (Engine.start settings store now).KeepsCounts events where
  volatileHits_le := volatileHits_le unwrapped
  volatileRequests_le := toNat_stepped_le unwrapped countsSteps_volatileRequests
  fallbacks_le := toNat_stepped_le unwrapped countsSteps_fallbacks
  completes := by
    rintro before event after id response rfl incomplete has
    obtain ⟨-, last, -⟩ := unwrapped_append.mp unwrapped
    have wellFormed := start_wellFormed settings store now
    have unanswered := fun answered => incomplete ((completed_iff wellFormed).mpr answered)
    rw [run_concat] at has ⊢
    exact step_completes (run_wellFormed wellFormed before) last unanswered has
  total := by
    rw [completed_eq (start_wellFormed settings store now)]
    exact encard_answeredWith unwrapped countsAnswers_total
  succeeded := encard_answeredWith unwrapped countsAnswers_succeeded
  clientErrors := encard_answeredWith unwrapped countsAnswers_clientErrors
  serverErrors := encard_answeredWith unwrapped countsAnswers_serverErrors
  classes_le := classes_le unwrapped
  fallbacks := encard_stepped unwrapped countsSteps_fallbacks

/-- A list is asked for and cached, asked for again and found, and asked for in an outage; a last
request has only arrived. -/
theorem run_keepsCounts_volatile :
    let request : Request := {
      method := "GET"
      target := ⟨"/api/v1/pods", some "labelSelector=type%3Dresourceusage",
        some "/api/v1/pods?labelSelector=type%3Dresourceusage"⟩
      headers := [], body := [] }
    let begin := Engine.start (Settings.default default) .inMemory 0
    let events : List Event := [.probed true, .arrive request, .advance 0, .advance 0,
      .advance 0, .advance 0, .advance 0, .advance 0,
      .answer 0 (.ok (podsReply (podOfType "a" "resourceusage"))), .read 0, .work 0, .read 0,
      .work 0, .work 0, .work 0, .arrive request, .advance 1, .advance 1, .probed false,
      .arrive request, .advance 2, .arrive request]
    (begin.run events).metrics.toList = [3, 1, 2, 1, 0, 1, 3, 1] ∧ begin.Unwrapped events ∧
      begin.KeepsCounts events := by
  intro request begin events
  have unwrapped : begin.Unwrapped events := by decide +kernel
  exact ⟨by decide +kernel, unwrapped,
    run_keepsCounts (Settings.default default) .inMemory 0 events unwrapped⟩

end Engine

end Outpost.Proxy
