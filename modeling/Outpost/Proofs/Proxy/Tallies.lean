import Mathlib.Data.Set.Card
import Outpost.Proofs.Proxy.Deletions
import Outpost.Proofs.Proxy.InFlight
import Outpost.Proofs.Proxy.Transparency

/-!
# Tallies

A counter tallies a set of requests if, event by event, either both stay as they are or the counter
goes up by one and the set has one request more.  As long as no counter goes all the way round, it
then is the number of these requests.  Two kinds of sets are tallied: the requests that have been
answered with a status of some class, and those that have made a step out of a state which none is
in twice.
-/

namespace Outpost.Proxy

open Api Cache Coding Config Http Store Outpost.Stream

/-! ## Counters that go round -/

namespace Metrics

variable {count : Metrics → UInt64} {before after : Metrics}

def Wraps (before after : Metrics) : Prop :=
  ∃ counts ∈ before.toList.zip after.toList, counts.1 + 1 = 0 ∧ counts.2 = 0

instance (before after : Metrics) : Decidable (before.Wraps after) :=
  inferInstanceAs (Decidable (∃ _ ∈ _, _))

structure IsCounter (count : Metrics → UInt64) : Prop where
  listed : ∀ before after : Metrics, (count before, count after) ∈ before.toList.zip after.toList
  zero : count .zero = 0
  starts : ∀ metrics : Metrics, count metrics.recordStart = count metrics

theorem IsCounter.toNat_raised (counter : IsCounter count) (unwrapped : ¬ before.Wraps after)
    (raised : count after = count before + 1) :
    (count after).toNat = (count before).toNat + 1 := by
  have notZero : count before + 1 ≠ 0 := fun zero =>
    unwrapped ⟨_, counter.listed before after, zero, raised.trans zero⟩
  rw [ne_eq, ← UInt64.toNat_inj, UInt64.toNat_add] at notZero
  rw [raised, UInt64.toNat_add]
  have := (count before).toNat_lt
  simp only [UInt64.reduceToNat] at notZero ⊢
  omega

theorem recordEnd_eq (metrics : Metrics) (status : StatusCode) :
    ∃ total inFlight succeeded clientErrors serverErrors, metrics.recordEnd status =
      { metrics with total, inFlight, succeeded, clientErrors, serverErrors } := by
  unfold recordEnd recordStatus
  repeat' split
  all_goals exact ⟨_, _, _, _, _, rfl⟩

end Metrics

namespace Engine

variable {start engine : Engine} {events : List Event} {event : Event} {id : Nat}
  {exchange later : Exchange} {response : Response} {count : Metrics → UInt64}

/-- No counter goes round in the run. -/
def Unwrapped : Engine → List Event → Prop
  | _, [] => True
  | engine, event :: rest =>
      ¬ engine.metrics.Wraps (engine.step event).metrics ∧ (engine.step event).Unwrapped rest

instance decidableUnwrapped : (engine : Engine) → (events : List Event) →
    Decidable (engine.Unwrapped events)
  | _, [] => inferInstanceAs (Decidable True)
  | engine, event :: rest =>
      have := decidableUnwrapped (engine.step event) rest
      inferInstanceAs (Decidable (_ ∧ _))

theorem unwrapped_append {before after : List Event} : start.Unwrapped (before ++ after) ↔
    start.Unwrapped before ∧ (start.run before).Unwrapped after := by
  induction before generalizing start with
  | nil => exact (and_iff_right trivial).symm
  | cons event rest ih =>
      rw [List.cons_append, Unwrapped, Unwrapped, ih, and_assoc]
      rfl

/-! ## Tallies -/

/-- How an event changes a set of requests and a counter for them. -/
inductive Tallies (among joined : Set Nat) (before after : UInt64) : Prop where
  | same (kept : joined = among) (unchanged : after = before)
  | one (id : Nat) (fresh : id ∉ among) (grown : joined = insert id among)
      (raised : after = before + 1)

theorem Tallies.about {among joined : Set Nat} {before after : UInt64} (id : Nat)
    (others : ∀ other ≠ id, other ∈ joined ↔ other ∈ among)
    (here : (id ∈ joined ↔ id ∈ among) ∧ after = before ∨
      id ∉ among ∧ id ∈ joined ∧ after = before + 1) : Tallies among joined before after := by
  rcases here with ⟨kept, unchanged⟩ | ⟨fresh, joins, raised⟩
  · refine .same (Set.ext fun other => ?_) unchanged
    by_cases same : other = id
    · subst same
      exact kept
    · exact others other same
  · refine .one id fresh (Set.ext fun other => ?_) raised
    by_cases same : other = id
    · subst same
      exact iff_of_true joins (Set.mem_insert other among)
    · exact (others other same).trans (Set.mem_insert_iff.trans (or_iff_right same)).symm

theorem run_tallied (counter : Metrics.IsCounter count) (zero : start.metrics = .zero)
    (among : List Event → Set Nat) (none : among [] = ∅)
    (steps : ∀ events event, Tallies (among events) (among (events ++ [event]))
      (count (start.run events).metrics) (count ((start.run events).step event).metrics))
    (unwrapped : start.Unwrapped events) :
    (among events).encard = (count (start.run events).metrics).toNat := by
  induction events using List.reverseRecOn with
  | nil =>
      have empty : (start.run []).metrics = .zero := zero
      rw [none, empty, counter.zero, Set.encard_empty]
      rfl
  | append_singleton before event ih =>
      obtain ⟨earlier, last, -⟩ := unwrapped_append.mp unwrapped
      rw [run_concat]
      cases steps before event with
      | same kept unchanged => rw [kept, unchanged, ih earlier]
      | one id fresh grown raised =>
          rw [grown, Set.encard_insert_of_notMem fresh, ih earlier,
            counter.toNat_raised last raised]
          rfl

/-! ## Answers -/

def answeredWith (engine : Engine) (status : StatusCode → Prop) : Set Nat :=
  {id | ∃ response, engine.HasResponse id response ∧ status response.status}

theorem standing_of_hasResponse (has : engine.HasResponse id response) :
    engine.standing id = .answered := by
  obtain ⟨exchange, delivery, found, responded⟩ := has
  exact standing_answered found (by rw [responded]; rfl)

theorem exists_hasResponse (answered : engine.standing id = .answered) :
    ∃ response, engine.HasResponse id response := by
  obtain ⟨exchange, found, responded⟩ := standing_eq_answered_iff.mp answered
  cases phase : exchange.phase with
  | responded response delivery => exact ⟨response, exchange, delivery, found, phase⟩
  | _ => simp [phase, Phase.isResponded] at responded

theorem own_of_completes (wellFormed : engine.WellFormed)
    (unanswered : engine.standing id ≠ .answered)
    (answered : (engine.step event).standing id = .answered) :
    engine.standing id = .underway ∧
      (event = .advance id ∨ ∃ result, event = .answer id result) := by
  rcases step_standing wellFormed event id with same | ⟨standing, here, shifts⟩
  · exact absurd (same.symm.trans answered) unanswered
  have now : standing = .answered := here.symm.trans answered
  cases shifts with
  | starts | gives => cases now
  | completes event was own => exact ⟨was, own⟩
  | stays => exact absurd now unanswered

theorem eq_of_completes (wellFormed : engine.WellFormed) {other : Nat}
    (unanswered : engine.standing id ≠ .answered)
    (answered : (engine.step event).standing id = .answered)
    (otherUnanswered : engine.standing other ≠ .answered)
    (otherAnswered : (engine.step event).standing other = .answered) : other = id := by
  obtain ⟨-, own⟩ := own_of_completes wellFormed unanswered answered
  obtain ⟨-, otherOwn⟩ := own_of_completes wellFormed otherUnanswered otherAnswered
  rcases own with rfl | ⟨result, rfl⟩ <;> rcases otherOwn with same | ⟨given, same⟩ <;>
    cases same <;> rfl

theorem hasResponse_step_iff
    (before : (engine.step event).standing id = .answered → engine.standing id = .answered) :
    (engine.step event).HasResponse id response ↔ engine.HasResponse id response := by
  refine ⟨fun has => ?_, fun has => has.step event⟩
  obtain ⟨earlier, had⟩ := exists_hasResponse (before (standing_of_hasResponse has))
  rwa [has.unique (had.step event)]

theorem mem_answeredWith_step {status : StatusCode → Prop}
    (before : (engine.step event).standing id = .answered → engine.standing id = .answered) :
    id ∈ (engine.step event).answeredWith status ↔ id ∈ engine.answeredWith status :=
  exists_congr fun _ => and_congr_left fun _ => hasResponse_step_iff before

structure CountsAnswers (count : Metrics → UInt64) (status : StatusCode → Prop)
    [DecidablePred status] : Prop extends Metrics.IsCounter count where
  leaves : ∀ (engine : Engine) (exchange : Exchange) (phase : Phase),
    count (engine.countLeave exchange phase) = count engine.metrics
  ends : ∀ (metrics : Metrics) (code : StatusCode),
    count (metrics.recordEnd code) = if status code then count metrics + 1 else count metrics

namespace CountsAnswers

variable {status : StatusCode → Prop} [DecidablePred status] (counts : CountsAnswers count status)

include counts

theorem countTurn_quiet {phase : Phase}
    (quiet : phase.isResponded = true → exchange.phase.isResponded = true) :
    count (engine.countTurn exchange phase) = count engine.metrics := by
  unfold countTurn
  split
  · rfl
  · rfl
  · rename_i response delivery unanswered
    cases (Phase.isResponded_eq_false unanswered).symm.trans (quiet rfl)
  · exact counts.leaves engine exchange _

theorem step_quiet (quiet : ∀ id, (engine.step event).standing id = .answered →
    engine.standing id = .answered) :
    count (engine.step event).metrics = count engine.metrics := by
  have turned {id : Nat} (counted : Counts engine id (engine.step event)) :
      count (engine.step event).metrics = count engine.metrics := by
    cases counted with
    | absent absent metrics => rw [metrics]
    | turn exchange later found there metrics =>
        rw [metrics]
        refine counts.countTurn_quiet fun responded => ?_
        obtain ⟨same, again, answered⟩ :=
          standing_eq_answered_iff.mp (quiet id (standing_answered there responded))
        cases found.symm.trans again
        exact answered
  have counted := step_metrics engine event
  cases event with
  | arrive request => exact (congrArg count counted).trans (counts.starts engine.metrics)
  | advance id => exact turned counted
  | answer id result => exact turned counted
  | _ => exact congrArg count counted

theorem step_completes (wellFormed : engine.WellFormed)
    (unanswered : engine.standing id ≠ .answered)
    (has : (engine.step event).HasResponse id response) :
    count (engine.step event).metrics =
      if status response.status then count engine.metrics + 1 else count engine.metrics := by
  obtain ⟨underway, own⟩ :=
    own_of_completes wellFormed unanswered (standing_of_hasResponse has)
  obtain ⟨exchange, found, quiet⟩ := standing_eq_underway_iff.mp underway
  obtain ⟨later, delivery, there, responded⟩ := has
  have counted : Counts engine id (engine.step event) := by
    have counted := step_metrics engine event
    obtain rfl | ⟨result, rfl⟩ := own <;> exact counted
  cases counted with
  | absent absent => cases absent.symm.trans found
  | turn same again foundSame thereAgain metrics =>
      cases found.symm.trans foundSame
      cases there.symm.trans thereAgain
      rw [metrics, responded, countTurn_answer quiet, counts.ends, counts.leaves]

theorem tallies (wellFormed : engine.WellFormed) (event : Event) :
    Tallies (engine.answeredWith status) ((engine.step event).answeredWith status)
      (count engine.metrics) (count (engine.step event).metrics) := by
  by_cases new : ∃ id, engine.standing id ≠ .answered ∧
      (engine.step event).standing id = .answered
  case neg =>
    have quiet : ∀ id, (engine.step event).standing id = .answered →
        engine.standing id = .answered := by
      intro id answered
      by_contra unanswered
      exact new ⟨id, unanswered, answered⟩
    exact .same (Set.ext fun id => mem_answeredWith_step (quiet id)) (counts.step_quiet quiet)
  case pos =>
    obtain ⟨id, unanswered, answered⟩ := new
    obtain ⟨response, has⟩ := exists_hasResponse answered
    have before : id ∉ engine.answeredWith status := fun ⟨_, had, _⟩ =>
      unanswered (standing_of_hasResponse had)
    have counted := counts.step_completes wellFormed unanswered has
    refine .about id (fun other differs => mem_answeredWith_step fun otherAnswered => ?_) ?_
    · by_contra otherUnanswered
      exact differs
        (eq_of_completes wellFormed unanswered answered otherUnanswered otherAnswered)
    by_cases told : status response.status
    · exact .inr ⟨before, ⟨response, has, told⟩, counted.trans (if_pos told)⟩
    · refine .inl ⟨iff_of_false (fun ⟨given, again, holds⟩ => ?_) before,
        counted.trans (if_neg told)⟩
      exact told (has.unique again ▸ holds)

theorem toNat_completes (wellFormed : engine.WellFormed)
    (unwrapped : ¬ engine.metrics.Wraps (engine.step event).metrics)
    (unanswered : engine.standing id ≠ .answered)
    (has : (engine.step event).HasResponse id response) :
    (count (engine.step event).metrics).toNat =
      (count engine.metrics).toNat + if status response.status then 1 else 0 := by
  have counted := counts.step_completes wellFormed unanswered has
  by_cases told : status response.status
  · rw [if_pos told] at counted ⊢
    exact counts.toNat_raised unwrapped counted
  · rw [counted, if_neg told, if_neg told, Nat.add_zero]

end CountsAnswers

/-! ## Steps out of a state -/

def stepped (start : Engine) (state : Engine → Exchange → Prop) (events : List Event) : Set Nat :=
  {id | start.StepsFrom id (fun before => state (start.run before)) events}

theorem stepsFrom_concat_iff {state : List Event → Exchange → Prop} :
    start.StepsFrom id state (events ++ [event]) ↔ start.StepsFrom id state events ∨
      event = .advance id ∧
        ∃ exchange, (start.run events).exchange? id = some exchange ∧ state events exchange := by
  constructor
  · rintro ⟨before, after, exchange, split, found, holds⟩
    obtain ⟨rfl, rfl⟩ | ⟨rest, rfl⟩ := last_or_before split
    · exact .inr ⟨rfl, exchange, found, holds⟩
    · exact .inl ⟨before, rest, exchange, rfl, found, holds⟩
  · rintro (steps | ⟨rfl, exchange, found, holds⟩)
    · exact steps.more [event]
    · exact .now found holds

theorem mem_stepped_concat {state : Engine → Exchange → Prop}
    (idle : event = .advance id → ∀ exchange, (start.run events).exchange? id = some exchange →
      ¬ state (start.run events) exchange) :
    id ∈ start.stepped state (events ++ [event]) ↔ id ∈ start.stepped state events := by
  refine stepsFrom_concat_iff.trans (or_iff_left ?_)
  rintro ⟨own, exchange, found, holds⟩
  exact idle own exchange found holds

structure CountsSteps (count : Metrics → UInt64) (state : Engine → Exchange → Prop) : Prop
    extends Metrics.IsCounter count where
  ends : ∀ (metrics : Metrics) (code : StatusCode), count (metrics.recordEnd code) = count metrics
  leaves : ∀ {engine : Engine} {id : Nat} {exchange later : Exchange},
    engine.exchange? id = some exchange →
    (engine.step (.advance id)).exchange? id = some later →
    state engine exchange ∧
        count (engine.countLeave exchange later.phase) = count engine.metrics + 1 ∨
      ¬ state engine exchange ∧
        count (engine.countLeave exchange later.phase) = count engine.metrics
  once : ∀ {engine : Engine} {id : Nat} {exchange later : Exchange} {events : List Event},
    engine.WellFormed → engine.exchange? id = some exchange → state engine exchange →
    ((engine.step (.advance id)).run events).exchange? id = some later →
    ¬ state ((engine.step (.advance id)).run events) later

theorem step_dispatched (found : engine.exchange? id = some exchange)
    (arrived : exchange.phase = .arrived)
    (there : (engine.step (.advance id)).exchange? id = some later) : later.phase ≠ .arrived := by
  have dispatched : engine.step (.advance id) = engine.dispatch exchange := by
    simp only [step, advance, found, arrived]
  obtain ⟨phase, after, left⟩ := dispatch_left found
  rw [dispatched, after] at there
  cases there
  exact left

namespace CountsSteps

variable {state : Engine → Exchange → Prop} (counts : CountsSteps count state)

include counts

theorem countTurn_eq (engine : Engine) {phase : Phase}
    (leaves : exchange.phase = .arrived → phase ≠ .arrived) :
    count (engine.countTurn exchange phase) = count (engine.countLeave exchange phase) := by
  unfold countTurn
  split
  · rename_i responded
    rw [countLeave, responded]
  · rename_i arrived
    exact absurd rfl (leaves arrived)
  · exact counts.ends _ _
  · rfl

theorem step_answer (result : Except TransportFailure Reply) :
    count (engine.step (.answer id result)).metrics = count engine.metrics := by
  cases step_metrics engine (.answer id result) with
  | absent absent metrics => rw [metrics]
  | turn exchange later found there metrics =>
      cases phase : exchange.phase with
      | awaiting relation out =>
          rw [metrics, counts.countTurn_eq engine (by rw [phase]; nofun), countLeave, phase]
      | _ =>
          have unmoved : engine.step (.answer id result) = engine := by
            simp only [step, answer, found, phase]
          rw [unmoved]

theorem tallies (wellFormed : start.WellFormed) (events : List Event) (event : Event) :
    Tallies (start.stepped state events) (start.stepped state (events ++ [event]))
      (count (start.run events).metrics) (count ((start.run events).step event).metrics) := by
  have counted := step_metrics (start.run events) event
  cases event with
  | advance id =>
      refine .about id (fun other differs => mem_stepped_concat fun own => ?_) ?_
      · cases own
        exact absurd rfl differs
      cases counted with
      | absent absent metrics =>
          refine .inl ⟨mem_stepped_concat fun _ exchange found => ?_, by rw [metrics]⟩
          cases absent.symm.trans found
      | turn exchange later found there metrics =>
          rw [metrics, counts.countTurn_eq (start.run events)
            fun arrived => step_dispatched found arrived there]
          rcases counts.leaves found there with ⟨holds, raised⟩ | ⟨idle, unchanged⟩
          · refine .inr ⟨?_, .now found holds, raised⟩
            rintro ⟨before, after, earlier, rfl, foundEarlier, held⟩
            rw [run_append] at found holds
            exact counts.once (run_wellFormed wellFormed before) foundEarlier held found holds
          · refine .inl ⟨mem_stepped_concat fun _ other again => ?_, unchanged⟩
            cases found.symm.trans again
            exact idle
  | arrive request =>
      exact .same (Set.ext fun _ => mem_stepped_concat nofun)
        ((congrArg count counted).trans (counts.starts _))
  | answer id result =>
      exact .same (Set.ext fun _ => mem_stepped_concat nofun) (counts.step_answer result)
  | _ => exact .same (Set.ext fun _ => mem_stepped_concat nofun) (congrArg count counted)

end CountsSteps

end Engine

end Outpost.Proxy
