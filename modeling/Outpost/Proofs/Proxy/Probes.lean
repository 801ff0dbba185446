import Mathlib.Order.Nat
import Outpost.Proofs.Proxy.Forwarding
import Outpost.Proofs.Proxy.Histories
import Outpost.Proofs.Stream.Arrivals

/-!
# Probes and what is made of them

A probe that is polled as soon as there is something to find succeeds just if the upstream has said
in time, with a status of success, that it is alive.  The health is told by the probes of the run
so far: by the latest one, by the losses among them, and by the last time that they turned.
-/

namespace Outpost.Proxy

open Config Http Store Outpost.Stream

/-! ## One probe -/

namespace Probe

variable {probe after : Probe} {now next time : Nat} {success : Bool}

def due (now : Nat) (probe : Probe) : Nat :=
  match probe.stage with
  | .awaiting time _ => min probe.deadline (max now time)
  | .reading _ source _ => Source.due probe.deadline now source.items

/-- What is still to come makes the probe a success by its deadline. -/
def Passes (now : Nat) (probe : Probe) : Prop :=
  match probe.stage with
  | .awaiting time result =>
      ∃ reply, result = .ok reply ∧ isSuccess reply.status = true ∧
        reply.body.bytes = livenessBody ∧
        Source.EndsBy probe.deadline (max now time) reply.body.items
  | .reading status source received =>
      isSuccess status = true ∧ received ++ source.bytes = livenessBody ∧
        Source.EndsBy probe.deadline now source.items

theorem due_le_deadline (early : now ≤ probe.deadline) : probe.due now ≤ probe.deadline := by
  unfold due
  split
  · exact Nat.min_le_left _ _
  · exact Source.due_le early

theorem passes_congr (early : now < probe.deadline) (later : now ≤ next)
    (prompt : next ≤ probe.due now) : probe.Passes next ↔ probe.Passes now := by
  obtain ⟨deadline, stage⟩ := probe
  cases stage with
  | awaiting time result =>
      replace prompt : next ≤ min deadline (max now time) := prompt
      have same : max next time = max now time := by omega
      unfold Passes
      simp only [same]
  | reading status source received =>
      exact and_congr_right' (and_congr_right' (Source.endsBy_congr early later prompt))

def Settles (deadline now : Nat) (before : ProbeStage) : ProbeStage × Option Bool → Prop
  | (_, some success) => now ≤ deadline → (success = true ↔ Passes now ⟨deadline, before⟩)
  | (after, none) =>
      Passes now ⟨deadline, before⟩ ↔ now < deadline ∧ Passes now ⟨deadline, after⟩

theorem readBody_settles (deadline now : Nat) (status : StatusCode) (source : Source)
    (received : Bytes) :
    Settles deadline now (.reading status source received)
      (readBody now status source received) := by
  have settled := Source.drainItems_settles deadline now source.items received
  unfold readBody Source.drain
  revert settled
  rcases Source.drainItems now source.items received with ⟨rest, grown, ending⟩
  intro settled
  cases ending with
  | pending =>
      obtain ⟨bytes, ends⟩ := settled
      replace bytes : grown ++ Source.bytes ⟨rest⟩ = received ++ source.bytes := bytes
      simp only [Settles, Passes, bytes, ends]
      tauto
  | ended =>
      obtain ⟨bytes, ends⟩ := settled
      replace bytes : grown = received ++ source.bytes := bytes
      intro early
      simp [Passes, bytes, ends.mpr early]
  | failed =>
      have broken : ¬ Source.EndsBy deadline now source.items := settled
      intro early
      simp [Passes, broken]

theorem stageAt_settles (deadline now : Nat) (stage : ProbeStage) :
    Settles deadline now stage (stageAt now stage) := by
  cases stage with
  | awaiting time result =>
      unfold stageAt
      simp only
      split
      · refine ⟨fun passes => ⟨?_, passes⟩, And.right⟩
        obtain ⟨reply, -, -, -, ends⟩ := passes
        have : max now time ≤ deadline := Source.le_of_endsBy ends
        omega
      · cases result with
        | error failure =>
            intro early
            simp [Passes]
        | ok reply =>
            have same : max now time = now := by omega
            have settled := readBody_settles deadline now reply.status reply.body []
            revert settled
            simp only
            generalize readBody now reply.status reply.body [] = found
            rcases found with ⟨after, outcome⟩
            cases outcome <;> simp [Settles, Passes, same]
  | reading status source received => exact readBody_settles deadline now status source received

theorem poll_of_some (found : (probe.poll now).2 = some success) (early : now ≤ probe.deadline) :
    success = true ↔ probe.Passes now := by
  have settled := stageAt_settles probe.deadline now probe.stage
  revert settled found
  unfold poll
  rcases stageAt now probe.stage with ⟨stage, outcome⟩
  cases outcome with
  | some success =>
      intro found settled
      cases found
      exact settled early
  | none =>
      simp only
      split
      · intro found settled
        cases found
        have spent : ¬ now < probe.deadline := by omega
        exact iff_of_false Bool.false_ne_true fun passes => spent (settled.mp passes).1
      · intro found
        cases found

theorem poll_of_none (found : (probe.poll now).2 = none) :
    now < probe.deadline ∧ (probe.poll now).1.deadline = probe.deadline ∧
      (probe.Passes now ↔ (probe.poll now).1.Passes now) := by
  have settled := stageAt_settles probe.deadline now probe.stage
  revert settled found
  unfold poll
  rcases stageAt now probe.stage with ⟨stage, outcome⟩
  cases outcome with
  | some success =>
      intro found
      cases found
  | none =>
      simp only
      split
      · intro found
        cases found
      · intro _ settled
        have early : now < probe.deadline := by omega
        exact ⟨early, rfl, settled.trans (and_iff_right early)⟩

/-- The probe is polled now, and then again, each time as soon as there is something to find, until
it is over at this time with this outcome. -/
inductive Ends : Probe → Nat → Nat → Bool → Prop
  | done (probe : Probe) (now : Nat) (success : Bool)
      (found : (probe.poll now).2 = some success) : Ends probe now now success
  | waits (probe : Probe) (now next time : Nat) (success : Bool)
      (found : (probe.poll now).2 = none) (later : now ≤ next)
      (prompt : next ≤ (probe.poll now).1.due now)
      (ends : Ends (probe.poll now).1 next time success) : Ends probe now time success

theorem Ends.success_iff (ends : probe.Ends now time success) (early : now ≤ probe.deadline) :
    now ≤ time ∧ time ≤ probe.deadline ∧ (success = true ↔ probe.Passes now) := by
  induction ends with
  | done probe now success found => exact ⟨le_rfl, early, poll_of_some found early⟩
  | waits probe now next time success found later prompt ends ih =>
      obtain ⟨earlier, deadline, same⟩ := poll_of_none found
      rw [← deadline] at earlier ⊢
      obtain ⟨after, inTime, passes⟩ := ih (prompt.trans (due_le_deadline earlier.le))
      refine ⟨later.trans after, inTime, ?_⟩
      rw [passes, passes_congr earlier later prompt, same]

/-! ### Every probe ends -/

def left : ProbeStage → Nat
  | .awaiting _ (.ok reply) => reply.body.items.length + 1
  | .awaiting _ (.error _) => 0
  | .reading _ source _ => source.items.length

theorem le_due (early : now ≤ probe.deadline) : now ≤ probe.due now := by
  unfold due
  split
  · exact le_min early (le_max_left _ _)
  · exact Source.le_due early

theorem readBody_progress {deadline : Nat} {status : StatusCode} {source : Source}
    {received : Bytes} {stage : ProbeStage} (early : now < deadline)
    (unfinished : readBody now status source received = (stage, none)) :
    left stage < source.items.length ∨ now < due now ⟨deadline, stage⟩ := by
  unfold readBody Source.drain at unfinished
  rcases drained : Source.drainItems now source.items received with ⟨rest, grown, ending⟩
  rw [drained] at unfinished
  cases ending with
  | pending =>
      cases unfinished
      exact Source.drainItems_progress early drained
  | ended => cases unfinished
  | failed => cases unfinished

/-- A poll that finds nothing has used up something, or can wait for a later time. -/
theorem poll_progress (early : now < probe.deadline) (found : (probe.poll now).2 = none) :
    left (probe.poll now).1.stage < left probe.stage ∨ now < (probe.poll now).1.due now := by
  obtain ⟨deadline, stage⟩ := probe
  have shape : ∃ after, stageAt now stage = (after, none) ∧
      (poll now ⟨deadline, stage⟩).1 = ⟨deadline, after⟩ := by
    revert found
    unfold poll
    rcases stageAt now stage with ⟨after, outcome⟩
    cases outcome with
    | some success =>
        intro found
        cases found
    | none =>
        intro _
        refine ⟨after, rfl, ?_⟩
        simp only
        split <;> rfl
  obtain ⟨after, standing, polled⟩ := shape
  rw [polled]
  cases stage with
  | awaiting time result =>
      unfold stageAt at standing
      simp only at standing
      split at standing
      · cases standing
        refine .inr (lt_min early ?_)
        omega
      · cases result with
        | error failure => cases standing
        | ok reply => exact (readBody_progress early standing).imp_left Nat.lt_succ_of_lt
  | reading status source received => exact readBody_progress early standing

theorem exists_ends (probe : Probe) (now : Nat) :
    ∃ time success, probe.Ends now time success := by
  cases found : (probe.poll now).2 with
  | some success => exact ⟨now, success, .done probe now success found⟩
  | none =>
      obtain ⟨earlier, deadline, -⟩ := poll_of_none found
      rw [← deadline] at earlier
      have later := le_due earlier.le
      have progress := poll_progress (deadline ▸ earlier) found
      obtain ⟨time, success, ends⟩ :=
        exists_ends (probe.poll now).1 ((probe.poll now).1.due now)
      exact ⟨time, success, .waits probe now _ time success found later le_rfl ends⟩
termination_by (probe.deadline - now, left probe.stage)
decreasing_by
  rw [Prod.lex_def]
  simp only
  omega

end Probe

/-! ## Probes that are over -/

structure Finding where
  time : Nat
  success : Bool
  deriving DecidableEq, Repr

structure Check where
  sent : Nat
  answer : Answer
  found : Finding

/-- The upstream says within the timeout, and with a status of success, that it is alive. -/
def SaysOk (sent timeout : Nat) (answer : Answer) : Prop :=
  ∃ reply, answer.result = .ok reply ∧ 200 ≤ reply.status ∧ reply.status < 300 ∧
    reply.body.bytes = Bytes.ofText "ok" ∧
    Source.EndsBy (sent + timeout) (sent + answer.delay) reply.body.items

namespace Check

variable {upstream : Upstream} {timeout : Nat} {check : Check}

inductive Completes (upstream : Upstream) (timeout : Nat) : Check → Prop
  | unsent (time : Nat) (answer : Answer) (error : ConfigError)
      (unsendable : probeRequest upstream = .error error) :
      Completes upstream timeout ⟨time, answer, ⟨time, false⟩⟩
  | sent (sent : Nat) (answer : Answer) (found : Finding) (request : Outgoing)
      (sendable : probeRequest upstream = .ok request)
      (ends : (Probe.start sent timeout answer).Ends sent found.time found.success) :
      Completes upstream timeout ⟨sent, answer, found⟩

theorem passes_start (sent timeout : Nat) (answer : Answer) :
    (Probe.start sent timeout answer).Passes sent ↔ SaysOk sent timeout answer := by
  have arrival : max sent (sent + answer.delay) = sent + answer.delay := by omega
  unfold Probe.Passes Probe.start SaysOk
  simp only [arrival, isSuccess, livenessBody, Bool.and_eq_true, decide_eq_true_eq, and_assoc]

theorem Completes.success_iff (completes : check.Completes upstream timeout) :
    check.found.success = true ↔
      (∃ request, probeRequest upstream = .ok request) ∧
        SaysOk check.sent timeout check.answer := by
  cases completes with
  | unsent time answer error unsendable => simp [unsendable]
  | sent sent answer found request sendable ends =>
      rw [(ends.success_iff (Nat.le_add_right _ _)).2.2, passes_start]
      simp [sendable]

theorem exists_completes (upstream : Upstream) (timeout sent : Nat) (answer : Answer) :
    ∃ found, (Check.mk sent answer found).Completes upstream timeout := by
  cases sendable : probeRequest upstream with
  | error error => exact ⟨⟨sent, false⟩, .unsent sent answer error sendable⟩
  | ok request =>
      obtain ⟨time, success, ends⟩ := (Probe.start sent timeout answer).exists_ends sent
      exact ⟨⟨time, success⟩, .sent sent answer ⟨time, success⟩ request sendable ends⟩

end Check

/-! ## What is made of them -/

/-- How often a success was followed at once by a failure. -/
def losses : List Finding → Nat
  | first :: second :: rest =>
      (if first.success && !second.success then 1 else 0) + losses (second :: rest)
  | _ => 0

/-- When the probes last turned: at the latest success if it is the latest probe, at the first
failure after it otherwise, and at the beginning if there was none. -/
inductive Turned (begun : Nat) : List Finding → Nat → Prop
  | never (past : List Finding) (failed : ∀ finding ∈ past, finding.success = false) :
      Turned begun past begun
  | gained (before : List Finding) (time : Nat) : Turned begun (before ++ [⟨time, true⟩]) time
  | lost (before : List Finding) (held time : Nat) (rest : List Finding)
      (failed : ∀ finding ∈ rest, finding.success = false) :
      Turned begun (before ++ ⟨held, true⟩ :: ⟨time, false⟩ :: rest) time

def endsWell (past : List Finding) : Bool := (past.getLast?.map Finding.success).getD false

theorem endsWell_concat (past : List Finding) (finding : Finding) :
    endsWell (past ++ [finding]) = finding.success := by
  simp [endsWell]

theorem exists_concat_of_endsWell {past : List Finding} (well : endsWell past = true) :
    ∃ before time, past = before ++ [⟨time, true⟩] := by
  induction past using List.reverseRecOn with
  | nil => cases well
  | append_singleton before finding ih =>
      rw [endsWell_concat] at well
      exact ⟨before, finding.time, by rw [← well]⟩

theorem losses_concat (past : List Finding) (finding : Finding) :
    losses (past ++ [finding]) =
      losses past + if endsWell past && !finding.success then 1 else 0 := by
  induction past with
  | nil => rfl
  | cons first rest ih =>
      cases rest with
      | nil => simp [losses, endsWell]
      | cons second rest =>
          have well : endsWell (first :: second :: rest) = endsWell (second :: rest) := by
            simp [endsWell, List.getLast?_cons_cons]
          simp only [List.cons_append] at ih
          simp only [List.cons_append, losses, ih, well]
          omega

theorem Turned.spent {begun last : Nat} {past : List Finding} (turned : Turned begun past last)
    (unwell : endsWell past = false) (now : Nat) :
    Turned begun (past ++ [⟨now, false⟩]) last := by
  cases turned with
  | never _ failed =>
      refine .never _ ?_
      simpa [or_imp, forall_and] using failed
  | gained before =>
      rw [endsWell_concat] at unwell
      cases unwell
  | lost before held time rest failed =>
      rw [List.append_assoc]
      refine .lost before held last (rest ++ [⟨now, false⟩]) ?_
      simpa [or_imp, forall_and] using failed

/-- The health tells the probes of the past. -/
structure Health.Follows (health : Health) (begun : Nat) (past : List Finding) : Prop where
  isHealthy : health.isHealthy = endsWell past
  transitions : health.unhealthyTransitions = UInt64.ofNat (losses past)
  turned : Turned begun past health.lastTransition

theorem Health.follows_start (now : Nat) : (Health.start now).Follows now [] :=
  ⟨rfl, rfl, .never [] (by simp)⟩

theorem Health.Follows.record {health : Health} {begun : Nat} {past : List Finding}
    (follows : health.Follows begun past) (now : Nat) (success : Bool) :
    (health.record now success).Follows begun (past ++ [⟨now, success⟩]) := by
  obtain ⟨isHealthy, transitions, turned⟩ := follows
  cases success with
  | true =>
      constructor
      · rw [endsWell_concat]
        rfl
      · rw [losses_concat]
        simpa [Health.record] using transitions
      · exact .gained past now
  | false =>
      cases well : endsWell past with
      | true =>
          obtain ⟨before, held, rfl⟩ := exists_concat_of_endsWell well
          rw [well] at isHealthy
          constructor
          · rw [endsWell_concat]
            simp [Health.record, isHealthy]
          · rw [losses_concat, well]
            simp [Health.record, isHealthy, transitions]
          · rw [List.append_assoc]
            simpa [Health.record, isHealthy] using Turned.lost before held now [] (by simp)
      | false =>
          rw [well] at isHealthy
          have same : health.record now false = health := by simp [Health.record, isHealthy]
          rw [same]
          constructor
          · rw [isHealthy, endsWell_concat]
          · simp [losses_concat, well, transitions]
          · exact turned.spent well now

/-! ## Runs -/

namespace Engine

def findings (engine : Engine) : List Event → List Finding
  | [] => []
  | .probed success :: rest =>
      ⟨engine.now, success⟩ :: (engine.step (.probed success)).findings rest
  | event :: rest => (engine.step event).findings rest

theorem findings_append (engine : Engine) (events more : List Event) :
    engine.findings (events ++ more) =
      engine.findings events ++ (engine.run events).findings more := by
  induction events generalizing engine with
  | nil => rfl
  | cons event rest ih => cases event <;> simp [findings, ih, run]

theorem step_follows {engine : Engine} {begun : Nat} {past : List Finding}
    (follows : engine.health.Follows begun past) (event : Event) :
    (engine.step event).health.Follows begun (past ++ engine.findings [event]) := by
  have kept := congrArg Surroundings.health (step_surroundings engine event)
  cases event with
  | probed success => exact follows.record engine.now success
  | _ =>
      replace kept : (engine.step _).health = engine.health := kept
      rw [kept]
      simpa [findings] using follows

theorem run_follows (settings : Settings) (store : CountedStore) (now : Nat)
    (events : List Event) :
    ((start settings store now).run events).health.Follows now
      ((start settings store now).findings events) := by
  induction events using List.reverseRecOn with
  | nil => exact Health.follows_start now
  | append_singleton events event ih =>
      rw [run_concat, findings_append]
      exact step_follows ih event

/-- In every run the health tells the probes that are over, and each of these has been a success
just if the upstream has said in time that it is alive. -/
theorem run_tellsProbes (settings : Settings) (store : CountedStore) (now : Nat)
    (events : List Event) (checks : List Check)
    (completed : ∀ check ∈ checks, check.Completes settings.upstream settings.healthTimeout)
    (recorded : (start settings store now).findings events = checks.map Check.found) :
    ((start settings store now).run events).health.Follows now (checks.map Check.found) ∧
      ∀ check ∈ checks, check.found.success = true ↔
        (∃ request, probeRequest settings.upstream = .ok request) ∧
          SaysOk check.sent settings.healthTimeout check.answer := by
  constructor
  · rw [← recorded]
    exact run_follows settings store now events
  · intro check among
    exact (completed check among).success_iff

/-! ### An upstream that comes and goes -/

def promptCheck : Check where
  sent := 0
  answer :=
    let body : List Item := [.chunk (Bytes.ofText "o"), .delay 5, .chunk (Bytes.ofText "k")]
    ⟨10, .ok ⟨200, [], ⟨body⟩⟩⟩
  found := ⟨15, true⟩

def refusedCheck : Check where
  sent := 10015
  answer := ⟨0, .ok ⟨500, [], Source.ofBytes (Bytes.ofText "ok")⟩⟩
  found := ⟨10015, false⟩

def stalledCheck : Check where
  sent := 20015
  answer := ⟨0, .ok ⟨200, [], ⟨[.chunk (Bytes.ofText "ok"), .silence]⟩⟩⟩
  found := ⟨23015, false⟩

theorem probeRequest_clusterServer : probeRequest clusterServer = .ok (sentTo ["livez"]) := by
  rfl

theorem run_tellsProbes_outage :
    let settings := Settings.default clusterServer
    let begin := start settings .inMemory 0
    let events : List Event :=
      [.pass 15, .probed true, .pass 10015, .probed false, .pass 23015, .probed false]
    let checks := [promptCheck, refusedCheck, stalledCheck]
    (∀ check ∈ checks, check.Completes settings.upstream settings.healthTimeout) ∧
      begin.findings events = checks.map Check.found ∧
      (begin.run events).health = ⟨false, 10015, 1⟩ ∧
      (begin.run events).health.Follows 0 (checks.map Check.found) ∧
      ∀ check ∈ checks, check.found.success = true ↔
        (∃ request, probeRequest settings.upstream = .ok request) ∧
          SaysOk check.sent settings.healthTimeout check.answer := by
  intro settings begin events checks
  have prompt : promptCheck.Completes settings.upstream settings.healthTimeout := by
    refine .sent _ _ _ _ probeRequest_clusterServer ?_
    refine .waits _ 0 10 15 true rfl (by decide) (by decide) ?_
    refine .waits _ 10 15 15 true rfl (by decide) (by decide) ?_
    exact .done _ 15 true (by decide +kernel)
  have refused : refusedCheck.Completes settings.upstream settings.healthTimeout := by
    refine .sent _ _ _ _ probeRequest_clusterServer ?_
    exact .done _ 10015 false (by decide +kernel)
  have stalled : stalledCheck.Completes settings.upstream settings.healthTimeout := by
    refine .sent _ _ _ _ probeRequest_clusterServer ?_
    refine .waits _ 20015 23015 23015 false rfl (by decide) (by decide) ?_
    exact .done _ 23015 false (by decide +kernel)
  have completed : ∀ check ∈ checks,
      check.Completes settings.upstream settings.healthTimeout := by
    intro check among
    simp only [checks, List.mem_cons, List.not_mem_nil, or_false] at among
    rcases among with rfl | rfl | rfl
    · exact prompt
    · exact refused
    · exact stalled
  have recorded : begin.findings events = checks.map Check.found := by decide +kernel
  have told := run_tellsProbes settings .inMemory 0 events checks completed recorded
  exact ⟨completed, recorded, by decide +kernel, told⟩

end Engine

end Outpost.Proxy
