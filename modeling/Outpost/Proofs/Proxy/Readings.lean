import Outpost.Proofs.Proxy.Sightings

/-!
# Reading to the end

Events of its own take an exchange to its answer, and then to the end of the body: the client polls
whenever the body is due, and the caching task makes room for what comes.
-/

namespace Outpost.Proxy

open Api Cache Coding Config Http Store Outpost.Stream

def Phase.isReplied : Phase → Bool
  | .filtering _ _ _ _ | .responded _ _ => true
  | _ => false

namespace Engine

/-! ## Up to the answer -/

section Answers

variable {engine : Engine} {id : Nat} {exchange : Exchange} {request : Request}
  {result : Except TransportFailure Reply}

theorem Leads.mono {goal further : Engine → Prop} (h : engine.Leads id result goal)
    (next : ∀ after : Engine, goal after → further after) : engine.Leads id result further :=
  h.trans fun after reached => .here (next after reached)

theorem Settled.left (h : Settled id request engine) :
    Stands id request (·.isUnsent = false) engine := by
  cases h with
  | sent h =>
      obtain ⟨exchange, found, same, sent⟩ := h
      refine ⟨exchange, found, same, ?_⟩
      cases hphase : exchange.phase <;> simp_all [Phase.outgoing?, Phase.isUnsent]
  | refused _ _ h | hit _ _ _ _ h =>
      obtain ⟨exchange, found, same, responded⟩ := h
      refine ⟨exchange, found, same, ?_⟩
      cases hphase : exchange.phase <;> simp_all [Phase.isResponded, Phase.isUnsent]

theorem leads_of_unsent (wellFormed : exchange.WellFormed engine.handler)
    (found : engine.exchange? id = some exchange) (unsent : exchange.phase.isUnsent = true)
    (healthy : exchange.phase = .arrived → engine.handler = .dev → engine.health.isHealthy = true) :
    engine.Leads id result (Stands id exchange.request (·.isUnsent = false)) := by
  have looks := wellFormed.looks
  suffices settles : engine.Leads id result (Settled id exchange.request) from
    settles.mono fun after settled => settled.left
  cases hphase : exchange.phase with
  | arrived =>
      cases handler : engine.handler with
      | sample =>
          refine .step (.advance id) rfl ?_
          rw [step_relay found hphase handler]
          exact leads_of_sending (stands_setPhase found rfl rfl)
      | dev => exact leads_of_arrived handler (healthy hphase handler) found hphase wellFormed.info
  | firstLook key =>
      exact leads_of_firstLook (looks key (by rw [hphase]; rfl)) ⟨exchange, found, rfl, hphase⟩
  | approaching key =>
      exact leads_of_approaching (looks key (by rw [hphase]; rfl)) ⟨exchange, found, rfl, hphase⟩
  | waiting key gate deadline =>
      exact leads_of_waiting (looks key (by rw [hphase]; rfl)) ⟨exchange, found, rfl, hphase⟩
  | secondLook key =>
      exact leads_of_secondLook (looks key (by rw [hphase]; rfl)) ⟨exchange, found, rfl, hphase⟩
  | sending relation => exact leads_of_sending ⟨exchange, found, rfl, hphase⟩
  | awaiting | filtering | responded => rw [hphase] at unsent; cases unsent

theorem leads_of_awaiting (wellFormed : engine.WellFormed)
    (found : engine.exchange? id = some exchange) {relation : Relation} {out : Outgoing}
    (awaiting : exchange.phase = .awaiting relation out) :
    engine.Leads id result (Stands id exchange.request (Phase.isReplied · = true)) := by
  have answered : ∀ response, Stands id exchange.request (Phase.isReplied · = true)
      (engine.conclude exchange response) := by
    intro response
    obtain ⟨other, hother, same, responded⟩ := stands_conclude found rfl response
    refine ⟨other, hother, same, ?_⟩
    cases hphase : other.phase <;> simp_all [Phase.isResponded, Phase.isReplied]
  refine .step (.answer id result) ⟨rfl, rfl⟩ (.here ?_)
  cases result with
  | error failure =>
      rw [step_fail found failure awaiting]
      exact answered _
  | ok reply =>
      cases relation with
      | relayed | upgraded =>
          simp only [step, answer, found, awaiting]
          exact answered _
      | treated =>
          rw [step_treat found reply awaiting]
          unfold treat
          simp only
          split
          · exact answered _
          · exact stands_setPhase found rfl rfl
          · rename_i key cache
            have number := id_of_exchange? found
            subst number
            have bare := (wellFormed exchange.id).bare found (by rw [awaiting]; rfl)
            have copied := slot_copyForCache key (treatedResponse exchange.info reply) reply.body
              bare
            exact ⟨_, congrArg Slot.exchange copied, rfl, rfl⟩

end Answers

/-! ## Up to the last poll -/

section Polls

variable {engine : Engine} {id : Nat} {exchange : Exchange}
  {result : Except TransportFailure Reply}

/-- One more poll of the client will bring the end of the body, if there is one. -/
inductive AtLast (id : Nat) (engine : Engine) : Prop where
  | direct (exchange : Exchange) (response : Response) (source : Source)
      (found : engine.exchange? id = some exchange)
      (responded : exchange.phase = .responded response (.direct source))
      (last : Source.pollsLeft source.items = 0)
  | copied (exchange : Exchange) (response : Response) (tee : Tee)
      (found : engine.exchange? id = some exchange)
      (responded : exchange.phase = .responded response .copied)
      (copied : engine.tee? id = some tee) (last : tee.finished = true ∨ tee.pollsLeft = 0)

theorem isDue_pass (engine : Engine) (source : Source) :
    source.IsDue (engine.step (.pass (source.wakeTime?.getD 0))).now := by
  intro time waits
  have due : source.wakeTime?.getD 0 = time := by simp [waits]
  exact due ▸ Nat.le_max_right engine.now _

theorem leads_of_direct {response : Response} {source : Source}
    (found : engine.exchange? id = some exchange)
    (responded : exchange.phase = .responded response (.direct source)) :
    engine.Leads id result (AtLast id) := by
  generalize hleft : Source.pollsLeft source.items = left
  induction left using Nat.strongRecOn generalizing engine exchange source with
  | ind left ih =>
      by_cases last : Source.pollsLeft source.items = 0
      · exact .here (.direct exchange response source found responded last)
      let due := (source.wakeTime?).getD 0
      have later : (engine.step (.pass due)).exchange? id = some exchange := found
      have isDue := isDue_pass engine source
      have polled := congrArg Prod.fst (read_direct later responded)
      refine .step (.pass due) trivial (.step (.read id) rfl ?_)
      change (engine.step (.pass due)).step (.read id) = _ at polled
      rw [polled]
      refine ih _ ?_ (exchange?_setPhase later _) rfl rfl
      rw [← hleft]
      exact Source.pollsLeft_pollItems_lt isDue last

/-- The body is copied on its way, and if the queue may hold it back, someone reads the queue. -/
structure Copies (id : Nat) (tee : Tee) (engine : Engine) : Prop where
  responded : ∃ exchange response, engine.exchange? id = some exchange ∧
    exchange.phase = .responded response .copied
  copied : engine.tee? id = some tee
  bounded : tee.Bounded
  collects : tee.receiving = true → Collects (engine.slot id)

def HasMadeRoom (id : Nat) (tee : Tee) (engine : Engine) : Prop :=
  ∃ next : Tee, Copies id next engine ∧ next.HasRoom ∧ next.finished = tee.finished ∧
    next.pollsLeft = tee.pollsLeft

section Room

variable {tee : Tee} {task : CachingTask}

theorem Copies.given (h : Copies task.exchange tee engine) (body : Except Unit Bytes) :
    HasMadeRoom task.exchange tee (engine.collected task tee.pollBackground.1 body) := by
  obtain ⟨queue, drained, shape⟩ := tee.pollBackground_eq
  have copied := congrArg Slot.tee (@slot_setTee_self engine _ _ tee.pollBackground.1.dropBackground
    h.copied)
  refine ⟨tee.pollBackground.1.dropBackground,
    ⟨h.responded, copied, h.bounded.pollBackground.dropBackground, nofun⟩, nofun, ?_, ?_⟩
  · rw [shape]
    rfl
  · rw [shape]
    rfl

theorem Copies.read {after : Engine} {next : Option CachingTask}
    (h : Copies task.exchange tee engine)
    (slot : after.slot task.exchange =
      { engine.slot task.exchange with task := next, tee := some tee.pollBackground.1 })
    (collects : Collects (after.slot task.exchange)) (room : tee.pollBackground.1.HasRoom) :
    HasMadeRoom task.exchange tee after := by
  obtain ⟨queue, drained, shape⟩ := tee.pollBackground_eq
  obtain ⟨exchange, response, found, responded⟩ := h.responded
  refine ⟨tee.pollBackground.1, ⟨⟨exchange, response, ?_, responded⟩, congrArg Slot.tee slot,
    h.bounded.pollBackground, fun _ => collects⟩, room, ?_, ?_⟩
  · exact (congrArg Slot.exchange slot).trans found
  · rw [shape]
  · rw [shape]
    rfl

end Room

theorem Copies.room {tee : Tee} (h : Copies id tee engine) :
    engine.Leads id result (HasMadeRoom id tee) := by
  by_cases receiving : tee.receiving = true
  swap
  · exact .here ⟨tee, h, fun hears => absurd hears receiving, rfl, rfl⟩
  obtain ⟨task, collector, worked, collecting⟩ := h.collects receiving
  have worked : engine.task? id = some task := worked
  have number := exchange_of_task? worked
  subst number
  refine .step (.work task.exchange) rfl (.here ?_)
  have given := h.given
  have read := @Copies.read engine tee task
  have room := h.bounded.hasRoom
  simp only [step, work, worked, collecting, h.copied]
  generalize tee.pollBackground = polled at given read room
  obtain ⟨after, poll⟩ := polled
  cases poll with
  | pending =>
      exact read h (slot_setTee_self h.copied) (collects_of_stage worked collecting)
        (room (.inl rfl))
  | ended => exact given collector.finish
  | failed error => exact given (.error ())
  | chunk bytes =>
      simp only
      split
      · rename_i body fed
        exact given body
      · rename_i grown fed
        have slot := @slot_setTask (engine.setTee task.exchange after)
          { task with stage := .collecting grown } task.exchange
        have there : (engine.setTee task.exchange after).task? task.exchange = some task := worked
        rw [slot_setTee_self h.copied, if_pos rfl, there] at slot
        exact read h slot (by rw [slot]; exact collects_of_stage rfl rfl) (room (.inr ⟨bytes, rfl⟩))

theorem leads_of_copies {tee : Tee} (h : Copies id tee engine) :
    engine.Leads id result (AtLast id) := by
  generalize hleft : tee.pollsLeft = left
  induction left using Nat.strongRecOn generalizing engine tee with
  | ind left ih =>
      by_cases last : tee.finished = true ∨ tee.pollsLeft = 0
      · obtain ⟨exchange, response, found, responded⟩ := h.responded
        exact .here (.copied exchange response tee found responded h.copied last)
      rw [not_or, Bool.not_eq_true] at last
      refine h.room.trans fun before ⟨next, copies, room, finished, same⟩ => ?_
      let due := (next.source.wakeTime?).getD 0
      have isDue := isDue_pass before next.source
      obtain ⟨exchange, response, found, responded⟩ := copies.responded
      have later : (before.step (.pass due)).exchange? id = some exchange := found
      have copied : (before.step (.pass due)).tee? id = some next := copies.copied
      refine .step (.pass due) trivial (.step (.read id) rfl ?_)
      rw [step_readCopy later responded copied]
      refine ih _ ?_ ⟨⟨exchange, response, later, responded⟩,
        congrArg Slot.tee (slot_setTee_self copied), copies.bounded.pollForeground _, ?_⟩ rfl
      · rw [← hleft, ← same]
        exact Tee.pollsLeft_pollForeground_lt (finished.trans last.1) room isDue
          (same.symm ▸ last.2)
      · intro receiving
        rw [Tee.receiving_pollForeground] at receiving
        exact copies.collects receiving

end Polls

end Engine

end Outpost.Proxy
