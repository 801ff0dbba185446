import Mathlib.Data.List.Induction
import Outpost.Proofs.Proxy.Gates

/-!
# Single flight

However the requests for a volatile entry and their caching tasks come in between each other, at
most one of them populates the entry through its gate, a request is sent upstream only after a
second look that found nothing, and none is sent whose first look comes after the entry.
-/

namespace Outpost.Proxy

open Api Cache Coding Config Http Store Outpost.Stream

namespace Engine

/-- A request that holds a gate of its key has been sent, or is about to be, and neither was its
reply passed on nor has its caching task ended. -/
inductive Populates (engine : Engine) (key : Key) (gate id : Nat) : Prop where
  | sends (exchange : Exchange) (relation : Relation)
      (found : engine.exchange? id = some exchange) (asks : AsksFor exchange.request key)
      (gated : exchange.gate = some gate)
      (sent : exchange.phase.relation? = some relation)
  | stores (task : CachingTask) (found : engine.task? id = some task) (stored : task.key = key)
      (gated : task.gate = some gate)

/-- In a run, the exchange once made a step out of such a state, which may depend on the events
before. -/
def StepsFrom (start : Engine) (id : Nat) (state : List Event → Exchange → Prop)
    (events : List Event) : Prop :=
  ∃ before after exchange, events = before ++ .advance id :: after ∧
    (start.run before).exchange? id = some exchange ∧ state before exchange

def Queued (start : Engine) (id : Nat) (key : Key) (deadline : Nat) : List Event → Prop :=
  start.StepsFrom id fun before exchange =>
    exchange.phase = .approaching key ∧
      deadline = (start.run before).now + (start.run before).populateWait

def TimedOut (start : Engine) (id : Nat) (key : Key) : List Event → Prop :=
  start.StepsFrom id fun before exchange =>
    ∃ gate deadline, exchange.phase = .waiting key gate deadline ∧
      (start.run before).lines.isHeld gate id = false ∧
      deadline ≤ (start.run before).now ∧ start.Queued id key deadline before

/-- It looked again and found nothing, while it held its gate or after it had waited in vain. -/
def Rechecked (start : Engine) (id : Nat) (key : Key) : List Event → Prop :=
  start.StepsFrom id fun before exchange =>
    exchange.phase = .secondLook key ∧ (start.run before).tiers.volatile? key = none ∧
      ((∃ gate, exchange.gate = some gate ∧ (start.run before).lines.isHeld gate id = true) ∨
        start.TimedOut id key before)

def BeforeFirstLook (engine : Engine) (id : Nat) : Prop :=
  ∀ exchange, engine.exchange? id = some exchange →
    exchange.phase = .arrived ∨ ∃ key, exchange.phase = .firstLook key

structure SingleFlight (start : Engine) : Prop where
  held : ∀ events key gate id, (start.run events).Populates key gate id →
    (start.run events).lines.isHeld gate id = true
  current : ∀ events key gate id, (start.run events).Populates key gate id →
    (start.run events).tiers.volatile? key = none →
    (start.run events).tiers.openGate? key = some gate
  alone : ∀ events key gate id otherGate other, (start.run events).Populates key gate id →
    (start.run events).Populates key otherGate other → id = other
  rechecked : ∀ events id exchange key relation,
    (start.run events).exchange? id = some exchange → AsksFor exchange.request key →
    exchange.phase.relation? = some relation → start.Rechecked id key events
  spared : ∀ before after id exchange key payload,
    (start.run before).tiers.volatile? key = some payload →
    (start.run before).BeforeFirstLook id →
    (start.run (before ++ after)).exchange? id = some exchange → AsksFor exchange.request key →
    exchange.phase.relation? = none

/-! ## Who populates has been let in -/

section Populating

variable {engine : Engine} {key : Key} {gate id : Nat}

theorem Populates.stand (populates : engine.Populates key gate id) (h : engine.WellFormed) :
    engine.stand? id = some ⟨key, gate, true⟩ := by
  cases populates with
  | sends exchange relation found asks gated sent =>
      have unanswered : exchange.phase.isResponded = false := by
        cases hphase : exchange.phase <;> rw [hphase] at sent <;> first | rfl | cases sent
      have inside : exchange.phase.isWaiting = false := by
        cases hphase : exchange.phase <;> rw [hphase] at sent <;> first | rfl | cases sent
      have wellFormed := (h id).exchange exchange found
      rw [stand?_unanswered (h id) found unanswered,
        Exchange.stand?_gated gated (wellFormed.info ▸ asks.asked), inside]
      rfl
  | stores task found stored gated =>
      rw [stand?_of_task (h id) found]
      unfold CachingTask.stand?
      rw [gated, stored]
      rfl

end Populating

/-! ## What an exchange has been through -/

section History

variable {start : Engine} {events : List Event} {id : Nat}

theorem run_append (engine : Engine) (before after : List Event) :
    engine.run (before ++ after) = (engine.run before).run after := List.foldl_append

theorem StepsFrom.more {state : List Event → Exchange → Prop}
    (h : start.StepsFrom id state events) (more : List Event) :
    start.StepsFrom id state (events ++ more) := by
  obtain ⟨before, after, exchange, rfl, found, holds⟩ := h
  exact ⟨before, after ++ more, exchange, by simp, found, holds⟩

theorem StepsFrom.now {state : List Event → Exchange → Prop} {exchange : Exchange}
    (found : (start.run events).exchange? id = some exchange) (holds : state events exchange) :
    start.StepsFrom id state (events ++ [.advance id]) :=
  ⟨events, [], exchange, rfl, found, holds⟩

/-- What the phase of an exchange tells of the run so far. -/
structure Informed (start : Engine) (events : List Event) (id : Nat) (exchange : Exchange) :
    Prop where
  queued : ∀ key gate deadline, exchange.phase = .waiting key gate deadline →
    start.Queued id key deadline events
  late : ∀ key, exchange.phase = .secondLook key → exchange.gate = none →
    start.TimedOut id key events ∨ ∃ payload, (start.run events).tiers.volatile? key = some payload
  rechecked : ∀ key relation, AsksFor exchange.request key →
    exchange.phase.relation? = some relation → start.Rechecked id key events

theorem Informed.quiet {exchange : Exchange} (waiting : exchange.phase.isWaiting = false)
    (looking : ∀ key, exchange.phase ≠ .secondLook key)
    (unsent : exchange.phase.relation? = none) : start.Informed events id exchange where
  queued key gate deadline hphase := by
    rw [hphase] at waiting
    cases waiting
  late key hphase := absurd hphase (looking key)
  rechecked key relation _ hrelation := by cases unsent.symm.trans hrelation

theorem Informed.ofSent {exchange : Exchange} (sent : exchange.phase.relation?.isSome)
    (rechecked : ∀ key, AsksFor exchange.request key → start.Rechecked id key events) :
    start.Informed events id exchange where
  queued key gate deadline hphase := by
    rw [hphase] at sent
    cases sent
  late key hphase := by
    rw [hphase] at sent
    cases sent
  rechecked key _ asks _ := rechecked key asks

theorem Informed.more {exchange : Exchange} (h : start.Informed events id exchange)
    (wellFormed : (start.run events).WellFormed) (event : Event) :
    start.Informed (events ++ [event]) id exchange where
  queued key gate deadline hphase := (h.queued key gate deadline hphase).more [event]
  late key hphase ungated := by
    refine (h.late key hphase ungated).imp (fun late => late.more [event]) ?_
    rintro ⟨payload, present⟩
    rw [run_append]
    exact ⟨payload, run_volatile? wellFormed present [event]⟩
  rechecked key relation asks sent := (h.rechecked key relation asks sent).more [event]

theorem Informed.recheck {exchange : Exchange} (h : start.Informed events id exchange)
    (wellFormed : (start.run events).WellFormed) (orderly : (start.run events).Orderly)
    (found : (start.run events).exchange? id = some exchange) {key other : Key}
    (looking : exchange.phase = .secondLook key)
    (absent : (start.run events).tiers.volatile? key = none)
    (asks : AsksFor exchange.request other) :
    start.Rechecked id other (events ++ [.advance id]) := by
  have exchangeFormed := (wellFormed id).exchange exchange found
  have same : other = key := asks.unique (exchangeFormed.looks key (by rw [looking]; rfl))
  subst same
  refine .now found ⟨looking, absent, ?_⟩
  cases hgate : exchange.gate with
  | none =>
      rcases h.late other looking hgate with late | ⟨payload, present⟩
      · exact .inr late
      · cases absent.symm.trans present
  | some gate =>
      have unanswered : exchange.phase.isResponded = false := by rw [looking]; rfl
      have stood := (stand?_unanswered (wellFormed id) found unanswered).trans
        (Exchange.stand?_gated hgate (exchangeFormed.info ▸ asks.asked))
      exact .inl ⟨gate, rfl, orderly.inside id _ stood (by rw [looking]; rfl)⟩

theorem Informed.turn {exchange : Exchange} (h : start.Informed events id exchange)
    (wellFormed : (start.run events).WellFormed) (orderly : (start.run events).Orderly)
    (found : (start.run events).exchange? id = some exchange) {phase : Phase}
    {store : CountedStore} (dev : (start.run events).handler = .dev)
    (turns : Turns (start.run events) exchange phase store) :
    start.Informed (events ++ [.advance id]) id { exchange with phase } := by
  have exchangeFormed := (wellFormed id).exchange exchange found
  cases turns with
  | relay arrived sample => cases sample.symm.trans dev
  | upgrade arrived dev healthy upgrade =>
      refine .ofSent rfl fun key asks => ?_
      cases upgrade.symm.trans asks.plain
  | send arrived dev healthy plain other =>
      refine .ofSent rfl fun key asks => ?_
      have asked : Key.ofRequest? exchange.info = some key := exchangeFormed.info ▸ asks.asked
      exact absurd (exchangeFormed.info ▸ asks.volatile) (other key asked)
  | ungated key approaching closed =>
      refine ⟨nofun, ?_, fun _ _ _ h => by cases h⟩
      rintro other ⟨⟩ ungated
      obtain ⟨payload, present⟩ :=
        Option.isSome_iff_exists.mp (Tiers.gate?_snd_eq_none_iff.mp closed)
      rw [run_append]
      exact .inr ⟨payload, run_volatile? wellFormed present [.advance id]⟩
  | admitted key gate deadline waiting held =>
      refine ⟨nofun, ?_, fun _ _ _ h => by cases h⟩
      rintro other ⟨⟩ ungated
      cases (exchangeFormed.waits key gate deadline waiting).symm.trans ungated
  | missAgain key looking absent =>
      refine .ofSent rfl fun other asks => ?_
      exact h.recheck wellFormed orderly found looking absent asks
  | sent relation request sending sendable =>
      refine .ofSent rfl fun key asks => ?_
      exact (h.rechecked key relation asks (by rw [sending]; rfl)).more _
  | _ => exact .quiet rfl nofun rfl

theorem Move.informed {event : Event} {slot : Slot} {shared : Shared}
    (move : Move (start.run events) id event slot shared)
    (wellFormed : (start.run events).WellFormed) (orderly : (start.run events).Orderly)
    (dev : (start.run events).handler = .dev)
    (h : ∀ exchange, (start.run events).exchange? id = some exchange →
      start.Informed events id exchange)
    {after : Exchange} (hafter : slot.exchange = some after) :
    start.Informed (events ++ [event]) id after := by
  cases move with
  | arrive request fresh =>
      have empty := (wellFormed id).fresh (Nat.le_of_eq fresh.symm)
      have absent : (start.run events).exchange? id = none := congrArg Slot.exchange empty
      rw [absent] at hafter
      cases hafter
      exact .quiet rfl nofun rfl
  | turn exchange phase store found turns =>
      cases hafter
      exact (h exchange found).turn wellFormed orderly found dev turns
  | join exchange key tiers gate found approaching opened =>
      cases hafter
      refine ⟨?_, nofun, fun _ _ _ h => by cases h⟩
      rintro _ _ _ ⟨⟩
      exact .now found ⟨approaching, rfl⟩
  | giveUp exchange key gate deadline found waiting unheld late =>
      cases hafter
      refine ⟨nofun, ?_, fun _ _ _ h => by cases h⟩
      rintro _ ⟨⟩ _
      exact .inl (.now found
        ⟨gate, deadline, waiting, unheld, late,
          (h exchange found).queued key gate deadline waiting⟩)
  | readCopy exchange response tee found responded copied =>
      exact (h after hafter).more wellFormed _
  | abandon exchange found unanswered => cases hafter
  | work task later tee shared found works => exact (h after hafter).more wellFormed _
  | _ =>
      cases hafter
      exact .quiet rfl nofun rfl

theorem run_handler (start : Engine) (events : List Event) :
    (start.run events).handler = start.handler := by
  induction events generalizing start with
  | nil => rfl
  | cons event rest ih =>
      refine (ih (start.step event)).trans ?_
      rcases step_moved start event with unmoved | ⟨moved, hmoved⟩
      · exact congrArg Frame.handler unmoved.frame
      · refine (congrArg Frame.handler hmoved.frame).trans ?_
        cases event <;> rfl

theorem run_informed (settings : Settings) (dev : settings.handler = .dev) (store : CountedStore)
    (now : Nat) (events : List Event) :
    ∀ id exchange, ((Engine.start settings store now).run events).exchange? id = some exchange →
      (Engine.start settings store now).Informed events id exchange := by
  induction events using List.reverseRecOn with
  | nil => exact fun id exchange found => by cases found
  | append_singleton before event ih =>
      intro id exchange found
      have wellFormed := run_wellFormed (start_wellFormed settings store now) before
      have orderly := run_orderly (start_wellFormed settings store now)
        (start_orderly settings store now) before
      have handler := (run_handler (Engine.start settings store now) before).trans dev
      rw [run_append] at found
      rcases step_slot_cases ((Engine.start settings store now).run before) event id with
        same | move
      · have kept := congrArg Slot.exchange same
        exact (ih id exchange (kept.symm.trans found)).more wellFormed event
      · exact move.informed wellFormed orderly handler (ih id) found

end History

/-! ## After the entry has come -/

section Spared

/-- An exchange that has not been sent, and will not be if its key has an entry. -/
def KeptBack (phase : Phase) : Prop :=
  phase = .arrived ∨ (∃ key, phase = .firstLook key) ∨ phase.isResponded = true

theorem KeptBack.relation? {phase : Phase} (h : KeptBack phase) : phase.relation? = none := by
  rcases h with rfl | ⟨key, rfl⟩ | responded
  · rfl
  · rfl
  · cases phase <;> first | rfl | cases responded

theorem KeptBack.early {phase : Phase} (h : KeptBack phase) :
    match phase with
    | .arrived | .firstLook _ | .responded _ _ => True
    | _ => False := by
  rcases h with rfl | ⟨key, rfl⟩ | responded
  · trivial
  · trivial
  · cases phase <;> trivial

def Spares (engine : Engine) (id : Nat) (key : Key) : Prop :=
  ∀ exchange, engine.exchange? id = some exchange → AsksFor exchange.request key →
    KeptBack exchange.phase

variable {engine : Engine} {id : Nat} {key : Key} {payload : Bytes}

theorem Turns.keptBack {exchange : Exchange} {phase : Phase} {store : CountedStore}
    (turns : Turns engine exchange phase store) (wellFormed : exchange.WellFormed engine.handler)
    (dev : engine.handler = .dev) (present : engine.tiers.volatile? key = some payload)
    (asks : AsksFor exchange.request key) (before : KeptBack exchange.phase) :
    KeptBack phase := by
  cases turns with
  | relay arrived sample => cases sample.symm.trans dev
  | upgrade arrived dev healthy upgrade => cases upgrade.symm.trans asks.plain
  | look other arrived dev healthy plain asked volatile => exact .inr (.inl ⟨other, rfl⟩)
  | send arrived dev healthy plain other =>
      have asked : Key.ofRequest? exchange.info = some key := wellFormed.info ▸ asks.asked
      exact absurd (wellFormed.info ▸ asks.volatile) (other key asked)
  | fallBack arrived dev unhealthy => exact .inr (.inr rfl)
  | miss other looking absent =>
      have same : key = other := asks.unique (wellFormed.looks other (by rw [looking]; rfl))
      rw [← same] at absent
      cases absent.symm.trans present
  | _ =>
      rcases before with before | ⟨other, before⟩ | before <;> simp_all [Phase.isResponded]

theorem Move.spares {event : Event} {slot : Slot} {shared : Shared}
    (move : Move engine id event slot shared)
    (wellFormed : (engine.slot id).WellFormed engine.frame id) (dev : engine.handler = .dev)
    (present : engine.tiers.volatile? key = some payload) (h : engine.Spares id key)
    {after : Exchange} (hafter : slot.exchange = some after) (asks : AsksFor after.request key) :
    KeptBack after.phase := by
  cases move with
  | arrive request fresh =>
      have absent : engine.exchange? id = none :=
        congrArg Slot.exchange (wellFormed.fresh (Nat.le_of_eq fresh.symm))
      rw [absent] at hafter
      cases hafter
      exact .inl rfl
  | turn exchange phase store found turns =>
      cases hafter
      exact turns.keptBack (wellFormed.exchange exchange found) dev present asks
        (h exchange found asks)
  | join exchange other tiers gate found approaching opened =>
      cases hafter
      have before := h exchange found asks
      rw [approaching] at before
      exact before.early.elim
  | giveUp exchange other gate deadline found waiting unheld late =>
      cases hafter
      have before := h exchange found asks
      rw [waiting] at before
      exact before.early.elim
  | filter exchange kind request reply found awaiting filter =>
      cases hafter
      have before := h exchange found asks
      rw [awaiting] at before
      exact before.early.elim
  | readCopy exchange response tee found responded copied => exact h after hafter asks
  | abandon exchange found unanswered => cases hafter
  | work task later tee shared found works => exact h after hafter asks
  | _ =>
      cases hafter
      exact .inr (.inr rfl)

theorem run_spares (wellFormed : engine.WellFormed) (dev : engine.handler = .dev)
    (present : engine.tiers.volatile? key = some payload) (h : engine.Spares id key)
    (events : List Event) : (engine.run events).Spares id key := by
  induction events generalizing engine with
  | nil => exact h
  | cons event rest ih =>
      refine ih (step_wellFormed wellFormed event) ((run_handler engine [event]).trans dev)
        (step_volatile? wellFormed present event) fun after hafter asks => ?_
      rcases step_slot_cases engine event id with same | move
      · have kept := congrArg Slot.exchange same
        exact h after (kept.symm.trans hafter) asks
      · exact move.spares (wellFormed id) dev present h hafter asks

end Spared

/-! ## Single flight -/

theorem start_singleFlight (settings : Settings) (dev : settings.handler = .dev)
    (store : CountedStore) (now : Nat) : (start settings store now).SingleFlight := by
  have wellFormed := run_wellFormed (start_wellFormed settings store now)
  have orderly := run_orderly (start_wellFormed settings store now)
    (start_orderly settings store now)
  exact {
    held := fun events key gate id populates =>
      (orderly events).inside id _ (populates.stand (wellFormed events)) rfl
    current := fun events key gate id populates missing =>
      (orderly events).opened id _ (populates.stand (wellFormed events)) missing
    alone := fun events key gate id otherGate other first second =>
      (orderly events).unique (first.stand (wellFormed events)) (second.stand (wellFormed events))
        rfl rfl rfl
    rechecked := fun events id exchange key relation found asks sent =>
      (run_informed settings dev store now events id exchange found).rechecked key relation asks
        sent
    spared := by
      intro before after id exchange key payload present early found asks
      have handler := (run_handler (start settings store now) before).trans dev
      have spares : ((start settings store now).run before).Spares id key :=
        fun exchange found _ => (early exchange found).imp_right .inl
      rw [run_append] at found
      exact (run_spares (wellFormed before) handler present spares after exchange found
        asks).relation? }

/-- Of two requests for one list, the first is about to be sent while the second one waits. -/
theorem start_singleFlight_pods :
    let request : Request := {
      method := "GET"
      target := ⟨"/api/v1/pods", some "labelSelector=type%3Dresourceusage",
        some "/api/v1/pods?labelSelector=type%3Dresourceusage"⟩
      headers := [], body := [] }
    let key : Key := ⟨.pods, "", .resourceUsage⟩
    let settings := Settings.default default
    let engine := (start settings .inMemory 0).run [.probed true,
      .arrive request, .arrive request, .advance 1, .advance 0, .advance 0, .advance 0,
      .advance 1, .advance 0, .advance 1, .advance 0]
    settings.handler = .dev ∧ engine.Populates key 0 0 ∧
      (start settings .inMemory 0).SingleFlight := by
  intro request key settings engine
  have state : ((engine.exchange? 0).any fun exchange =>
      !isUpgrade exchange.request.headers &&
        Key.ofRequest? (RequestInfo.classify exchange.request.method exchange.request.target) ==
          some key &&
        (RequestInfo.classify exchange.request.method exchange.request.target).policy ==
          .volatile &&
        exchange.gate == some 0 && exchange.phase.relation? == some .treated) = true := by
    decide +kernel
  obtain ⟨exchange, found, facts⟩ := (Option.any_eq_true _ _).mp state
  simp only [Bool.and_eq_true, Bool.not_eq_true', beq_iff_eq] at facts
  obtain ⟨⟨⟨⟨plain, asked⟩, volatile⟩, gated⟩, sent⟩ := facts
  exact ⟨rfl, .sends exchange .treated found ⟨plain, asked, volatile⟩ gated sent,
    start_singleFlight settings rfl .inMemory 0⟩

end Engine

end Outpost.Proxy
