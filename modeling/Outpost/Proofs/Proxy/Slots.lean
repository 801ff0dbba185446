import Outpost.Proofs.Proxy.Moves
import Outpost.Proofs.Proxy.Replies

/-!
# What can stand under a number

An exchange looks at the volatile tier only for the key that it asks for, stands at a gate only on
the way from its first look to the answer, and is copied only once it is answered.  Every step
keeps this, so it holds in every state that an engine reaches.
-/

namespace Outpost.Proxy

open Api Cache Coding Config Http Store Outpost.Stream

/-! ## Phases -/

namespace Phase

def key? : Phase → Option Key
  | .firstLook key | .approaching key | .waiting key _ _ | .secondLook key => some key
  | _ => none

def relation? : Phase → Option Relation
  | .sending relation | .awaiting relation _ => some relation
  | _ => none

def mayHaveGate : Phase → Bool
  | .waiting _ _ _ | .secondLook _ | .sending .treated | .awaiting .treated _ => true
  | _ => false

def isWaiting : Phase → Bool
  | .waiting _ _ _ => true
  | _ => false

def isResponded : Phase → Bool
  | .responded _ _ => true
  | _ => false

theorem isResponded_eq_false {phase : Phase}
    (h : ∀ response delivery, phase ≠ .responded response delivery) :
    phase.isResponded = false := by
  cases phase with
  | responded response delivery => exact absurd rfl (h response delivery)
  | _ => rfl

theorem mayHaveGate_of_isResponded {phase : Phase} (h : phase.isResponded = true) :
    phase.mayHaveGate = false := by
  cases phase with
  | responded response delivery => rfl
  | _ => cases h

end Phase

/-! ## Exchanges -/

/-- A list request of the volatile policy, other than an upgrade, whose entry has this key. -/
structure AsksFor (request : Request) (key : Key) : Prop where
  plain : isUpgrade request.headers = false
  asked : Key.ofRequest? (RequestInfo.classify request.method request.target) = some key
  volatile : (RequestInfo.classify request.method request.target).policy = .volatile

theorem AsksFor.unique {request : Request} {key other : Key} (h : AsksFor request key)
    (hother : AsksFor request other) : key = other :=
  Option.some.inj (h.asked.symm.trans hother.asked)

namespace Exchange

structure WellFormed (handler : HandlerKind) (exchange : Exchange) : Prop where
  info : exchange.info = RequestInfo.classify exchange.request.method exchange.request.target
  looks : ∀ key, exchange.phase.key? = some key → AsksFor exchange.request key
  gated : ∀ gate, exchange.gate = some gate →
    exchange.phase.mayHaveGate = true ∧ ∃ key, AsksFor exchange.request key
  waits : ∀ key gate deadline, exchange.phase = .waiting key gate deadline →
    exchange.gate = some gate
  treats : ∀ relation, exchange.phase.relation? = some relation → handler = .dev →
    isUpgrade exchange.request.headers = false → relation = .treated

namespace WellFormed

variable {handler : HandlerKind} {exchange : Exchange}

theorem gate_eq_none (h : exchange.WellFormed handler)
    (hphase : exchange.phase.mayHaveGate = false) : exchange.gate = none := by
  cases hgate : exchange.gate with
  | none => rfl
  | some gate => cases hphase.symm.trans (h.gated gate hgate).1

theorem answered (h : exchange.WellFormed handler) (response : Response) (delivery : Delivery) :
    WellFormed handler
      { exchange with gate := none, phase := .responded response delivery } where
  info := h.info
  looks := nofun
  gated := nofun
  waits := nofun
  treats := nofun

theorem turned (h : exchange.WellFormed handler) (phase : Phase)
    (looks : ∀ key, phase.key? = some key → AsksFor exchange.request key)
    (gated : exchange.phase.mayHaveGate = true → phase.mayHaveGate = true)
    (waits : phase.isWaiting = false)
    (treats : ∀ relation, phase.relation? = some relation → handler = .dev →
      isUpgrade exchange.request.headers = false → relation = .treated) :
    WellFormed handler { exchange with phase } where
  info := h.info
  looks := looks
  gated gate hgate := (h.gated gate hgate).imp_left gated
  waits key gate deadline hphase := by
    have hphase : phase = .waiting key gate deadline := hphase
    rw [hphase] at waits
    cases waits
  treats := treats

end WellFormed

end Exchange

/-! ## Slots -/

namespace Slot

def IsAnswered (slot : Slot) : Prop :=
  ∃ exchange, slot.exchange = some exchange ∧ exchange.phase.isResponded = true

structure WellFormed (frame : Frame) (id : Nat) (slot : Slot) : Prop where
  fresh : frame.nextId ≤ id → slot = ⟨none, none, none⟩
  exchange : ∀ exchange, slot.exchange = some exchange → exchange.WellFormed frame.handler
  answered : slot.task.isSome ∨ slot.tee.isSome → slot.IsAnswered
  key : ∀ task exchange, slot.task = some task → slot.exchange = some exchange →
    Key.ofRequest? exchange.info = some task.key

variable {frame : Frame} {id : Nat} {slot : Slot}

theorem WellFormed.empty (frame : Frame) (id : Nat) : WellFormed frame id ⟨none, none, none⟩ where
  fresh _ := rfl
  exchange _ h := by cases h
  answered := by rintro (h | h) <;> cases h
  key _ _ h := by cases h

theorem WellFormed.bare (h : slot.WellFormed frame id) {exchange : Exchange}
    (found : slot.exchange = some exchange) (unanswered : exchange.phase.isResponded = false) :
    slot = ⟨some exchange, none, none⟩ := by
  have none_of : ¬ (slot.task.isSome ∨ slot.tee.isSome) := by
    intro present
    obtain ⟨other, hother, responded⟩ := h.answered present
    cases found.symm.trans hother
    cases unanswered.symm.trans responded
  obtain ⟨_, task, tee⟩ := slot
  cases found
  rw [not_or] at none_of
  simp only [Bool.not_eq_true, Option.isSome_eq_false_iff, Option.isNone_iff_eq_none] at none_of
  obtain ⟨rfl, rfl⟩ := none_of
  rfl

theorem WellFormed.ungated (h : slot.WellFormed frame id) {task : CachingTask}
    (found : slot.task = some task) :
    ∃ exchange, slot.exchange = some exchange ∧ exchange.phase.isResponded = true ∧
      exchange.gate = none := by
  obtain ⟨exchange, hexchange, responded⟩ :=
    h.answered (.inl (Option.isSome_iff_exists.mpr ⟨task, found⟩))
  exact ⟨exchange, hexchange, responded,
    (h.exchange exchange hexchange).gate_eq_none (Phase.mayHaveGate_of_isResponded responded)⟩

theorem WellFormed.known (h : slot.WellFormed frame id) (hslot : slot ≠ ⟨none, none, none⟩) :
    id < frame.nextId :=
  Nat.lt_of_not_le fun late => hslot (h.fresh late)

theorem WellFormed.setExchange (h : slot.WellFormed frame id) {present exchange : Exchange}
    (found : slot.exchange = some present) (wellFormed : exchange.WellFormed frame.handler)
    (answered : present.phase.isResponded = true → exchange.phase.isResponded = true)
    (info : exchange.info = present.info) :
    WellFormed frame id { slot with exchange := some exchange } where
  fresh late := by
    rw [h.fresh late] at found
    cases found
  exchange _ hsome := by
    cases hsome
    exact wellFormed
  answered present := by
    obtain ⟨_, hpresent, responded⟩ := h.answered present
    cases found.symm.trans hpresent
    exact ⟨exchange, rfl, answered responded⟩
  key task _ htask hsome := by
    cases hsome
    rw [info]
    exact h.key task _ htask found

theorem WellFormed.setRest (h : slot.WellFormed frame id) {task : Option CachingTask}
    {tee : Option Tee} (htask : task.isSome → slot.task.isSome)
    (htee : tee.isSome → slot.tee.isSome)
    (hkey : ∀ now before, task = some now → slot.task = some before → now.key = before.key) :
    WellFormed frame id { slot with task, tee } where
  fresh late := by
    rw [h.fresh late] at htask htee ⊢
    have tasks : task = none := by simpa using htask
    have tees : tee = none := by simpa using htee
    rw [tasks, tees]
  exchange := h.exchange
  answered present := h.answered (present.imp htask htee)
  key now exchange hnow hexchange := by
    obtain ⟨before, hbefore⟩ := Option.isSome_iff_exists.mp
      (htask (Option.isSome_iff_exists.mpr ⟨now, hnow⟩))
    rw [hkey now before hnow hbefore]
    exact h.key before exchange hbefore hexchange

end Slot

namespace Engine

variable {engine : Engine} {exchange : Exchange}

theorem Turns.wellFormed {phase : Phase} {store : CountedStore}
    (turns : Turns engine exchange phase store) (h : exchange.WellFormed engine.handler) :
    Exchange.WellFormed engine.handler { exchange with phase } := by
  have looks := h.looks
  have treats := h.treats
  cases turns with
  | relay arrived sample =>
      refine h.turned _ nofun (by rw [arrived]; nofun) rfl ?_
      intro relation _ dev
      cases sample.symm.trans dev
  | upgrade arrived dev healthy upgrade =>
      refine h.turned _ nofun (by rw [arrived]; nofun) rfl ?_
      intro relation _ _ plain
      cases upgrade.symm.trans plain
  | look key arrived dev healthy plain asked volatile =>
      rw [h.info] at asked volatile
      refine h.turned _ ?_ (by rw [arrived]; nofun) rfl nofun
      rintro other ⟨⟩
      exact ⟨plain, asked, volatile⟩
  | send arrived dev healthy plain other =>
      refine h.turned _ nofun (by rw [arrived]; nofun) rfl ?_
      rintro relation ⟨⟩ _ _
      rfl
  | fallBack arrived dev unhealthy =>
      exact h.turned _ nofun (by rw [arrived]; nofun) rfl nofun
  | miss key looking absent =>
      rw [looking] at looks
      exact h.turned _ looks (by rw [looking]; nofun) rfl nofun
  | ungated key approaching closed =>
      rw [approaching] at looks
      exact h.turned _ looks (by rw [approaching]; nofun) rfl nofun
  | admitted key gate deadline waiting held =>
      rw [waiting] at looks
      exact h.turned _ looks (fun _ => rfl) rfl nofun
  | missAgain key looking absent =>
      refine h.turned _ nofun (fun _ => rfl) rfl ?_
      rintro relation ⟨⟩ _ _
      rfl
  | sent relation request sending sendable =>
      rw [sending] at treats
      refine h.turned _ nofun ?_ rfl treats
      rw [sending]
      cases relation <;> exact id
  | gather kind response source rest collector grown filtering unfinished =>
      exact h.turned _ nofun (by rw [filtering]; nofun) rfl nofun

theorem Turns.unanswered {phase : Phase} {store : CountedStore}
    (turns : Turns engine exchange phase store) : exchange.phase.isResponded = false := by
  cases turns <;> simp_all only [Phase.isResponded]

theorem Concludes.unanswered {event : Event} {response : Response}
    (concludes : Concludes engine exchange event response) :
    exchange.phase.isResponded = false := by
  cases concludes with
  | hit key payload looking present =>
      rcases looking with looking | looking <;> rw [looking] <;> rfl
  | _ => simp_all only [Phase.isResponded]

theorem Works.task_of_some {task : CachingTask} {after : Option CachingTask} {tee : Option Tee}
    {shared : Shared} (works : Works engine task after tee shared)
    (found : engine.task? task.exchange = some task) {now : CachingTask}
    (hnow : after = some now) : now.key = task.key ∧ now.gate = task.gate := by
  cases works with
  | starved collector tee rest collecting copied poll =>
      cases found.symm.trans hnow
      exact ⟨rfl, rfl⟩
  | close closing => cases hnow
  | _ => cases hnow; exact ⟨rfl, rfl⟩

theorem Works.tee_of_some {task : CachingTask} {after : Option CachingTask} {tee : Option Tee}
    {shared : Shared} (works : Works engine task after tee shared) (htee : tee.isSome) :
    (engine.tee? task.exchange).isSome := by
  cases works with
  | insert | populate | populated | close => exact htee
  | _ => simp_all

/-! ## Every step keeps the slots well formed -/

section Preserved

variable {id : Nat} (h : (engine.slot id).WellFormed engine.frame id)

include h

theorem arrive_wellFormed (request : Request) (fresh : id = engine.nextId) :
    Slot.WellFormed { engine.frame with nextId := engine.nextId + 1 } id
      { engine.slot id with
        exchange := (engine.exchange? id).or (some {
          id, request, info := RequestInfo.classify request.method request.target
          gate := none, phase := .arrived }) } := by
  have empty := h.fresh (Nat.le_of_eq fresh.symm)
  have absent : engine.exchange? id = none := congrArg Slot.exchange empty
  rw [empty, absent]
  exact {
    fresh := fun late => absurd late (by simp only; omega)
    exchange := by
      rintro exchange ⟨⟩
      exact ⟨rfl, nofun, nofun, nofun, nofun⟩
    answered := by rintro (present | present) <;> cases present
    key := fun _ _ present => by cases present }

theorem join_wellFormed {key : Key} {gate deadline : Nat}
    (found : engine.exchange? id = some exchange)
    (approaching : exchange.phase = .approaching key) :
    Slot.WellFormed engine.frame id
      { engine.slot id with
        exchange := some { exchange with
          gate := some gate
          phase := .waiting key gate deadline } } := by
  have wellFormed := h.exchange exchange found
  have looks := wellFormed.looks
  rw [approaching] at looks
  refine h.setExchange found ?_ (by rw [approaching]; nofun) rfl
  exact {
    info := wellFormed.info
    looks := looks
    gated := fun _ _ => ⟨rfl, key, looks key rfl⟩
    waits := by
      rintro _ _ _ ⟨⟩
      rfl
    treats := nofun }

theorem filter_wellFormed {kind : ResourceKind} {request : Outgoing} {reply : Reply}
    (found : engine.exchange? id = some exchange)
    (awaiting : exchange.phase = .awaiting .treated request)
    (filter : treatment engine.tiers exchange.info reply.status
      (treatedResponse exchange.info reply).headers = .filter kind) (phase : Phase)
    (filtering : phase.key? = none ∧ phase.relation? = none ∧ phase.isWaiting = false) :
    Slot.WellFormed engine.frame id
      { engine.slot id with exchange := some { exchange with phase } } := by
  have wellFormed := h.exchange exchange found
  have ungated : exchange.gate = none := by
    cases hgate : exchange.gate with
    | none => rfl
    | some gate =>
        obtain ⟨-, key, asks⟩ := wellFormed.gated gate hgate
        exact absurd filter (treatment_ne_filter (wellFormed.info ▸ asks.volatile))
  refine h.setExchange found ?_ (by rw [awaiting]; nofun) rfl
  exact {
    info := wellFormed.info
    looks := fun key hkey => by cases filtering.1.symm.trans hkey
    gated := fun gate hgate => by cases ungated.symm.trans hgate
    waits := fun key gate deadline hphase => by
      have hphase : phase = .waiting key gate deadline := hphase
      rw [hphase] at filtering
      cases filtering.2.2
    treats := fun relation hrelation => by cases filtering.2.1.symm.trans hrelation }

theorem copy_wellFormed {key : Key} {request : Outgoing} {headers : Headers} {status : StatusCode}
    {task : CachingTask} {tee : Tee} (response : Response)
    (found : engine.exchange? id = some exchange)
    (awaiting : exchange.phase = .awaiting .treated request)
    (cache : treatment engine.tiers exchange.info status headers = .cache key)
    (hkey : task.key = key) :
    Slot.WellFormed engine.frame id
      { exchange := some { exchange with gate := none, phase := .responded response .copied }
        task := (engine.task? id).or (some task)
        tee := (engine.tee? id).or (some tee) } := by
  have bare := h.bare found (by rw [awaiting]; rfl)
  have untasked : engine.task? id = none := congrArg Slot.task bare
  have known : id < engine.nextId := h.known (by rw [bare]; nofun)
  rw [untasked]
  exact {
    fresh := fun late => absurd late (Nat.not_le_of_lt known)
    exchange := by
      rintro _ ⟨⟩
      exact (h.exchange exchange found).answered response .copied
    answered := fun _ => ⟨_, rfl, rfl⟩
    key := by
      rintro _ _ ⟨⟩ ⟨⟩
      exact hkey ▸ key_of_treatment cache }

theorem delivery_wellFormed {response : Response} {delivery : Delivery} (after : Delivery)
    (found : engine.exchange? id = some exchange)
    (responded : exchange.phase = .responded response delivery) :
    Slot.WellFormed engine.frame id
      { engine.slot id with
        exchange := some { exchange with phase := .responded response after } } :=
  h.setExchange found
    ((h.exchange exchange found).turned _ nofun (by rw [responded]; nofun) rfl nofun)
    (fun _ => rfl) rfl

theorem tee_wellFormed {tee after : Tee} (found : engine.tee? id = some tee) :
    Slot.WellFormed engine.frame id { engine.slot id with tee := some after } := by
  refine h.setRest (fun task => task) (fun _ => ?_) fun now before hnow hbefore => ?_
  · exact Option.isSome_iff_exists.mpr ⟨tee, found⟩
  · cases hnow.symm.trans hbefore
    rfl

theorem work_wellFormed {task : CachingTask} {after : Option CachingTask} {tee : Option Tee}
    {shared : Shared} (found : engine.task? id = some task)
    (works : Works engine task after tee shared) :
    Slot.WellFormed engine.frame id { engine.slot id with task := after, tee } := by
  have number := exchange_of_task? found
  subst number
  refine h.setRest (fun _ => ?_) works.tee_of_some fun now before hnow hbefore => ?_
  · exact Option.isSome_iff_exists.mpr ⟨task, found⟩
  · cases found.symm.trans hbefore
    exact (works.task_of_some found hnow).1

theorem Move.wellFormed {event : Event} {slot : Slot} {shared : Shared}
    (move : Move engine id event slot shared) :
    slot.WellFormed (engine.frameAfter event) id := by
  cases move with
  | arrive request fresh => exact arrive_wellFormed h request fresh
  | turn exchange phase store found turns =>
      exact h.setExchange found (turns.wellFormed (h.exchange exchange found))
        (by rw [turns.unanswered]; nofun) rfl
  | join exchange key tiers gate found approaching opened =>
      exact join_wellFormed h found approaching
  | giveUp exchange key gate deadline found waiting unheld late =>
      have wellFormed := h.exchange exchange found
      have looks := wellFormed.looks
      rw [waiting] at looks
      exact h.setExchange found ⟨wellFormed.info, looks, nofun, nofun, nofun⟩
        (by rw [waiting]; nofun) rfl
  | conclude exchange event response found concludes =>
      have frame : engine.frameAfter event = engine.frame := by cases concludes <;> rfl
      rw [frame]
      exact h.setExchange found ((h.exchange exchange found).answered response _) (fun _ => rfl) rfl
  | filter exchange kind request reply found awaiting filter =>
      exact filter_wellFormed h found awaiting filter _ ⟨rfl, rfl, rfl⟩
  | copy exchange key request reply found awaiting cache =>
      exact copy_wellFormed h _ found awaiting cache rfl
  | readDirect exchange response source found responded =>
      exact delivery_wellFormed h _ found responded
  | readCopy exchange response tee found responded copied => exact tee_wellFormed h copied
  | dropBody exchange response delivery found responded uncopied =>
      exact delivery_wellFormed h .dropped found responded
  | dropCopy exchange response tee found responded copied =>
      have dropped := delivery_wellFormed h .dropped found responded
      refine dropped.setRest (fun task => task) (fun _ => ?_) fun now before hnow hbefore => ?_
      · exact Option.isSome_iff_exists.mpr ⟨tee, copied⟩
      · cases hnow.symm.trans hbefore
        rfl
  | abandon exchange found unanswered =>
      rw [h.bare found (Phase.isResponded_eq_false unanswered)]
      exact .empty engine.frame id
  | work task after tee shared found works => exact work_wellFormed h found works

end Preserved

def WellFormed (engine : Engine) : Prop := ∀ id, (engine.slot id).WellFormed engine.frame id

theorem start_wellFormed (settings : Settings) (store : CountedStore) (now : Nat) :
    (start settings store now).WellFormed := fun id => .empty _ id

theorem step_wellFormed (h : engine.WellFormed) (event : Event) :
    (engine.step event).WellFormed := by
  intro id
  rcases step_moved engine event with unmoved | ⟨moved, hmoved⟩
  · rw [unmoved.slots, unmoved.frame]
    exact h id
  rw [hmoved.frame]
  by_cases same : id = moved
  · subst same
    exact hmoved.move.wellFormed (h id)
  · rw [hmoved.others id same]
    cases event with
    | arrive request =>
        have kept := h id
        exact { kept with fresh := fun late => kept.fresh (Nat.le_of_succ_le late) }
    | _ => exact h id

theorem run_wellFormed (h : engine.WellFormed) (events : List Event) :
    (engine.run events).WellFormed := by
  induction events generalizing engine with
  | nil => exact h
  | cons event rest ih => exact ih (step_wellFormed h event)

end Engine

end Outpost.Proxy
