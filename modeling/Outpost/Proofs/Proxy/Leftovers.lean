import Outpost.Proofs.Proxy.Courses

/-!
# Gates that stay behind

A gate is opened by the first request that looks for it, and nothing closes it but an entry under
its key.  The keys with a gate are therefore, at any time, those that were looked for and have no
entry, whether or not anyone still populates them.
-/

namespace Outpost.Proxy

open Api Cache Coding Config Http Store Outpost.Stream

namespace Engine

variable {engine start : Engine} {events : List Event} {key : Key}

def Seeks (engine : Engine) (key : Key) (event : Event) : Prop :=
  ∃ id exchange, event = .advance id ∧ engine.exchange? id = some exchange ∧
    exchange.phase = .approaching key

def Sought (start : Engine) (key : Key) (events : List Event) : Prop :=
  ∃ id, start.StepsFrom id (fun _ exchange => exchange.phase = .approaching key) events

theorem sought_nil : ¬ start.Sought key [] := by
  rintro ⟨id, before, after, exchange, none, -⟩
  simp at none

theorem sought_concat_iff {event : Event} : start.Sought key (events ++ [event]) ↔
    start.Sought key events ∨ (start.run events).Seeks key event := by
  constructor
  · rintro ⟨id, before, after, exchange, split, found, approaching⟩
    obtain ⟨rfl, rfl⟩ | ⟨rest, rfl⟩ := last_or_before split
    · exact .inr ⟨id, exchange, rfl, found, approaching⟩
    · exact .inl ⟨id, before, rest, exchange, rfl, found, approaching⟩
  · rintro (⟨id, sought⟩ | ⟨id, exchange, rfl, found, approaching⟩)
    · exact ⟨id, sought.more [event]⟩
    · exact ⟨id, .now found approaching⟩

/-! ## What an event does to the gates -/

/-- What the tiers become with an event: a request looks for a gate, or an entry comes, or nothing
changes for gates and entries. -/
inductive Gates (engine : Engine) (event : Event) (after : Tiers) : Prop where
  | seeks (key : Key) (seeks : ∀ other, engine.Seeks other event ↔ other = key)
      (tiers : after = (engine.tiers.gate? key).1)
  | inserts (key : Key) (payload : Bytes) (quiet : ∀ other, ¬ engine.Seeks other event)
      (tiers : after = (engine.tiers.insertVolatile key payload).1)
  | rests (quiet : ∀ other, ¬ engine.Seeks other event)
      (gates : after.gates = engine.tiers.gates) (volatile : after.volatile = engine.tiers.volatile)

theorem tiers_approach (exchange : Exchange) (key : Key) :
    (engine.approach exchange key).tiers = (engine.tiers.gate? key).1 := by
  unfold approach
  rcases engine.tiers.gate? key with ⟨tiers, - | gate⟩ <;> rfl

theorem Seeks.unique {other : Key} {event : Event} (h : engine.Seeks key event)
    (hother : engine.Seeks other event) : key = other := by
  obtain ⟨id, exchange, rfl, found, approaching⟩ := h
  obtain ⟨id', exchange', same, found', approaching'⟩ := hother
  cases same
  cases found.symm.trans found'
  exact Phase.approaching.inj (approaching.symm.trans approaching')

theorem Works.gates {event : Event} {task : CachingTask} {after : Option CachingTask}
    {tee : Option Tee} {shared : Shared} (works : Works engine task after tee shared)
    (quiet : ∀ key, ¬ engine.Seeks key event) : engine.Gates event shared.tiers := by
  have populated : ∀ (population : Population),
      engine.Gates event (population.step engine.tiers engine.store).1 := by
    intro population
    rcases Population.step_tiers engine.tiers engine.store population with same | marked
    · exact .rests quiet (congrArg Tiers.gates same) (congrArg Tiers.volatile same)
    · rw [marked]
      exact .rests quiet (Tiers.markPopulated_gates _ _) (Tiers.markPopulated_volatile _ _)
  cases works with
  | starved | ended | broken | grown | decoded | close => exact .rests quiet rfl rfl
  | insert payload inserting => exact .inserts task.key payload quiet rfl
  | populate population stage tiers store populating step
  | populated population result tiers store populating step =>
      have gates := populated population
      rwa [step] at gates

theorem step_gates (engine : Engine) (event : Event) :
    engine.Gates event (engine.step event).tiers := by
  by_cases seeks : ∃ key, engine.Seeks key event
  · obtain ⟨key, seeks⟩ := seeks
    refine .seeks key (fun other => ⟨fun h => h.unique seeks, fun same => same ▸ seeks⟩) ?_
    obtain ⟨id, exchange, rfl, found, approaching⟩ := seeks
    rw [step_approach found approaching]
    exact tiers_approach exchange key
  have quiet : ∀ key, ¬ engine.Seeks key event := fun key h => seeks ⟨key, h⟩
  rcases step_moved engine event with unmoved | ⟨id, hmoved⟩
  · have same := congrArg Shared.tiers unmoved.shared
    exact .rests quiet (congrArg Tiers.gates same) (congrArg Tiers.volatile same)
  · have move := hmoved.move
    generalize (engine.step event).slot id = slot, hshared : (engine.step event).shared = shared
      at move
    have tiers : (engine.step event).tiers = shared.tiers := congrArg Shared.tiers hshared
    rw [tiers]
    cases move with
    | join exchange key tiers gate found approaching =>
        exact absurd ⟨id, exchange, rfl, found, approaching⟩ (quiet key)
    | work task after tee shared found works => exact works.gates quiet
    | _ => exact .rests quiet rfl rfl

/-! ## The gates of a run -/

structure TracksGates (start : Engine) (events : List Event) : Prop where
  once : (start.run events).tiers.gated.Nodup
  keys : ∀ key, key ∈ (start.run events).tiers.gated ↔
    start.Sought key events ∧ (start.run events).tiers.volatile? key = none

theorem sought_of_quiet {event : Event} (quiet : ∀ key, ¬ (start.run events).Seeks key event) :
    start.Sought key (events ++ [event]) ↔ start.Sought key events := by
  rw [sought_concat_iff, or_iff_left (quiet key)]

theorem TracksGates.concat (h : start.TracksGates events) (event : Event) :
    start.TracksGates (events ++ [event]) := by
  have gates := step_gates (start.run events) event
  rw [← run_concat] at gates
  cases gates with
  | seeks key seeks tiers =>
      have volatile : ∀ other, (start.run (events ++ [event])).tiers.volatile? other =
          (start.run events).tiers.volatile? other := by
        intro other
        rw [tiers]
        exact Tiers.volatile?_fst_gate? other
      refine ⟨tiers ▸ Tiers.nodup_gated_gate? h.once, fun other => ?_⟩
      rw [volatile, tiers, Tiers.mem_gated_gate?, h.keys, sought_concat_iff, seeks, or_and_right]
      exact or_congr_right (and_congr_right fun same => by rw [same])
  | inserts key payload quiet tiers =>
      have gated := congrArg Tiers.gated tiers
      rw [Tiers.gated_insertVolatile] at gated
      refine ⟨gated ▸ h.once.filter _, fun other => ?_⟩
      rw [gated, tiers, sought_of_quiet quiet, Tiers.volatile?_insertVolatile, List.mem_filter,
        h.keys]
      by_cases same : other = key
      · simp [same]
      · simp [same]
  | rests quiet gates volatile =>
      have gated : (start.run (events ++ [event])).tiers.gated =
          (start.run events).tiers.gated := congrArg (List.map Prod.fst) gates
      refine ⟨gated ▸ h.once, fun key => ?_⟩
      rw [gated, sought_of_quiet quiet, Tiers.volatile?_congr volatile]
      exact h.keys key

theorem run_tracksGates (settings : Settings) (store : CountedStore) (now : Nat)
    (events : List Event) : (Engine.start settings store now).TracksGates events := by
  induction events using List.reverseRecOn with
  | nil =>
      refine ⟨List.nodup_nil, fun key => ⟨nofun, fun h => absurd h.1 sought_nil⟩⟩
  | append_singleton before event ih => exact ih.concat event

/-! ## Gates of an idle engine -/

def isServing (engine : Engine) (exchange : Exchange) : Bool :=
  match exchange.phase with
  | .responded _ .dropped => false
  | .responded _ (.direct source) => !source.items.isEmpty
  | .responded _ .copied => (engine.tee? exchange.id).any fun tee => !tee.finished
  | _ => true

/-- No request for a volatile entry is being served, and no task is left. -/
def Idle (engine : Engine) : Prop :=
  (∀ exchange ∈ engine.exchanges, exchange.info.policy = .volatile →
    engine.isServing exchange = false) ∧ engine.tasks.isEmpty = true

instance (engine : Engine) : Decidable engine.Idle :=
  inferInstanceAs (Decidable ((∀ exchange ∈ engine.exchanges, exchange.info.policy = .volatile →
    engine.isServing exchange = false) ∧ engine.tasks.isEmpty = true))

def ClearsGates (start : Engine) (events : List Event) : Prop :=
  ∀ early, early <+: events → (start.run early).Idle → (start.run early).tiers.gates = []

/-- What becomes of the gates in a run. -/
structure AccountsForGates (start : Engine) (events : List Event) : Prop where
  tracks : start.TracksGates events
  clears : start.ClearsGates events ↔ ∀ early key, early <+: events → (start.run early).Idle →
    start.Sought key early → ((start.run early).tiers.volatile? key).isSome

theorem TracksGates.gates_eq_nil_iff (h : start.TracksGates events) :
    (start.run events).tiers.gates = [] ↔
      ∀ key, start.Sought key events → ((start.run events).tiers.volatile? key).isSome := by
  rw [← List.map_eq_nil_iff (f := (·.1)), List.eq_nil_iff_forall_not_mem]
  refine forall_congr' fun key => ?_
  change key ∉ (start.run events).tiers.gated ↔ _
  rw [h.keys, not_and, ← ne_eq, Option.ne_none_iff_isSome]

theorem run_accountsForGates (settings : Settings) (store : CountedStore) (now : Nat)
    (events : List Event) : (Engine.start settings store now).AccountsForGates events := by
  refine ⟨run_tracksGates settings store now events, ?_⟩
  have empty := fun early => (run_tracksGates settings store now early).gates_eq_nil_iff
  constructor
  · intro clears early key isPrefix idle
    exact (empty early).mp (clears early isPrefix idle) key
  · intro brought early isPrefix idle
    exact (empty early).mpr fun key => brought early key isPrefix idle

/-- The upstream fails the only request for a list, and its client has gone: the gate stays. -/
theorem gate_left_behind :
    let request : Request := {
      method := "GET"
      target := ⟨"/api/v1/pods", some "labelSelector=type%3Dresourceusage",
        some "/api/v1/pods?labelSelector=type%3Dresourceusage"⟩
      headers := [], body := [] }
    let key : Key := ⟨.pods, "", .resourceUsage⟩
    let start := Engine.start (Settings.default default) .inMemory 0
    let events : List Event := [.probed true, .arrive request, .advance 0, .advance 0, .advance 0,
      .advance 0, .advance 0, .advance 0, .answer 0 (.ok ⟨500, [], ⟨[]⟩⟩), .abandon 0]
    (start.run events).Idle ∧ (start.run events).tiers.gates = [(key, 0)] ∧
      ¬ start.ClearsGates events := by
  intro request key start events
  have idle : (start.run events).Idle := by decide +kernel
  have gates : (start.run events).tiers.gates = [(key, 0)] := by decide +kernel
  refine ⟨idle, gates, fun clears => ?_⟩
  have empty := clears events List.prefix_rfl idle
  rw [gates] at empty
  cases empty

end Engine

end Outpost.Proxy
