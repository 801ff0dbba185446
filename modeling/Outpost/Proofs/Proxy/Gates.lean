import Outpost.Proofs.Cache.Population
import Outpost.Proofs.Proxy.Slots

/-!
# Standing at the gates

Exchanges stand in line at the gate of their key, and the first of a line holds the gate until it
leaves; a caching task takes the place of its exchange.  `Orderly` ties the lines to the tiers:
all who stand for one key stand at one gate, which is the open one as long as the key has no
entry.
-/

namespace Outpost.Proxy

open Api Cache Coding Config Http Store Outpost.Stream

/-! ## Lines -/

namespace Lines

variable (lines : Lines) (gate who other : Nat)

@[simp] theorem at?_nil : Lines.at? [] gate = [] := rfl

theorem at?_cons (line : Nat × List Nat) (rest : Lines) :
    Lines.at? (line :: rest) gate = if line.1 = gate then line.2 else Lines.at? rest gate := by
  unfold at?
  by_cases h : line.1 = gate <;> simp [h]

theorem at?_eq_nil (h : gate ∉ lines.map (·.1)) : lines.at? gate = [] := by
  induction lines with
  | nil => rfl
  | cons line rest ih =>
      rw [List.map_cons, List.mem_cons, not_or] at h
      rw [at?_cons, if_neg (Ne.symm h.1)]
      exact ih h.2

theorem at?_alter (change : List Nat → List Nat) (there : gate ∈ lines.map (·.1)) :
    Lines.at? (lines.map fun line => if line.1 = gate then (gate, change line.2) else line) other =
      if other = gate then change (lines.at? gate) else lines.at? other := by
  induction lines with
  | nil => cases there
  | cons line rest ih =>
      rw [List.map_cons, at?_cons, at?_cons, at?_cons]
      by_cases hline : line.1 = gate
      · rw [if_pos hline, if_pos hline]
        by_cases hother : other = gate
        · rw [if_pos hother, if_pos hother.symm]
        · rw [if_neg hother, if_neg (Ne.symm hother), if_neg (fun h => hother (h.symm.trans hline))]
          by_cases hrest : gate ∈ rest.map (·.1)
          · rw [ih hrest, if_neg hother]
          · rw [List.map_congr_left (g := id), List.map_id]
            intro entry hentry
            exact if_neg fun h => hrest (List.mem_map.mpr ⟨entry, hentry, h⟩)
      · have hrest : gate ∈ rest.map (·.1) := by
          rw [List.map_cons, List.mem_cons] at there
          exact there.resolve_left (Ne.symm hline)
        rw [if_neg hline, if_neg hline, ih hrest]
        by_cases hother : other = gate
        · rw [if_pos hother, if_neg (fun h => hline (h.trans hother)), if_pos hother]
        · rw [if_neg hother, if_neg hother]

theorem numbers_alter (change : List Nat → List Nat) :
    ((lines.map fun line => if line.1 = gate then (gate, change line.2) else line).map (·.1)) =
      lines.map (·.1) := by
  rw [List.map_map]
  refine List.map_congr_left fun line _ => ?_
  by_cases h : line.1 = gate <;> simp [h]

theorem at?_append (more : Lines) :
    Lines.at? (List.append lines more) gate =
      if gate ∈ lines.map (·.1) then lines.at? gate else more.at? gate := by
  induction lines with
  | nil => rfl
  | cons line rest ih =>
      have split : List.append (line :: rest) more = line :: List.append rest more := rfl
      rw [split, at?_cons, at?_cons, ih]
      by_cases hline : line.1 = gate
      · simp [hline]
      · have hne : ¬ gate = line.1 := Ne.symm hline
        simp only [hline, hne, if_false, List.map_cons, List.mem_cons, false_or]

theorem at?_join :
    (lines.join gate who).at? other =
      if other = gate then lines.at? gate ++ [who] else lines.at? other := by
  have there : (lines.any fun line => line.1 == gate) = true ↔ gate ∈ lines.map (·.1) := by simp
  unfold join
  split
  · rename_i h
    exact at?_alter lines gate other (· ++ [who]) (there.mp h)
  · rename_i h
    have absent : gate ∉ lines.map (·.1) := fun hmem => h (there.mpr hmem)
    rw [at?_append, at?_cons]
    by_cases hother : other = gate
    · subst hother
      simp [absent, at?_eq_nil]
    · by_cases hmem : other ∈ lines.map (·.1)
      · rw [if_pos hmem, if_neg hother]
      · rw [if_neg hmem, if_neg hother, if_neg (Ne.symm hother), at?_eq_nil lines other hmem]
        rfl

theorem numbers_join (h : (lines.map (·.1)).Nodup) : ((lines.join gate who).map (·.1)).Nodup := by
  unfold join
  split
  · rw [numbers_alter lines gate (· ++ [who])]
    exact h
  · rename_i absent
    have absent : gate ∉ lines.map (·.1) := by simpa using absent
    have numbers : (List.append lines [(gate, [who])]).map (·.1) = lines.map (·.1) ++ [gate] :=
      List.map_append
    rw [numbers, List.nodup_append]
    refine ⟨h, List.nodup_cons.mpr ⟨List.not_mem_nil, List.nodup_nil⟩,
      fun first hfirst second hsecond same => ?_⟩
    rw [List.mem_singleton] at hsecond
    exact absent (hsecond ▸ same ▸ hfirst)

theorem at?_filter (h : (lines.map (·.1)).Nodup) :
    Lines.at? (lines.filter fun line => !line.2.isEmpty) gate = lines.at? gate := by
  induction lines with
  | nil => rfl
  | cons line rest ih =>
      rw [List.map_cons, List.nodup_cons] at h
      rw [List.filter_cons, at?_cons]
      by_cases hline : line.2 = []
      · rw [if_neg (by simp [hline]), ih h.2]
        by_cases hgate : line.1 = gate
        · rw [if_pos hgate, hline]
          exact at?_eq_nil rest gate (hgate ▸ h.1)
        · rw [if_neg hgate]
      · rw [if_pos (by simp [hline]), at?_cons, ih h.2]

theorem at?_leave (h : (lines.map (·.1)).Nodup) :
    (lines.leave gate who).at? other =
      if other = gate then (lines.at? gate).filter (· ≠ who) else lines.at? other := by
  unfold leave
  rw [at?_filter _ _ (by rwa [numbers_alter lines gate (List.filter (· ≠ who))])]
  by_cases there : gate ∈ lines.map (·.1)
  · exact at?_alter lines gate other _ there
  · have same : (lines.map fun line =>
        if line.1 = gate then (gate, line.2.filter (· ≠ who)) else line) = lines := by
      rw [List.map_congr_left (g := id), List.map_id]
      intro entry hentry
      exact if_neg fun h => there (List.mem_map.mpr ⟨entry, hentry, h⟩)
    rw [same]
    split
    · rename_i hother
      rw [hother, at?_eq_nil lines gate there]
      rfl
    · rfl

theorem numbers_leave (h : (lines.map (·.1)).Nodup) :
    ((lines.leave gate who).map (·.1)).Nodup := by
  unfold leave
  refine List.Nodup.sublist (List.Sublist.map _ (List.filter_sublist)) ?_
  rwa [numbers_alter lines gate (List.filter (· ≠ who))]

/-! ## Holding a gate -/

theorem isHeld_join (h : lines.isHeld other who = true) (next : Nat) :
    (lines.join gate next).isHeld other who = true := by
  unfold isHeld at h ⊢
  rw [at?_join]
  split
  · rename_i same
    subst same
    cases hline : lines.at? other with
    | nil =>
        rw [hline] at h
        cases h
    | cons first rest => rwa [hline] at h
  · exact h

/-- Whoever holds a gate holds it until it leaves itself. -/
theorem isHeld_leave (numbers : (lines.map (·.1)).Nodup) (h : lines.isHeld other who = true)
    {leaver : Nat} (differs : leaver ≠ who) :
    (lines.leave gate leaver).isHeld other who = true := by
  unfold isHeld at h ⊢
  rw [at?_leave lines gate leaver other numbers]
  split
  · rename_i same
    subst same
    cases hline : lines.at? other with
    | nil =>
        rw [hline] at h
        cases h
    | cons first rest =>
        rw [hline] at h
        have hfirst : first = who := by simpa using h
        subst hfirst
        simp [Ne.symm differs]
  · exact h

theorem isHeld_unique {first second : Nat} (hfirst : lines.isHeld gate first = true)
    (hsecond : lines.isHeld gate second = true) : first = second := by
  unfold isHeld at hfirst hsecond
  rw [beq_iff_eq] at hfirst hsecond
  exact Option.some.inj (hfirst.symm.trans hsecond)

end Lines

/-! ## Places -/

/-- A place at the gate of a key, and whether its owner has been let in. -/
structure Stand where
  key : Key
  gate : Nat
  inside : Bool

/-- What a step may make of the place under a number, and of the tiers and lines. -/
inductive Passes (id : Nat) (before : Option Stand) (shared : Shared) :
    Option Stand → Shared → Prop where
  | stays (after : Shared)
      (volatile : ∀ key, after.tiers.volatile? key = shared.tiers.volatile? key)
      (gates : ∀ key, after.tiers.openGate? key = shared.tiers.openGate? key)
      (lines : after.lines = shared.lines) :
      Passes id before shared before after
  | joins (key : Key) (tiers : Tiers) (gate : Nat)
      (opened : shared.tiers.gate? key = (tiers, some gate)) :
      Passes id before shared (some ⟨key, gate, false⟩)
        { shared with tiers, lines := shared.lines.join gate id }
  | enters (stand : Stand) (stood : before = some stand)
      (held : shared.lines.isHeld stand.gate id = true) :
      Passes id before shared (some { stand with inside := true }) shared
  | leaves (stand : Stand) (stood : before = some stand) :
      Passes id before shared none
        { shared with lines := shared.lines.leave stand.gate id }
  | inserts (key : Key) (payload : Bytes) :
      Passes id before shared before
        { shared with tiers := (shared.tiers.insertVolatile key payload).1 }

theorem Passes.volatile? {id : Nat} {before place : Option Stand} {shared after : Shared}
    {key : Key} {payload : Bytes} (passes : Passes id before shared place after)
    (present : shared.tiers.volatile? key = some payload) :
    after.tiers.volatile? key = some payload := by
  cases passes with
  | stays after volatile gates lines => rw [volatile, present]
  | joins other tiers gate opened => exact (Tiers.volatile?_after_gate? opened key).trans present
  | enters stand stood held => exact present
  | leaves stand stood => exact present
  | inserts other bytes =>
      refine (Tiers.volatile?_insertVolatile key).trans ?_
      split
      · rename_i same
        rw [← same, present]
        rfl
      · exact present

structure Orderly (stand? : Nat → Option Stand) (shared : Shared) : Prop where
  numbers : (shared.lines.map (·.1)).Nodup
  inside : ∀ id stand, stand? id = some stand → stand.inside = true →
    shared.lines.isHeld stand.gate id = true
  together : ∀ id other stand beside, stand? id = some stand → stand? other = some beside →
    stand.key = beside.key → stand.gate = beside.gate
  opened : ∀ id stand, stand? id = some stand → shared.tiers.volatile? stand.key = none →
    shared.tiers.openGate? stand.key = some stand.gate

namespace Orderly

variable {stand? after? : Nat → Option Stand} {shared after : Shared} {id : Nat}

theorem unique (h : Orderly stand? shared) {other : Nat} {stand beside : Stand}
    (first : stand? id = some stand) (second : stand? other = some beside)
    (key : stand.key = beside.key) (inside : stand.inside = true)
    (besideInside : beside.inside = true) : id = other := by
  have held := h.inside id stand first inside
  rw [h.together id other stand beside first second key] at held
  exact Lines.isHeld_unique _ _ held (h.inside other beside second besideInside)

section Step

variable (h : Orderly stand? shared) (others : ∀ other, other ≠ id → after? other = stand? other)

include h others

theorem join {key : Key} {tiers : Tiers} {gate : Nat} (place : after? id = some ⟨key, gate, false⟩)
    (opened : shared.tiers.gate? key = (tiers, some gate)) :
    Orderly after? { shared with tiers, lines := shared.lines.join gate id } := by
  have absent := Tiers.volatile?_of_gate? opened
  have volatile := Tiers.volatile?_after_gate? opened
  have there : ∀ other stand, after? other = some stand → stand.key = key →
      stand.gate = gate := by
    intro other stand hstand hkey
    by_cases same : other = id
    · subst same
      cases place.symm.trans hstand
      rfl
    · rw [others other same] at hstand
      exact Tiers.eq_of_openGate? opened
        (hkey ▸ h.opened other stand hstand (hkey ▸ absent))
  refine ⟨Lines.numbers_join _ _ _ h.numbers, ?_, ?_, ?_⟩
  · intro other stand hstand inside
    by_cases same : other = id
    · subst same
      cases place.symm.trans hstand
      cases inside
    · rw [others other same] at hstand
      exact Lines.isHeld_join _ _ _ _ (h.inside other stand hstand inside) id
  · intro first second stand beside hstand hbeside same
    by_cases hkey : stand.key = key
    · rw [there first stand hstand hkey, there second beside hbeside (same ▸ hkey)]
    · have settled : ∀ other stand, after? other = some stand → stand.key ≠ key →
          stand? other = some stand := by
        intro other stand hstand hne
        rw [← others other (fun same => ?_)]
        · exact hstand
        · subst same
          cases place.symm.trans hstand
          exact hne rfl
      exact h.together first second stand beside (settled first stand hstand hkey)
        (settled second beside hbeside (same ▸ hkey)) same
  · intro other stand hstand missing
    rw [Tiers.openGate?_of_gate? opened]
    split
    · rename_i hkey
      rw [there other stand hstand hkey]
    · rename_i hkey
      by_cases same : other = id
      · subst same
        cases place.symm.trans hstand
        exact absurd rfl hkey
      · rw [others other same] at hstand
        exact h.opened other stand hstand (volatile stand.key ▸ missing)

theorem enter {stand : Stand} (stood : stand? id = some stand)
    (held : shared.lines.isHeld stand.gate id = true)
    (place : after? id = some { stand with inside := true }) : Orderly after? shared := by
  have from_ : ∀ other now, after? other = some now → ∃ before, stand? other = some before ∧
      before.key = now.key ∧ before.gate = now.gate ∧
        (now.inside = true → shared.lines.isHeld now.gate other = true) := by
    intro other now hnow
    by_cases same : other = id
    · subst same
      cases place.symm.trans hnow
      exact ⟨stand, stood, rfl, rfl, fun _ => held⟩
    · rw [others other same] at hnow
      exact ⟨now, hnow, rfl, rfl, h.inside other now hnow⟩
  refine ⟨h.numbers, ?_, ?_, ?_⟩
  · intro other now hnow inside
    obtain ⟨-, -, -, -, held⟩ := from_ other now hnow
    exact held inside
  · intro first second now beside hnow hbeside same
    obtain ⟨nowBefore, hfirst, nowKey, nowGate, -⟩ := from_ first now hnow
    obtain ⟨besideBefore, hsecond, besideKey, besideGate, -⟩ := from_ second beside hbeside
    rw [← nowGate, ← besideGate]
    exact h.together first second _ _ hfirst hsecond (by rw [nowKey, besideKey, same])
  · intro other now hnow missing
    obtain ⟨before, hbefore, key, gate, -⟩ := from_ other now hnow
    rw [← key] at missing ⊢
    rw [← gate]
    exact h.opened other before hbefore missing

theorem leave {gate : Nat} (place : after? id = none) :
    Orderly after? { shared with lines := shared.lines.leave gate id } := by
  have from_ : ∀ other stand, after? other = some stand →
      other ≠ id ∧ stand? other = some stand := by
    intro other stand hstand
    have differs : other ≠ id := by
      rintro rfl
      cases place.symm.trans hstand
    exact ⟨differs, others other differs ▸ hstand⟩
  refine ⟨Lines.numbers_leave _ _ _ h.numbers, ?_, ?_, ?_⟩
  · intro other stand hstand inside
    obtain ⟨differs, before⟩ := from_ other stand hstand
    exact Lines.isHeld_leave _ _ _ _ h.numbers (h.inside other stand before inside)
      (Ne.symm differs)
  · intro first second stand beside hstand hbeside
    exact h.together first second stand beside (from_ first stand hstand).2
      (from_ second beside hbeside).2
  · intro other stand hstand
    exact h.opened other stand (from_ other stand hstand).2

end Step

theorem insert (h : Orderly stand? shared) (key : Key) (payload : Bytes) :
    Orderly stand? { shared with tiers := (shared.tiers.insertVolatile key payload).1 } := by
  refine ⟨h.numbers, h.inside, h.together, fun id stand hstand missing => ?_⟩
  have missing : (shared.tiers.insertVolatile key payload).1.volatile? stand.key = none := missing
  rw [Tiers.volatile?_insertVolatile] at missing
  rw [Tiers.openGate?_insertVolatile]
  split
  · rename_i same
    rw [if_pos same, Option.or_eq_none_iff] at missing
    cases missing.2
  · rename_i differs
    rw [if_neg differs] at missing
    exact h.opened id stand hstand missing

theorem pass (h : Orderly stand? shared)
    (others : ∀ other, other ≠ id → after? other = stand? other)
    (passes : Passes id (stand? id) shared (after? id) after) : Orderly after? after := by
  have kept : after? id = stand? id → after? = stand? := by
    intro same
    funext other
    by_cases hother : other = id
    · rw [hother, same]
    · exact others other hother
  generalize hplace : after? id = place at passes
  cases passes with
  | stays after volatile gates lines =>
      rw [kept hplace]
      obtain ⟨numbers, inside, together, opened⟩ := h
      refine ⟨lines ▸ numbers, lines ▸ inside, together, fun other stand hstand missing => ?_⟩
      rw [gates]
      exact opened other stand hstand (volatile stand.key ▸ missing)
  | joins key tiers gate opened => exact h.join others hplace opened
  | enters stand stood held => exact h.enter others stood held hplace
  | leaves stand stood => exact h.leave others hplace
  | inserts key payload => exact kept hplace ▸ h.insert key payload

end Orderly

/-! ## The places in an engine -/

def Exchange.stand? (exchange : Exchange) : Option Stand :=
  match exchange.gate, Key.ofRequest? exchange.info with
  | some gate, some key => some ⟨key, gate, !exchange.phase.isWaiting⟩
  | _, _ => none

def CachingTask.stand? (task : CachingTask) : Option Stand :=
  task.gate.map fun gate => ⟨task.key, gate, true⟩

def Slot.stand? (slot : Slot) : Option Stand :=
  (slot.exchange.bind Exchange.stand?).or (slot.task.bind CachingTask.stand?)

theorem Exchange.stand?_ungated {exchange : Exchange} (h : exchange.gate = none) :
    exchange.stand? = none := by
  unfold stand?
  rw [h]

theorem Exchange.stand?_gated {exchange : Exchange} {gate : Nat} {key : Key}
    (h : exchange.gate = some gate) (asked : Key.ofRequest? exchange.info = some key) :
    exchange.stand? = some ⟨key, gate, !exchange.phase.isWaiting⟩ := by
  unfold stand?
  rw [h, asked]

theorem Slot.stand?_alone (exchange : Exchange) (tee : Option Tee) :
    Slot.stand? ⟨some exchange, none, tee⟩ = exchange.stand? := Option.or_none

theorem Slot.stand?_ungated {slot : Slot} {exchange : Exchange}
    (found : slot.exchange = some exchange) (h : exchange.gate = none) :
    slot.stand? = slot.task.bind CachingTask.stand? := by
  unfold stand?
  rw [found, Option.bind_some, Exchange.stand?_ungated h, Option.none_or]

namespace Engine

variable {engine : Engine} {exchange : Exchange} {id : Nat}

def stand? (engine : Engine) (id : Nat) : Option Stand := (engine.slot id).stand?

theorem stand?_unanswered (h : (engine.slot id).WellFormed engine.frame id)
    (found : engine.exchange? id = some exchange)
    (unanswered : exchange.phase.isResponded = false) :
    engine.stand? id = exchange.stand? := by
  unfold stand?
  rw [h.bare found unanswered]
  exact Slot.stand?_alone exchange none

theorem stand?_of_task {task : CachingTask} (h : (engine.slot id).WellFormed engine.frame id)
    (found : engine.task? id = some task) : engine.stand? id = task.stand? := by
  obtain ⟨exchange, hexchange, -, ungated⟩ := h.ungated found
  unfold stand?
  rw [Slot.stand?_ungated hexchange ungated]
  exact congrArg (Option.bind · CachingTask.stand?) found

theorem Turns.passes {phase : Phase} {store : CountedStore}
    (turns : Turns engine exchange phase store) (wellFormed : exchange.WellFormed engine.handler)
    (number : exchange.id = id) :
    Passes id exchange.stand? engine.shared (Exchange.stand? { exchange with phase })
      { engine.shared with store } := by
  have stays : exchange.phase.isWaiting = phase.isWaiting →
      Passes id exchange.stand? engine.shared (Exchange.stand? { exchange with phase })
        { engine.shared with store } := by
    intro same
    have unchanged : Exchange.stand? { exchange with phase } = exchange.stand? := by
      unfold Exchange.stand?
      simp only [same]
    rw [unchanged]
    exact .stays _ (fun _ => rfl) (fun _ => rfl) rfl
  cases turns with
  | admitted key gate deadline waiting held =>
      have asks := wellFormed.looks key (by rw [waiting]; rfl)
      have gated := wellFormed.waits key gate deadline waiting
      have asked : Key.ofRequest? exchange.info = some key := wellFormed.info ▸ asks.asked
      have before := Exchange.stand?_gated gated asked
      have after : Exchange.stand? { exchange with phase := .secondLook key } =
          some ⟨key, gate, true⟩ := Exchange.stand?_gated gated asked
      rw [after]
      rw [waiting] at before
      exact .enters ⟨key, gate, false⟩ before (number ▸ held)
  | _ => exact stays (by simp_all only [Phase.isWaiting])

theorem leave_passes (h : exchange.WellFormed engine.handler) (number : exchange.id = id) :
    Passes id exchange.stand? engine.shared none
      { engine.shared with lines := engine.linesWithout exchange } := by
  unfold linesWithout
  cases hgate : exchange.gate with
  | none =>
      rw [Exchange.stand?_ungated hgate]
      exact .stays _ (fun _ => rfl) (fun _ => rfl) rfl
  | some gate =>
      obtain ⟨-, key, asks⟩ := h.gated gate hgate
      have stood := Exchange.stand?_gated hgate (h.info ▸ asks.asked)
      subst number
      exact .leaves _ stood

theorem Works.passes {task : CachingTask} {after : Option CachingTask} {tee : Option Tee}
    {shared : Shared} (works : Works engine task after tee shared)
    (found : engine.task? task.exchange = some task) :
    Passes task.exchange task.stand? engine.shared (after.bind CachingTask.stand?) shared := by
  have same : Passes task.exchange task.stand? engine.shared task.stand? engine.shared :=
    .stays _ (fun _ => rfl) (fun _ => rfl) rfl
  have populates : ∀ (population : Population) {tiers : Tiers} {store : CountedStore}
      {progress : Population.Progress},
      population.step engine.tiers engine.store = (tiers, store, progress) →
      Passes task.exchange task.stand? engine.shared task.stand?
        { engine.shared with tiers, store } := by
    intro population tiers store progress step
    have volatile := Population.step_volatile? engine.tiers engine.store population
    have gates := Population.step_openGate? engine.tiers engine.store population
    rw [step] at volatile gates
    exact .stays _ volatile gates rfl
  cases works with
  | starved collector tee rest collecting copied poll => exact found ▸ same
  | insert payload inserting => exact .inserts task.key payload
  | populate population stage tiers store populating step => exact populates population step
  | populated population result tiers store populating step => exact populates population step
  | close closing =>
      unfold linesAfter CachingTask.stand?
      cases hgate : task.gate with
      | none => exact .stays _ (fun _ => rfl) (fun _ => rfl) rfl
      | some gate => exact .leaves ⟨task.key, gate, true⟩ rfl
  | _ => exact same

theorem Move.passes {event : Event} {slot : Slot} {shared : Shared}
    (move : Move engine id event slot shared)
    (h : (engine.slot id).WellFormed engine.frame id) :
    Passes id (engine.stand? id) engine.shared slot.stand? shared := by
  have stays : ∀ {slot : Slot}, slot.stand? = engine.stand? id →
      Passes id (engine.stand? id) engine.shared slot.stand? engine.shared := by
    intro slot same
    rw [same]
    exact .stays _ (fun _ => rfl) (fun _ => rfl) rfl
  have answered : ∀ {response : Response} {delivery : Delivery} {exchange after : Exchange}
      {tee : Option Tee}, engine.exchange? id = some exchange →
      exchange.phase = .responded response delivery → after.gate = exchange.gate →
      Slot.stand? { engine.slot id with exchange := some after, tee } = engine.stand? id := by
    intro response delivery exchange after tee found responded gate
    have ungated := (h.exchange exchange found).gate_eq_none (by rw [responded]; rfl)
    have before : engine.stand? id = (engine.task? id).bind CachingTask.stand? :=
      Slot.stand?_ungated found ungated
    rw [before]
    exact Slot.stand?_ungated rfl (gate.trans ungated)
  cases move with
  | arrive request fresh =>
      have empty := h.fresh (Nat.le_of_eq fresh.symm)
      have absent : engine.exchange? id = none := congrArg Slot.exchange empty
      refine stays ?_
      unfold stand?
      rw [empty, absent]
      rfl
  | turn exchange phase store found turns =>
      have wellFormed := h.exchange exchange found
      have passes := turns.passes wellFormed (id_of_exchange? found)
      rw [stand?_unanswered h found turns.unanswered, h.bare found turns.unanswered]
      rwa [Slot.stand?_alone]
  | join exchange key tiers gate found approaching opened =>
      have wellFormed := h.exchange exchange found
      have asks := wellFormed.looks key (by rw [approaching]; rfl)
      have after : Exchange.stand? { exchange with
          gate := some gate
          phase := .waiting key gate (engine.now + engine.populateWait) } =
          some ⟨key, gate, false⟩ := Exchange.stand?_gated rfl (wellFormed.info ▸ asks.asked)
      rw [h.bare found (by rw [approaching]; rfl), Slot.stand?_alone, after]
      exact .joins key tiers gate opened
  | giveUp exchange key gate deadline found waiting unheld late =>
      have unanswered : exchange.phase.isResponded = false := by rw [waiting]; rfl
      have after : Exchange.stand? { exchange with gate := none, phase := .secondLook key } =
          none := Exchange.stand?_ungated rfl
      rw [stand?_unanswered h found unanswered, h.bare found unanswered, Slot.stand?_alone, after]
      exact leave_passes (h.exchange exchange found) (id_of_exchange? found)
  | conclude exchange event response found concludes =>
      have after : Exchange.stand? { exchange with
          gate := none
          phase := .responded response (Delivery.ofPayload response.payload) } = none :=
        Exchange.stand?_ungated rfl
      rw [stand?_unanswered h found concludes.unanswered, h.bare found concludes.unanswered,
        Slot.stand?_alone, after]
      exact leave_passes (h.exchange exchange found) (id_of_exchange? found)
  | filter exchange kind request reply found awaiting filter =>
      have wellFormed := h.exchange exchange found
      have unanswered : exchange.phase.isResponded = false := by rw [awaiting]; rfl
      refine stays ?_
      rw [stand?_unanswered h found unanswered, h.bare found unanswered, Slot.stand?_alone]
      unfold Exchange.stand?
      rw [awaiting]
      rfl
  | copy exchange key request reply found awaiting cache =>
      have unanswered : exchange.phase.isResponded = false := by rw [awaiting]; rfl
      have untasked : engine.task? id = none := congrArg Slot.task (h.bare found unanswered)
      refine stays ?_
      rw [stand?_unanswered h found unanswered, Slot.stand?_ungated rfl rfl, untasked]
      cases hgate : exchange.gate with
      | none => rw [Exchange.stand?_ungated hgate]; rfl
      | some gate =>
          rw [Exchange.stand?_gated hgate (key_of_treatment cache), awaiting]
          rfl
  | readDirect exchange response source found responded =>
      exact stays (answered found responded rfl)
  | readCopy exchange response tee found responded copied => exact stays rfl
  | dropBody exchange response delivery found responded uncopied =>
      exact stays (answered found responded rfl)
  | dropCopy exchange response tee found responded copied =>
      exact stays (answered found responded rfl)
  | abandon exchange found unanswered =>
      have responded := Phase.isResponded_eq_false unanswered
      rw [stand?_unanswered h found responded, h.bare found responded]
      exact leave_passes (h.exchange exchange found) (id_of_exchange? found)
  | work task after tee shared found works =>
      have number := exchange_of_task? found
      subst number
      have passes := works.passes found
      rw [stand?_of_task h found]
      obtain ⟨exchange, hexchange, -, ungated⟩ := h.ungated found
      have place : Slot.stand? { engine.slot task.exchange with task := after, tee } =
          after.bind CachingTask.stand? := Slot.stand?_ungated hexchange ungated
      rwa [place]

def Orderly (engine : Engine) : Prop := Proxy.Orderly engine.stand? engine.shared

theorem start_orderly (settings : Settings) (store : CountedStore) (now : Nat) :
    (start settings store now).Orderly :=
  ⟨List.nodup_nil, nofun, nofun, nofun⟩

theorem step_orderly (wellFormed : engine.WellFormed) (h : engine.Orderly) (event : Event) :
    (engine.step event).Orderly := by
  rcases step_moved engine event with unmoved | ⟨moved, hmoved⟩
  · have stands : (engine.step event).stand? = engine.stand? := by
      funext id
      exact congrArg Slot.stand? (unmoved.slots id)
    unfold Orderly
    rw [stands, unmoved.shared]
    exact h
  · exact h.pass (fun other hother => congrArg Slot.stand? (hmoved.others other hother))
      (hmoved.move.passes (wellFormed moved))

theorem run_orderly (wellFormed : engine.WellFormed) (h : engine.Orderly) (events : List Event) :
    (engine.run events).Orderly := by
  induction events generalizing engine with
  | nil => exact h
  | cons event rest ih =>
      exact ih (step_wellFormed wellFormed event) (step_orderly wellFormed h event)

theorem step_volatile? (wellFormed : engine.WellFormed) {key : Key} {payload : Bytes}
    (present : engine.tiers.volatile? key = some payload) (event : Event) :
    (engine.step event).tiers.volatile? key = some payload := by
  rcases step_moved engine event with unmoved | ⟨moved, hmoved⟩
  · exact (congrArg (fun shared => shared.tiers.volatile? key) unmoved.shared).trans present
  · exact (hmoved.move.passes (wellFormed moved)).volatile? present

theorem run_volatile? (wellFormed : engine.WellFormed) {key : Key} {payload : Bytes}
    (present : engine.tiers.volatile? key = some payload) (events : List Event) :
    (engine.run events).tiers.volatile? key = some payload := by
  induction events generalizing engine with
  | nil => exact present
  | cons event rest ih =>
      exact ih (step_wellFormed wellFormed event) (step_volatile? wellFormed present event)

end Engine

end Outpost.Proxy
