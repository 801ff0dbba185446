import Mathlib.Data.List.Induction
import Outpost.Proofs.Cache.Population
import Outpost.Proofs.Store.Backend

/-!
# Calls that race to populate a key

Several calls to cache a list under one key, whose stages are interleaved in any order.  What a
call does to the durable entry depends on the phase it is in: only the end of its put makes an
entry, and it comes to a put only if its look-up met with none.
-/

namespace Outpost.Cache

open Api Store

/-! ## Phases of a call -/

/-- A call to cache a list, under way or over. -/
inductive Call where
  | running (population : Population)
  | returned (result : Except CacheError Outcome)

inductive Phase where
  | seeking
  | missed
  | stored
  | spared
  deriving DecidableEq, Repr

def Population.Stage.phase : Population.Stage → Phase
  | .check | .lookUp => .seeking
  | .decode | .put _ | .write _ _ => .missed
  | .mark (.stored _) => .stored
  | .mark .alreadyCached => .spared

namespace Call

def after (population : Population) : Population.Progress → Call
  | .next stage => .running { population with stage }
  | .finished result => .returned result

def phase : Call → Phase
  | .running population => population.stage.phase
  | .returned (.ok (.stored _)) => .stored
  | .returned _ => .spared

def answer? : Call → Option (Except CacheError Outcome)
  | .running _ => none
  | .returned result => some result

def IsFor (key : Key) (base? : Option Path) : Call → Prop
  | .running population => population.key = key ∧
      ∀ items work, population.stage = .write items work →
        Backend.Owes base? key.storageKey work
  | .returned _ => True

end Call

/-- What a step can do to the entry of the key, and to the phase of the call that makes it. -/
inductive Turn (before after : Option Bytes) : Phase → Phase → Prop where
  | rests (phase : Phase) (same : after = before) : Turn before after phase phase
  | misses (absent : before = none) (same : after = before) : Turn before after .seeking .missed
  | lands (present : after.isSome) : Turn before after .missed .stored
  | givesUp {phase : Phase} (unstored : phase ≠ .stored) (same : after = before) :
      Turn before after phase .spared

namespace Population

variable {tiers tiersAfter : Tiers} {store counted : CountedStore} {population : Population}
  {key : Key} {progress : Progress}

theorem turn_afterPut {items : Nat} {result : Except StoreError Unit} {before after : Option Bytes}
    (ended : result = .ok () ∧ after.isSome ∨ (∃ error, result = .error error) ∧ after = before) :
    Turn before after .missed (Call.after population (afterPut items result)).phase := by
  rcases ended with ⟨rfl, present⟩ | ⟨⟨error, rfl⟩, same⟩
  · exact .lands present
  · exact .givesUp nofun same

theorem isFor_afterPut {base? : Option Path} (items : Nat) (result : Except StoreError Unit) :
    (Call.after population (afterPut items result)).IsFor population.key base? := by
  cases result with
  | ok _ => exact ⟨rfl, nofun⟩
  | error error => trivial

theorem step_turn (faithful : store.Faithful)
    (isFor : (Call.running population).IsFor key store.backend.base?)
    (h : population.step tiers store = (tiersAfter, counted, progress)) :
    counted.Faithful ∧ counted.backend.base? = store.backend.base? ∧
      (Call.after population progress).IsFor key store.backend.base? ∧
      Turn (store.backend.contents? key.storageKey) (counted.backend.contents? key.storageKey)
        (Call.running population).phase (Call.after population progress).phase := by
  obtain ⟨rfl, owes⟩ := isFor
  unfold step at h
  change _ ∧ _ ∧ _ ∧ Turn _ _ population.stage.phase _
  cases hstage : population.stage with
  | check =>
      simp only [hstage] at h
      split at h <;> cases h
      · exact ⟨faithful, rfl, trivial, .givesUp nofun rfl⟩
      · exact ⟨faithful, rfl, ⟨rfl, nofun⟩, .rests _ rfl⟩
  | lookUp =>
      simp only [hstage, CountedStore.get_snd faithful] at h
      have counts : (store.get population.key.storageKey).1.Faithful :=
        ⟨faithful.sound, faithful.answers⟩
      split at h
      · cases h
        exact ⟨counts, rfl, ⟨rfl, nofun⟩, .givesUp nofun rfl⟩
      · rename_i error found
        have absent : store.backend.contents? population.key.storageKey = none := by
          unfold Backend.contents?
          rw [found]
          rfl
        split at h <;> cases h
        · exact ⟨counts, rfl, ⟨rfl, nofun⟩, .misses absent rfl⟩
        · exact ⟨counts, rfl, trivial, .givesUp nofun rfl⟩
  | decode =>
      simp only [hstage] at h
      split at h <;> cases h
      · exact ⟨faithful, rfl, ⟨rfl, nofun⟩, .rests _ rfl⟩
      · exact ⟨faithful, rfl, trivial, .givesUp nofun rfl⟩
  | put list =>
      rcases hput : store.beginPut population.key.storageKey list.encode with ⟨begun, rest⟩
      simp only [hstage, hput] at h
      obtain ⟨begunFaithful, base, outcome⟩ :=
        CountedStore.beginPut_cases faithful (encode_ne_nil list) hput
      rcases outcome with ⟨rfl, present⟩ | ⟨⟨error, rfl⟩, same⟩ | ⟨⟨work, rfl, owed⟩, same⟩
      · cases h
        exact ⟨begunFaithful, base, isFor_afterPut _ _, turn_afterPut (.inl ⟨rfl, present⟩)⟩
      · cases h
        exact ⟨begunFaithful, base, isFor_afterPut _ _, turn_afterPut (.inr ⟨⟨error, rfl⟩, same⟩)⟩
      · cases h
        refine ⟨begunFaithful, base, ⟨rfl, ?_⟩, .rests _ same⟩
        intro items other hother
        cases hother
        exact owed
  | write items work =>
      rcases hput : store.finishPut population.key.storageKey work with ⟨written, result⟩
      simp only [hstage, hput] at h
      obtain ⟨writtenFaithful, base, ended⟩ :=
        CountedStore.finishPut_cases faithful (owes items work hstage) hput
      cases h
      exact ⟨writtenFaithful, base, isFor_afterPut _ _, turn_afterPut ended⟩
  | mark outcome =>
      simp only [hstage] at h
      cases h
      refine ⟨faithful, rfl, trivial, ?_⟩
      cases outcome <;> exact .rests _ rfl

theorem answers_stored_iff (tiers : Tiers) (store : CountedStore) (population : Population) :
    (∃ items, (Call.after population (population.step tiers store).2.2).answer? =
      some (.ok (.stored items))) ↔ population.stage.phase = .stored := by
  have afterPut_running : ∀ items result other,
      (Call.after population (afterPut items result)).answer? ≠ some (.ok (.stored other)) := by
    intro items result other h
    cases result <;> cases h
  unfold step
  cases population.stage with
  | mark outcome =>
      cases outcome with
      | stored items => exact ⟨fun _ => rfl, fun _ => ⟨items, rfl⟩⟩
      | alreadyCached =>
          refine ⟨?_, fun h => by cases h⟩
          rintro ⟨items, h⟩
          cases h
  | check =>
      refine ⟨?_, fun h => by cases h⟩
      rintro ⟨items, h⟩
      simp only at h
      split at h <;> cases h
  | lookUp =>
      refine ⟨?_, fun h => by cases h⟩
      rintro ⟨items, h⟩
      simp only at h
      split at h
      · cases h
      · split at h <;> cases h
  | decode =>
      refine ⟨?_, fun h => by cases h⟩
      rintro ⟨items, h⟩
      simp only at h
      split at h <;> cases h
  | put list =>
      refine ⟨?_, fun h => by cases h⟩
      rintro ⟨items, h⟩
      simp only at h
      split at h
      · exact absurd h (afterPut_running _ _ _)
      · cases h
  | write items work =>
      refine ⟨?_, fun h => by cases h⟩
      rintro ⟨other, h⟩
      exact absurd h (afterPut_running _ _ _)

end Population

/-! ## Races -/

structure Race where
  tiers : Tiers
  store : CountedStore
  calls : List Call

namespace Race

def start (tiers : Tiers) (store : CountedStore) (key : Key) (payloads : List Bytes) : Race :=
  ⟨tiers, store, payloads.map fun payload => .running (.start key payload)⟩

def step (race : Race) (turn : Nat) : Race :=
  match race.calls[turn]? with
  | some (.running population) =>
      let (tiers, store, progress) := population.step race.tiers race.store
      ⟨tiers, store, race.calls.set turn (.after population progress)⟩
  | _ => race

def run (race : Race) (schedule : List Nat) : Race := schedule.foldl step race

def phase? (race : Race) (call : Nat) : Option Phase := (race.calls[call]?).map Call.phase

def answer? (race : Race) (call : Nat) : Option (Except CacheError Outcome) :=
  (race.calls[call]?).bind Call.answer?

def AnswersStored (race : Race) (call : Nat) : Prop :=
  ∃ items, (race.step call).answer? call = some (.ok (.stored items))

def durable? (race : Race) (key : Key) : Option Bytes := race.store.backend.contents? key.storageKey

structure IsFor (key : Key) (race : Race) : Prop where
  faithful : race.store.Faithful
  calls : ∀ call ∈ race.calls, call.IsFor key race.store.backend.base?

variable {race : Race} {key : Key}

theorem run_append (race : Race) (first second : List Nat) :
    race.run (first ++ second) = (race.run first).run second := List.foldl_append

theorem run_snoc (race : Race) (schedule : List Nat) (turn : Nat) :
    race.run (schedule ++ [turn]) = (race.run schedule).step turn := run_append race schedule [turn]

theorem answersStored_iff {call : Nat} :
    race.AnswersStored call ↔ race.phase? call = some .stored := by
  unfold AnswersStored phase? answer? step
  cases found : race.calls[call]? with
  | none =>
      simp only [found]
      refine ⟨?_, fun h => by cases h⟩
      rintro ⟨items, h⟩
      cases h
  | some made =>
      obtain ⟨bound, -⟩ := List.getElem?_eq_some_iff.mp found
      cases made with
      | running population =>
          simp only [List.getElem?_set_self bound, Option.bind_some, Option.map_some,
            Option.some.injEq]
          exact population.answers_stored_iff race.tiers race.store
      | returned result =>
          simp only [found, Option.bind_some, Option.map_some, Option.some.injEq]
          constructor
          · rintro ⟨items, h⟩
            cases h
            rfl
          · intro h
            cases result with
            | error error => cases h
            | ok outcome =>
                cases outcome with
                | stored items => exact ⟨items, rfl⟩
                | alreadyCached => cases h

theorem phase?_start (tiers : Tiers) (store : CountedStore) (payloads : List Bytes) (call : Nat)
    {phase : Phase} (h : (start tiers store key payloads).phase? call = some phase) :
    phase = .seeking := by
  unfold phase? start at h
  rw [List.getElem?_map, Option.map_map] at h
  obtain ⟨payload, -, rfl⟩ := Option.map_eq_some_iff.mp h
  rfl

theorem start_isFor {tiers : Tiers} {store : CountedStore} (faithful : store.Faithful)
    (payloads : List Bytes) : (start tiers store key payloads).IsFor key := by
  refine ⟨faithful, fun call hcall => ?_⟩
  obtain ⟨payload, -, rfl⟩ := List.mem_map.mp hcall
  exact ⟨rfl, nofun⟩

theorem step_cases (isFor : race.IsFor key) (turn : Nat) :
    (race.step turn).IsFor key ∧
      (race.step turn = race ∨
        (∀ call, call ≠ turn → (race.step turn).phase? call = race.phase? call) ∧
          ∃ before after, race.phase? turn = some before ∧
            (race.step turn).phase? turn = some after ∧
            Turn (race.durable? key) ((race.step turn).durable? key) before after) := by
  unfold step
  split
  · rename_i population found
    obtain ⟨bound, here⟩ := List.getElem?_eq_some_iff.mp found
    have own := isFor.calls _ (List.mem_of_getElem? found)
    rcases hstep : population.step race.tiers race.store with ⟨tiers, store, progress⟩
    obtain ⟨faithful, base, ownAfter, effect⟩ := Population.step_turn isFor.faithful own hstep
    refine ⟨⟨faithful, ?_⟩, .inr ⟨?_, _, _, ?_, ?_, effect⟩⟩
    · intro call hcall
      simp only [base]
      rcases List.mem_or_eq_of_mem_set hcall with there | rfl
      · exact isFor.calls call there
      · exact ownAfter
    · intro call differs
      unfold phase?
      rw [List.getElem?_set_ne (Ne.symm differs)]
    · unfold phase?
      rw [found]
      rfl
    · unfold phase?
      rw [List.getElem?_set_self bound]
      rfl
  · exact ⟨isFor, .inl rfl⟩

theorem run_isFor (isFor : race.IsFor key) (schedule : List Nat) :
    (race.run schedule).IsFor key := by
  induction schedule generalizing race with
  | nil => exact isFor
  | cons turn rest ih => exact ih (step_cases isFor turn).1

theorem step_phase? (isFor : race.IsFor key) (turn call : Nat) :
    (race.step turn).phase? call = race.phase? call ∨
      call = turn ∧ ∃ before after, race.phase? call = some before ∧
        (race.step turn).phase? call = some after ∧
        Turn (race.durable? key) ((race.step turn).durable? key) before after := by
  rcases (step_cases isFor turn).2 with same | ⟨others, own⟩
  · exact .inl (by rw [same])
  · by_cases differs : call = turn
    · subst differs
      exact .inr ⟨rfl, own⟩
    · exact .inl (others call differs)

theorem stored_step (isFor : race.IsFor key) (turn call : Nat)
    (h : (race.step turn).phase? call = some .stored) :
    race.phase? call = some .stored ∨
      call = turn ∧ race.phase? call = some .missed ∧
        ((race.step turn).durable? key).isSome := by
  rcases step_phase? isFor turn call with same | ⟨own, before, after, hbefore, hafter, effect⟩
  · exact .inl (same.symm.trans h)
  · cases hafter.symm.trans h
    cases effect with
    | rests => exact .inl hbefore
    | lands present => exact .inr ⟨own, hbefore, present⟩

theorem stored_of_step (isFor : race.IsFor key) (turn : Nat) {call : Nat}
    (h : race.phase? call = some .stored) : (race.step turn).phase? call = some .stored := by
  rcases step_phase? isFor turn call with same | ⟨own, before, after, hbefore, hafter, effect⟩
  · exact same.trans h
  · cases hbefore.symm.trans h
    cases effect with
    | rests => exact hafter
    | givesUp unstored => exact absurd rfl unstored

theorem missed_step (isFor : race.IsFor key) (turn call : Nat)
    (h : (race.step turn).phase? call = some .missed) :
    race.phase? call = some .missed ∨ (race.step turn).durable? key = none := by
  rcases step_phase? isFor turn call with same | ⟨own, before, after, hbefore, hafter, effect⟩
  · exact .inl (same.symm.trans h)
  · cases hafter.symm.trans h
    cases effect with
    | rests => exact .inl hbefore
    | misses absent same => exact .inr (same.trans absent)

theorem durable?_step (isFor : race.IsFor key) (turn : Nat) :
    (race.step turn).durable? key = race.durable? key ∨
      race.phase? turn = some .missed ∧ (race.step turn).phase? turn = some .stored ∧
        ((race.step turn).durable? key).isSome := by
  rcases (step_cases isFor turn).2 with same | ⟨others, before, after, hbefore, hafter, effect⟩
  · exact .inl (by rw [same])
  · cases effect with
    | rests phase same => exact .inl same
    | misses absent same => exact .inl same
    | lands present => exact .inr ⟨hbefore, hafter, present⟩
    | givesUp unstored same => exact .inl same

/-! ## What has happened in a run -/

def IsFresh (race : Race) : Prop := ∀ call phase, race.phase? call = some phase → phase = .seeking

variable {early late schedule : List Nat} {call : Nat}

theorem stored_later (isFor : race.IsFor key) (h : early <+: late)
    (stored : (race.run early).phase? call = some .stored) :
    (race.run late).phase? call = some .stored := by
  obtain ⟨rest, rfl⟩ := h
  induction rest using List.reverseRecOn with
  | nil => rwa [List.append_nil]
  | append_singleton rest turn ih =>
      rw [← List.append_assoc, run_snoc]
      exact stored_of_step (run_isFor isFor _) turn ih

theorem isSome_of_stored (isFor : race.IsFor key) (fresh : race.IsFresh)
    (stored : (race.run schedule).phase? call = some .stored) :
    ((race.run schedule).durable? key).isSome := by
  induction schedule using List.reverseRecOn with
  | nil => cases fresh call .stored stored
  | append_singleton before turn ih =>
      rw [run_snoc] at stored ⊢
      have isForBefore := run_isFor isFor before
      rcases stored_step isForBefore turn call stored with already | ⟨-, -, present⟩
      · rcases durable?_step isForBefore turn with same | ⟨-, -, present⟩
        · rw [same]
          exact ih already
        · exact present
      · exact present

theorem missed_history (isFor : race.IsFor key) (fresh : race.IsFresh)
    (missed : (race.run schedule).phase? call = some .missed) :
    ∃ early, early <+: schedule ∧ (race.run early).phase? call = some .missed ∧
      (race.run early).durable? key = none := by
  induction schedule using List.reverseRecOn with
  | nil => cases fresh call .missed missed
  | append_singleton before turn ih =>
      have now := missed
      rw [run_snoc] at now
      rcases missed_step (run_isFor isFor before) turn call now with already | absent
      · obtain ⟨early, isPrefix, then_, absent⟩ := ih already
        exact ⟨early, isPrefix.trans (List.prefix_append _ _), then_, absent⟩
      · exact ⟨before ++ [turn], List.prefix_rfl, missed, run_snoc race before turn ▸ absent⟩

theorem stored_between (isFor : race.IsFor key) (h : early <+: late)
    (absent : (race.run early).durable? key = none)
    (present : ((race.run late).durable? key).isSome) :
    ∃ quick, (race.run late).phase? quick = some .stored := by
  obtain ⟨rest, rfl⟩ := h
  induction rest using List.reverseRecOn with
  | nil =>
      rw [List.append_nil, absent] at present
      cases present
  | append_singleton rest turn ih =>
      rw [← List.append_assoc, run_snoc] at present ⊢
      have isForBefore := run_isFor isFor (early ++ rest)
      rcases durable?_step isForBefore turn with same | ⟨-, stored, -⟩
      · rw [same] at present
        obtain ⟨quick, stored⟩ := ih present
        exact ⟨quick, stored_of_step isForBefore turn stored⟩
      · exact ⟨turn, stored⟩

/-! ## First write wins -/

/-- Once a query of the durable entry has answered, every later one answers the same; and no two
calls answer that their list is stored. -/
structure FirstWriteWins (race : Race) (key : Key) (schedule : List Nat) : Prop where
  stable : ∀ early late payload, early <+: late → late <+: schedule →
    (queryDurable (race.run early).store key).2 = .ok payload →
    (queryDurable (race.run late).store key).2 = .ok payload
  single : ∀ first second, (race.run schedule).AnswersStored first →
    (race.run schedule).AnswersStored second → first = second

/-- A call meets with no entry; before its put has ended another call stores one; and then it
stores its own. -/
def Overtaken (race : Race) (schedule : List Nat) : Prop :=
  ∃ early late slow quick, early <+: late ∧ late <+: schedule ∧
    (race.run early).phase? slow = some .missed ∧ (race.run early).phase? quick ≠ some .stored ∧
    (race.run late).phase? slow = some .missed ∧ (race.run late).phase? quick = some .stored ∧
    (race.run schedule).phase? slow = some .stored

theorem Overtaken.later (isFor : race.IsFor key) (overtaken : race.Overtaken late)
    (h : late <+: schedule) : race.Overtaken schedule := by
  obtain ⟨first, second, slow, quick, order, inside, looked, notYet, still, stored, atLast⟩ :=
    overtaken
  exact ⟨first, second, slow, quick, order, inside.trans h, looked, notYet, still, stored,
    stored_later isFor h atLast⟩

/-- A put that ends well where there is an entry was overtaken. -/
theorem overtaken_of_put (isFor : race.IsFor key) (fresh : race.IsFresh) {turn : Nat}
    (missed : (race.run schedule).phase? turn = some .missed)
    (present : ((race.run schedule).durable? key).isSome)
    (stored : ((race.run schedule).step turn).phase? turn = some .stored) :
    race.Overtaken (schedule ++ [turn]) := by
  obtain ⟨early, isPrefix, looked, absent⟩ := missed_history isFor fresh missed
  obtain ⟨quick, storedByQuick⟩ := stored_between isFor isPrefix absent present
  refine ⟨early, schedule, turn, quick, isPrefix, List.prefix_append _ _, looked, ?_, missed,
    storedByQuick, run_snoc race schedule turn ▸ stored⟩
  intro already
  have there := isSome_of_stored isFor fresh already
  rw [absent] at there
  cases there

theorem query_eq_ok_iff (isFor : race.IsFor key) {payload : Bytes} :
    (queryDurable race.store key).2 = .ok payload ↔ race.durable? key = some payload := by
  unfold queryDurable durable?
  simp only [CountedStore.get_snd isFor.faithful, Backend.contents?_eq_some_iff]
  cases race.store.backend.get key.storageKey with
  | error error => exact ⟨nofun, nofun⟩
  | ok found =>
      constructor <;>
      · intro h
        cases h
        rfl

theorem stable_of_not_overtaken (isFor : race.IsFor key) (fresh : race.IsFresh)
    (h : ¬ race.Overtaken late) (isPrefix : early <+: late) {payload : Bytes}
    (found : (race.run early).durable? key = some payload) :
    (race.run late).durable? key = some payload := by
  obtain ⟨rest, rfl⟩ := isPrefix
  induction rest using List.reverseRecOn with
  | nil => rwa [List.append_nil]
  | append_singleton rest turn ih =>
      rw [← List.append_assoc] at h ⊢
      have before := ih fun overtaken => h (overtaken.later isFor (List.prefix_append _ _))
      rw [run_snoc]
      rcases durable?_step (run_isFor isFor (early ++ rest)) turn with same | ⟨missed, stored, -⟩
      · exact same.trans before
      · exact absurd (overtaken_of_put isFor fresh missed (before ▸ rfl) stored) h

theorem single_of_not_overtaken (isFor : race.IsFor key) (fresh : race.IsFresh)
    (h : ¬ race.Overtaken schedule) {first second : Nat}
    (hfirst : (race.run schedule).phase? first = some .stored)
    (hsecond : (race.run schedule).phase? second = some .stored) : first = second := by
  induction schedule using List.reverseRecOn with
  | nil => cases fresh first .stored hfirst
  | append_singleton before turn ih =>
      have once := ih fun overtaken => h (overtaken.later isFor (List.prefix_append _ _))
      have isForBefore := run_isFor isFor before
      have alone : ∀ other, (race.run before).phase? turn = some .missed →
          ((race.run before).step turn).phase? turn = some .stored →
          (race.run before).phase? other ≠ some .stored := fun other missed stored already =>
        h (overtaken_of_put isFor fresh missed (isSome_of_stored isFor fresh already) stored)
      rw [run_snoc] at hfirst hsecond
      rcases stored_step isForBefore turn first hfirst with firstBefore | ⟨rfl, missed, -⟩
      · rcases stored_step isForBefore turn second hsecond with secondBefore | ⟨rfl, missed, -⟩
        · exact once firstBefore secondBefore
        · exact absurd firstBefore (alone first missed hsecond)
      · rcases stored_step isForBefore first second hsecond with secondBefore | ⟨rfl, -, -⟩
        · exact absurd secondBefore (alone second missed hfirst)
        · rfl

/-- The first write of a key wins just where no call is overtaken. -/
theorem start_firstWriteWins_iff (tiers : Tiers) (store : CountedStore) (key : Key)
    (payloads : List Bytes) (schedule : List Nat) (faithful : store.Faithful) :
    (start tiers store key payloads).FirstWriteWins key schedule ↔
      ¬ (start tiers store key payloads).Overtaken schedule := by
  have isFor : (start tiers store key payloads).IsFor key := start_isFor faithful payloads
  have fresh : (start tiers store key payloads).IsFresh := fun call phase found =>
    phase?_start tiers store payloads call found
  constructor
  · rintro wins ⟨early, late, slow, quick, -, inside, -, -, still, stored, atLast⟩
    have same := wins.single slow quick (answersStored_iff.mpr atLast)
      (answersStored_iff.mpr (stored_later isFor inside stored))
    rw [same, stored] at still
    cases still
  · intro h
    constructor
    · intro early late payload order inside
      rw [query_eq_ok_iff (run_isFor isFor early), query_eq_ok_iff (run_isFor isFor late)]
      exact stable_of_not_overtaken isFor fresh
        (fun overtaken => h (overtaken.later isFor inside)) order
    · intro first second hfirst hsecond
      exact single_of_not_overtaken isFor fresh h (answersStored_iff.mp hfirst)
        (answersStored_iff.mp hsecond)

/-! ## Two lists of pods -/

def onePod (name : String) : Bytes :=
  Bytes.ofText ("\x7b\"items\":[\x7b\"metadata\":\x7b\"name\":\"" ++ name ++ "\"\x7d\x7d]\x7d")

def podsKey : Key := ⟨.pods, "", .default⟩

def podsSchedule : List Nat := [0, 0, 1, 1, 0, 0, 0, 1, 1, 1]

def podsRace : Race := start .empty .inMemory podsKey [onePod "a", onePod "b"]

theorem start_firstWriteWins_iff_pods :
    CountedStore.inMemory.Faithful ∧ podsRace.Overtaken podsSchedule ∧
      ¬ podsRace.FirstWriteWins podsKey podsSchedule := by
  have faithful : CountedStore.inMemory.Faithful := ⟨trivial, rfl⟩
  have overtaken : podsRace.Overtaken podsSchedule :=
    ⟨[0, 0, 1, 1], [0, 0, 1, 1, 0, 0], 1, 0, ⟨[0, 0], rfl⟩, ⟨[0, 1, 1, 1], rfl⟩,
      by decide +kernel, by decide +kernel, by decide +kernel, by decide +kernel,
      by decide +kernel⟩
  refine ⟨faithful, overtaken, fun wins => ?_⟩
  exact (start_firstWriteWins_iff .empty .inMemory podsKey [onePod "a", onePod "b"] podsSchedule
    faithful).mp wins overtaken

theorem podsRace_second_write_wins :
    (podsRace.run (podsSchedule.take 7)).answer? 0 = some (.ok (.stored 1)) ∧
      (queryDurable (podsRace.run (podsSchedule.take 7)).store podsKey).2 = .ok (onePod "a") ∧
      (podsRace.run podsSchedule).answer? 1 = some (.ok (.stored 1)) ∧
      (queryDurable (podsRace.run podsSchedule).store podsKey).2 = .ok (onePod "b") ∧
      ¬ podsRace.FirstWriteWins podsKey podsSchedule := by
  have first : (queryDurable (podsRace.run (podsSchedule.take 7)).store podsKey).2 =
      .ok (onePod "a") := by decide +kernel
  have second : (queryDurable (podsRace.run podsSchedule).store podsKey).2 =
      .ok (onePod "b") := by decide +kernel
  refine ⟨by decide +kernel, first, by decide +kernel, second, fun wins => ?_⟩
  have early : podsSchedule.take 7 <+: podsSchedule := List.take_prefix 7 podsSchedule
  have again := wins.stable _ _ _ early List.prefix_rfl first
  rw [second] at again
  revert again
  decide +kernel

end Race

end Outpost.Cache
