import Mathlib.Logic.Relation
import Outpost.Proofs.Cache.Key
import Outpost.Proofs.Cache.Race
import Outpost.Proofs.Store.Overlap

/-!
# What stands behind a mark

Calls to cache lists under any keys, joining at any time, with their stages and the stages of the
files they write in any order, and with gets and puts failing in between.  A key is marked only
after its entry was seen or stored, and an entry never gives way but to another one with contents,
so that every marked key has an entry with contents in every state that is reached.
-/

namespace Outpost.Cache

open Api Store
open Store.DiskStore (Apart)

theorem Key.apart {key other : Key} (slashless : '/' ∉ key.scope.toList)
    (slashlessOther : '/' ∉ other.scope.toList) : Apart key.storageKey other.storageKey :=
  ⟨keySegments_ne_unfinishedSegments slashless slashlessOther,
    keySegments_ne_unfinishedSegments slashlessOther slashless⟩

def IsFilled (backend : Backend) : Prop :=
  ∀ key : Key, '/' ∉ key.scope.toList → backend.contents? key.storageKey ≠ some []

namespace Race

/-- What happens next among calls that share the tiers and the store. -/
inductive Moves (race : Race) : Race → Prop
  | joins {key : Key} (slashless : '/' ∉ key.scope.toList) (payload : Bytes) :
      Moves race { race with calls := race.calls ++ [.running (.start key payload)] }
  | goesOn (turn : Nat) : Moves race (race.step turn)
  | writesOn {turn items : Nat} {population : Population} {disk : DiskStore}
      {write next : DiskStore.Write} {tree : Node}
      (found : race.calls[turn]? = some (.running population))
      (stage : population.stage = .write items (.write write))
      (onDisk : race.store.backend = .disk disk)
      (step : write.step disk.tree = (tree, .next next)) :
      Moves race { race with
        store := { race.store with backend := .disk { disk with tree } }
        calls := race.calls.set turn
          (.running { population with stage := .write items (.write next) }) }
  | breaksOff {turn items : Nat} {population : Population} {disk : DiskStore}
      {write : DiskStore.Write} {tree : Node}
      (found : race.calls[turn]? = some (.running population))
      (stage : population.stage = .write items (.write write))
      (onDisk : race.store.backend = .disk disk)
      (stops : write.Stops disk.tree tree false) (error : StoreError) :
      Moves race { race with
        store := { race.store with
          backend := .disk { disk with
            tree
            pending := disk.pending.release population.key.storageKey } }
        calls := race.calls.set turn (.returned (.error (.store error))) }
  | faults (getFault putFault : Option StoreError) :
      Moves race { race with store := race.store.withFaults getFault putFault }
  | queries (key : Key) : Moves race { race with store := (queryDurable race.store key).1 }
  | turnsElsewhere {tiers : Tiers} (same : tiers.populated = race.tiers.populated) :
      Moves race { race with tiers }

def idle (store : CountedStore) : Race := ⟨.empty, store, []⟩

def Reached (store : CountedStore) (race : Race) : Prop :=
  Relation.ReflTransGen Moves (idle store) race

end Race

/-! ## What a call relies on -/

namespace Population

variable {tiers tiersAfter : Tiers} {store counted : CountedStore} {backend after : Backend}
  {population : Population} {progress : Progress}

def IsWriting (population : Population) : Prop := ∃ items work, population.stage = .write items work

structure Backed (backend : Backend) (population : Population) : Prop where
  slashless : '/' ∉ population.key.scope.toList
  seen : ∀ outcome, population.stage = .mark outcome → backend.Holds population.key.storageKey
  held : ∀ items work, population.stage = .write items work →
    Backend.Pursued population.key.storageKey backend work

theorem Backed.spared {key : Key} {isWriting : Prop} (backed : population.Backed backend)
    (slashless : '/' ∉ key.scope.toList)
    (spares : Backend.Spares key.storageKey isWriting backend after)
    (differs : population.IsWriting → isWriting → population.key.storageKey ≠ key.storageKey) :
    population.Backed after where
  slashless := backed.slashless
  seen outcome hstage :=
    spares.holds (Key.apart backed.slashless slashless) (backed.seen outcome hstage)
  held items work hstage := spares.works _ _ (differs ⟨items, work, hstage⟩)
    (Key.apart backed.slashless slashless) (backed.held items work hstage)

structure Stepped (population : Population) (tiers tiersAfter : Tiers) (before after : Backend)
    (progress : Progress) : Prop where
  spares : Backend.Spares population.key.storageKey population.IsWriting before after
  marks : ∀ key, tiersAfter.isPopulated key = true → tiers.isPopulated key = true ∨
    key = population.key ∧ after.Holds key.storageKey
  backed : ∀ stage, progress = .next stage → { population with stage }.Backed after
  alone : ∀ items work, progress = .next (.write items work) →
    ∀ other, ¬ Backend.Pursued population.key.storageKey before other

theorem Stepped.of_afterPut {items : Nat} {result : Except StoreError Unit}
    (slashless : '/' ∉ population.key.scope.toList)
    (spares : Backend.Spares population.key.storageKey population.IsWriting backend after)
    (landed : result = .ok () → after.Holds population.key.storageKey) :
    population.Stepped tiers tiers backend after (afterPut items result) where
  spares := spares
  marks _ := .inl
  backed stage h := by
    cases result with
    | error error => cases h
    | ok done =>
        cases h
        exact ⟨slashless, fun _ _ => landed rfl, nofun⟩
  alone _ _ h := by cases result <;> cases h

theorem Stepped.of_rest (slashless : '/' ∉ population.key.scope.toList) (sound : backend.Sound)
    (quiet : ∀ stage, progress = .next stage →
      (∀ items work, stage ≠ .write items work) ∧
        ∀ outcome, stage = .mark outcome → backend.Holds population.key.storageKey) :
    population.Stepped tiers tiers backend backend progress where
  spares := .refl sound _ _
  marks _ := .inl
  backed stage h :=
    ⟨slashless, (quiet stage h).2, fun _ _ other => absurd other ((quiet stage h).1 _ _)⟩
  alone items work h := absurd rfl ((quiet _ h).1 items work)

theorem isPopulated_markPopulated {key other : Key}
    (h : (tiers.markPopulated key).isPopulated other = true) :
    tiers.isPopulated other = true ∨ other = key := by
  unfold Tiers.markPopulated at h
  split at h
  · exact .inl h
  · unfold Tiers.isPopulated at h ⊢
    simpa [or_comm] using h

theorem stepped (backed : population.Backed store.backend) (sound : store.backend.Sound)
    (filled : store.backend.contents? population.key.storageKey ≠ some [])
    (h : population.step tiers store = (tiersAfter, counted, progress)) :
    population.Stepped tiers tiersAfter store.backend counted.backend progress := by
  have slashless := backed.slashless
  unfold step at h
  cases hstage : population.stage with
  | check =>
      simp only [hstage] at h
      split at h <;> cases h
      · exact .of_rest slashless sound nofun
      · refine .of_rest slashless sound ?_
        rintro stage ⟨⟩
        exact ⟨nofun, nofun⟩
  | lookUp =>
      rcases hget : store.get population.key.storageKey with ⟨looked, found⟩
      have same : looked.backend = store.backend := by
        cases hget
        rfl
      simp only [hstage, hget] at h
      split at h
      · rename_i contents
        cases h
        have present := CountedStore.contents?_of_get (congrArg Prod.snd hget)
        rw [same]
        refine .of_rest slashless sound ?_
        rintro stage ⟨⟩
        exact ⟨nofun, fun _ _ => ⟨contents, fun empty => filled (empty ▸ present), present⟩⟩
      · split at h <;> cases h <;> rw [same]
        · refine .of_rest slashless sound ?_
          rintro stage ⟨⟩
          exact ⟨nofun, nofun⟩
        · exact .of_rest slashless sound nofun
  | decode =>
      simp only [hstage] at h
      split at h <;> cases h
      · refine .of_rest slashless sound ?_
        rintro stage ⟨⟩
        exact ⟨nofun, nofun⟩
      · exact .of_rest slashless sound nofun
  | put list =>
      rcases hput : store.beginPut population.key.storageKey list.encode with ⟨begun, rest⟩
      simp only [hstage, hput] at h
      rcases CountedStore.backend_of_beginPut hput with ⟨same, error, rfl⟩ | begins
      · cases h
        rw [same]
        exact .of_afterPut slashless (.refl sound _ _) nofun
      · obtain ⟨spares, landed, owed⟩ := Backend.beginPut_spares
          population.IsWriting sound (encode_ne_nil list) begins
        cases rest with
        | inl result =>
            cases h
            exact .of_afterPut slashless spares fun settled => landed (congrArg Sum.inl settled)
        | inr work =>
            cases h
            obtain ⟨pursued, free⟩ := owed work rfl
            refine ⟨spares, fun _ => .inl, ?_, fun _ _ _ => free⟩
            rintro stage ⟨⟩
            refine ⟨slashless, nofun, ?_⟩
            rintro items other ⟨⟩
            exact pursued
  | write items work =>
      rcases hput : store.finishPut population.key.storageKey work with ⟨written, result⟩
      simp only [hstage, hput] at h
      cases h
      obtain ⟨spares, landed⟩ := Backend.finishPut_spares sound
        (⟨items, work, hstage⟩ : population.IsWriting) (backed.held items work hstage)
        (CountedStore.backend_of_finishPut hput)
      exact .of_afterPut slashless spares landed
  | mark outcome =>
      simp only [hstage] at h
      cases h
      refine ⟨.refl sound _ _, fun key marked => ?_, nofun, nofun⟩
      refine (isPopulated_markPopulated marked).imp_right ?_
      rintro rfl
      exact ⟨rfl, backed.seen outcome hstage⟩

end Population

/-! ## What all calls together rely on -/

namespace Race

variable {race after : Race} {turn : Nat} {population : Population}

/-- The marks of a state and its calls can be relied on. -/
structure Truthful (race : Race) : Prop where
  sound : race.store.backend.Sound
  filled : IsFilled race.store.backend
  marks : ∀ key, race.tiers.isPopulated key = true →
    '/' ∉ key.scope.toList ∧ race.store.backend.Holds key.storageKey
  calls : ∀ (turn : Nat) (population : Population),
    race.calls[turn]? = some (.running population) → population.Backed race.store.backend
  alone : ∀ (first second : Nat) (population rival : Population),
    race.calls[first]? = some (.running population) →
    race.calls[second]? = some (.running rival) → population.IsWriting → rival.IsWriting →
    population.key.storageKey = rival.key.storageKey → first = second

structure Continues (population : Population) (before after : Backend) (call : Call) : Prop where
  backed : ∀ next, call = .running next → next.Backed after
  writes : ∀ next, call = .running next → next.IsWriting → next.key = population.key ∧
    (population.IsWriting ∨
      ∀ other, ¬ Backend.Pursued population.key.storageKey before other)

section Turns

variable {tiers : Tiers} {store : CountedStore} {call : Call} (h : race.Truthful)
  (found : race.calls[turn]? = some (.running population))
  (continues : Continues population race.store.backend store.backend call)

include h found continues

theorem Truthful.alone_set {first second : Nat} {one two : Population}
    (hfirst : (race.calls.set turn call)[first]? = some (.running one))
    (hsecond : (race.calls.set turn call)[second]? = some (.running two))
    (writing : one.IsWriting) (writingToo : two.IsWriting)
    (same : one.key.storageKey = two.key.storageKey) : first = second := by
  obtain ⟨bound, -⟩ := List.getElem?_eq_some_iff.mp found
  have single : ∀ (other : Nat) (rival next : Population), other ≠ turn → call = .running next →
      race.calls[other]? = some (.running rival) → next.IsWriting → rival.IsWriting →
      next.key.storageKey ≠ rival.key.storageKey := by
    intro other rival next differs hcall there writing rivalWriting same
    obtain ⟨own, before⟩ := continues.writes next hcall writing
    rw [own] at same
    rcases before with already | free
    · exact differs (h.alone turn other population rival found there already rivalWriting same).symm
    · obtain ⟨items, work, hstage⟩ := rivalWriting
      exact free work (same ▸ (h.calls other rival there).held items work hstage)
  rw [List.getElem?_set] at hfirst hsecond
  split at hfirst <;> split at hsecond
  · rename_i left right
    exact left.symm.trans right
  · rename_i left right
    exact absurd same
      (single second two one (Ne.symm right) (Option.some.inj hfirst) hsecond writing writingToo)
  · rename_i left right
    exact absurd same.symm
      (single first one two (Ne.symm left) (Option.some.inj hsecond) hfirst writingToo writing)
  · exact h.alone first second one two hfirst hsecond writing writingToo same

/-- One call has its turn, and the store changes as a put under its key changes it. -/
theorem Truthful.set
    (spares : Backend.Spares population.key.storageKey population.IsWriting race.store.backend
      store.backend)
    (marks : ∀ key, tiers.isPopulated key = true → race.tiers.isPopulated key = true ∨
      key = population.key ∧ store.backend.Holds key.storageKey) :
    Truthful ⟨tiers, store, race.calls.set turn call⟩ := by
  have slashless := (h.calls turn population found).slashless
  obtain ⟨bound, -⟩ := List.getElem?_eq_some_iff.mp found
  refine ⟨spares.sound, fun key flat => ?_, fun key marked => ?_, fun other rival there => ?_,
    fun first second one two => h.alone_set found continues⟩
  · exact spares.ne_empty (Key.apart flat slashless) (h.filled key flat)
  · rcases marks key marked with before | ⟨rfl, holds⟩
    · obtain ⟨flat, holds⟩ := h.marks key before
      exact ⟨flat, spares.holds (Key.apart flat slashless) holds⟩
    · exact ⟨slashless, holds⟩
  · rw [List.getElem?_set] at there
    split at there
    · exact continues.backed rival (Option.some.inj there)
    · rename_i differs
      exact (h.calls other rival there).spared slashless spares fun rivalWriting writing same =>
        differs (h.alone other turn rival population there found rivalWriting writing same).symm

end Turns

theorem Truthful.step (h : race.Truthful) (turn : Nat) : (race.step turn).Truthful := by
  unfold Race.step
  split
  · rename_i population found
    rcases hstep : population.step race.tiers race.store with ⟨tiers, store, progress⟩
    have backed := h.calls turn population found
    have stepped := Population.stepped backed h.sound (h.filled _ backed.slashless) hstep
    refine h.set found ⟨fun next hnext => ?_, fun next hnext writing => ?_⟩ stepped.spares
      stepped.marks
    · cases progress with
      | next stage =>
          cases hnext
          exact stepped.backed stage rfl
      | finished result => cases hnext
    · cases progress with
      | next stage =>
          cases hnext
          obtain ⟨items, work, hstage⟩ := writing
          cases hstage
          exact ⟨rfl, .inr (stepped.alone items work rfl)⟩
      | finished result => cases hnext
  · exact h

theorem Truthful.join (h : race.Truthful) {key : Key} (slashless : '/' ∉ key.scope.toList)
    (payload : Bytes) :
    Truthful { race with calls := race.calls ++ [.running (.start key payload)] } := by
  have either : ∀ (turn : Nat) (population : Population),
      (race.calls ++ [.running (.start key payload)])[turn]? = some (.running population) →
      race.calls[turn]? = some (.running population) ∨ population = .start key payload := by
    intro turn population found
    rw [List.getElem?_append] at found
    split at found
    · exact .inl found
    · cases List.mem_singleton.mp (List.mem_of_getElem? found)
      exact .inr rfl
  have idle : ¬ (Population.start key payload).IsWriting := by
    rintro ⟨items, work, hstage⟩
    cases hstage
  refine ⟨h.sound, h.filled, h.marks, fun turn population found => ?_,
    fun first second one two hfirst hsecond writing writingToo => ?_⟩
  · rcases either turn population found with old | rfl
    · exact h.calls turn population old
    · exact ⟨slashless, nofun, nofun⟩
  · rcases either first one hfirst with old | rfl
    · rcases either second two hsecond with oldToo | rfl
      · exact h.alone first second one two old oldToo writing writingToo
      · exact absurd writingToo idle
    · exact absurd writing idle

section Writes

variable {items : Nat} {disk : DiskStore} {write next : DiskStore.Write} {tree : Node}
  (h : race.Truthful) (found : race.calls[turn]? = some (.running population))
  (stage : population.stage = .write items (.write write))
  (onDisk : race.store.backend = .disk disk)

include h found stage onDisk

theorem Truthful.pursues : disk.Sound ∧ write.Pursues disk population.key.storageKey := by
  have pursued := (h.calls turn population found).held items _ stage
  have sound := h.sound
  rw [onDisk] at pursued sound
  cases pursued with
  | write pursues => exact ⟨sound, pursues⟩

end Writes

variable {store : CountedStore}

theorem Reached.run (reached : Reached store race) (schedule : List Nat) :
    Reached store (race.run schedule) := by
  induction schedule generalizing race with
  | nil => exact reached
  | cons turn rest ih => exact ih (reached.tail (.goesOn turn))

end Race

end Outpost.Cache
