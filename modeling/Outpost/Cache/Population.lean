import Outpost.Cache.Error
import Outpost.Cache.Tiers
import Outpost.Store.Counted

/-!
# Populating the durable tier

A list payload is cached once: if the key is known to be populated, or the store already holds
it, nothing is written.  Otherwise the payload is read, the items of other query classes are
dropped, and what is left is put into the store.  A population goes through its stages one at a
time, so that several of them can overlap.
-/

namespace Outpost.Cache

open Api Store

inductive Outcome where
  | stored (items : Nat)
  | alreadyCached
  deriving DecidableEq, Repr

def typeLabel : String := "type"

def retains (queryClass : QueryClass) (item : Object) : Bool :=
  match queryClass.retainedType? with
  | none => true
  | some wanted => item.label? typeLabel == some wanted

def snapshot (key : Key) (payload : Bytes) : Except ListError ObjectList :=
  (ObjectList.decode key.kind payload).map fun list => list.retain (retains key.queryClass)

namespace Population

inductive Stage where
  | check
  | lookUp
  | decode
  | put (list : ObjectList)
  | write (items : Nat) (work : DiskStore.Work)
  | mark (outcome : Outcome)

def Stage.remaining : Stage → Nat
  | .check => 6
  | .lookUp => 5
  | .decode => 4
  | .put _ => 3
  | .write _ _ => 2
  | .mark _ => 1

inductive Progress where
  | next (stage : Stage)
  | finished (result : Except CacheError Outcome)

end Population

structure Population where
  key : Key
  payload : Bytes
  stage : Population.Stage

namespace Population

def start (key : Key) (payload : Bytes) : Population := ⟨key, payload, .check⟩

def afterPut (items : Nat) : Except StoreError Unit → Progress
  | .ok _ => .next (.mark (.stored items))
  | .error error => .finished (.error (.store error))

def step (tiers : Tiers) (store : CountedStore) (population : Population) :
    Tiers × CountedStore × Progress :=
  let key := population.key
  match population.stage with
  | .check =>
      (tiers, store,
        if tiers.isPopulated key then .finished (.ok .alreadyCached) else .next .lookUp)
  | .lookUp =>
      let (counted, found) := store.get key.storageKey
      (tiers, counted,
        match found with
        | .ok _ => .next (.mark .alreadyCached)
        | .error error =>
            if error.isNotFound then .next .decode else .finished (.error (.store error)))
  | .decode =>
      (tiers, store,
        match snapshot key population.payload with
        | .ok list => .next (.put list)
        | .error error => .finished (.error (.list error)))
  | .put list =>
      let (begun, rest) := store.beginPut key.storageKey list.encode
      (tiers, begun,
        match rest with
        | .inl result => afterPut list.items.length result
        | .inr work => .next (.write list.items.length work))
  | .write items work =>
      let (written, result) := store.finishPut key.storageKey work
      (tiers, written, afterPut items result)
  | .mark outcome => (tiers.markPopulated key, store, .finished (.ok outcome))

theorem remaining_of_afterPut {items : Nat} {result : Except StoreError Unit} {stage : Stage}
    (h : afterPut items result = .next stage) : stage.remaining = 1 := by
  cases result <;> cases h
  rfl

theorem step_remaining {tiers after : Tiers} {store counted : CountedStore}
    {population : Population} {next : Stage}
    (h : population.step tiers store = (after, counted, .next next)) :
    next.remaining < population.stage.remaining := by
  unfold step at h
  simp only at h
  split at h <;> rename_i hstage <;> rw [hstage] <;> simp only [Prod.mk.injEq] at h <;>
    obtain ⟨-, -, h⟩ := h
  · split at h <;> cases h
    decide
  · split at h
    · cases h
      decide
    · split at h <;> cases h
      decide
  · split at h <;> cases h
    exact Nat.lt_succ_self 3
  · split at h
    · rw [remaining_of_afterPut h]
      exact (by decide : 1 < 3)
    · cases h
      exact Nat.lt_succ_self 2
  · rw [remaining_of_afterPut h]
    exact Nat.lt_succ_self 1
  · cases h

def run (tiers : Tiers) (store : CountedStore) (population : Population) :
    Tiers × CountedStore × Except CacheError Outcome :=
  match h : population.step tiers store with
  | (after, counted, .finished result) => (after, counted, result)
  | (after, counted, .next stage) =>
      have := step_remaining h
      run after counted { population with stage }
termination_by population.stage.remaining

end Population

def cacheList (tiers : Tiers) (store : CountedStore) (key : Key) (payload : Bytes) :
    Tiers × CountedStore × Except CacheError Outcome :=
  (Population.start key payload).run tiers store

def queryDurable (store : CountedStore) (key : Key) :
    CountedStore × Except CacheError Bytes :=
  let (counted, found) := store.get key.storageKey
  (counted, found.mapError .store)

end Outpost.Cache
