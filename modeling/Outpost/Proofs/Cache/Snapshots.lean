import Outpost.Proofs.Cache.Population
import Outpost.Proofs.Store.Entries

/-!
# What populations put

A population puts nothing into the store but what is cached of its payload, and only under its own
key.
-/

namespace Outpost.Cache

open Api Store

theorem snapshot_eq_ok_iff {key : Key} {payload : Bytes} {list : ObjectList} :
    snapshot key payload = .ok list ↔ ∃ whole, ObjectList.decode key.kind payload = .ok whole ∧
      list = whole.retain (retains key.queryClass) := by
  unfold snapshot
  cases ObjectList.decode key.kind payload with
  | error error => exact ⟨nofun, nofun⟩
  | ok whole =>
      constructor
      · rintro ⟨⟩
        exact ⟨whole, rfl, rfl⟩
      · rintro ⟨_, ⟨⟩, rfl⟩
        rfl

/-- The contents are what is cached of the payload. -/
def IsSnapshot (key : Key) (payload contents : Bytes) : Prop :=
  ∃ list, snapshot key payload = .ok list ∧ contents = list.encode

namespace Population

structure Prepared (base? : Option Path) (population : Population) : Prop where
  put : ∀ list, population.stage = .put list →
    snapshot population.key population.payload = .ok list
  write : ∀ items work, population.stage = .write items work →
    ∃ contents, IsSnapshot population.key population.payload contents ∧
      Backend.OwesContents base? population.key.storageKey contents work

theorem start_prepared (base? : Option Path) (key : Key) (payload : Bytes) :
    (start key payload).Prepared base? where
  put := nofun
  write := nofun

structure Leads (population : Population) (before after : Backend) (progress : Progress) :
    Prop where
  sound : after.Sound
  base : after.base? = before.base?
  prepared : ∀ stage, progress = .next stage →
    Prepared before.base? { population with stage }
  entries : ∀ other contents,
    keySegments other ≠ DiskStore.unfinishedSegments population.key.storageKey →
    after.contents? other = some contents →
    before.contents? other = some contents ∨
      other = population.key.storageKey ∧
        IsSnapshot population.key population.payload contents

section Steps

variable {tiers tiersAfter : Tiers} {store counted : CountedStore} {population : Population}
  {progress : Progress}

theorem Leads.spared (sound : store.backend.Sound) (same : counted.backend = store.backend)
    (prepared : ∀ stage, progress = .next stage →
      Prepared store.backend.base? { population with stage }) :
    population.Leads store.backend counted.backend progress where
  sound := same ▸ sound
  base := congrArg Backend.base? same
  prepared := prepared
  entries _ _ _ present := .inl (same ▸ present)

theorem prepared_afterPut (base? : Option Path) (items : Nat) (result : Except StoreError Unit)
    (stage : Stage) (h : afterPut items result = .next stage) :
    Prepared base? { population with stage } := by
  cases result <;> cases h
  exact ⟨nofun, nofun⟩

theorem leads_put (sound : store.backend.Sound) {list : ObjectList}
    (cached : snapshot population.key population.payload = .ok list) :
    population.Leads store.backend
      (store.beginPut population.key.storageKey list.encode).1.backend
      (match (store.beginPut population.key.storageKey list.encode).2 with
        | .inl result => afterPut list.items.length result
        | .inr work => .next (.write list.items.length work)) := by
  have holds := encode_ne_nil list
  rcases h : store.beginPut population.key.storageKey list.encode with ⟨counted, rest⟩
  rcases CountedStore.backend_of_beginPut h with ⟨same, error, rfl⟩ | begins
  · exact .spared sound same (prepared_afterPut _ _ _)
  obtain ⟨soundAfter, base, -⟩ := Backend.beginPut_cases sound holds begins
  refine ⟨soundAfter, base, fun stage hstage => ?_, fun other contents _ present => ?_⟩
  · cases rest with
    | inl result => exact prepared_afterPut _ _ _ stage hstage
    | inr work =>
        cases hstage
        refine ⟨nofun, ?_⟩
        rintro _ _ ⟨⟩
        exact ⟨list.encode, ⟨list, cached, rfl⟩, Backend.owes_of_beginPut holds begins⟩
  · refine (Backend.contents?_of_beginPut holds begins present).imp_right ?_
    rintro ⟨own, rfl⟩
    exact ⟨own, list, cached, rfl⟩

theorem leads_write (sound : store.backend.Sound) {items : Nat} {work : DiskStore.Work}
    {contents : Bytes} (cached : IsSnapshot population.key population.payload contents)
    (owes : Backend.OwesContents store.backend.base? population.key.storageKey contents work)
    {result : Except StoreError Unit}
    (h : store.finishPut population.key.storageKey work = (counted, result)) :
    population.Leads store.backend counted.backend (afterPut items result) := by
  obtain ⟨soundAfter, base, entries⟩ :=
    Backend.contents?_of_finishPut sound owes (CountedStore.backend_of_finishPut h)
  refine ⟨soundAfter, base, prepared_afterPut _ _ _, fun other contents apart present => ?_⟩
  refine (entries other contents apart present).imp_right ?_
  rintro ⟨own, rfl⟩
  exact ⟨own, cached⟩

theorem step_leads (sound : store.backend.Sound)
    (prepared : population.Prepared store.backend.base?)
    (h : population.step tiers store = (tiersAfter, counted, progress)) :
    population.Leads store.backend counted.backend progress := by
  unfold step at h
  cases hstage : population.stage with
  | check =>
      simp only [hstage] at h
      split at h <;> cases h
      · exact .spared sound rfl nofun
      · refine .spared sound rfl ?_
        rintro _ ⟨⟩
        exact ⟨nofun, nofun⟩
  | lookUp =>
      simp only [hstage] at h
      cases h
      refine .spared sound rfl ?_
      split
      · rintro _ ⟨⟩
        exact ⟨nofun, nofun⟩
      · split <;> rintro _ ⟨⟩
        exact ⟨nofun, nofun⟩
  | decode =>
      simp only [hstage] at h
      split at h <;> cases h
      · rename_i list cached
        refine .spared sound rfl ?_
        rintro _ ⟨⟩
        refine ⟨?_, nofun⟩
        rintro _ ⟨⟩
        exact cached
      · exact .spared sound rfl nofun
  | put list =>
      simp only [hstage] at h
      cases h
      exact leads_put sound (prepared.put list hstage)
  | write items work =>
      rcases hput : store.finishPut population.key.storageKey work with ⟨written, result⟩
      simp only [hstage, hput] at h
      cases h
      obtain ⟨contents, cached, owes⟩ := prepared.write items work hstage
      exact leads_write sound cached owes hput
  | mark outcome =>
      simp only [hstage] at h
      cases h
      exact .spared sound rfl nofun

theorem step_backend (h : population.step tiers store = (tiersAfter, counted, progress)) :
    counted.backend = store.backend ∨
      Backend.PutsUnder population.key.storageKey store.backend counted.backend := by
  unfold step at h
  simp only at h
  split at h
  · cases h
    exact .inl rfl
  · cases h
    exact .inl rfl
  · cases h
    exact .inl rfl
  · rename_i list putting
    cases h
    rcases hput : store.beginPut population.key.storageKey list.encode with ⟨begun, rest⟩
    rcases CountedStore.backend_of_beginPut hput with ⟨same, -⟩ | begins
    · exact .inl same
    · refine .inr ?_
      have put : Backend.PutsUnder population.key.storageKey store.backend _ := .begins list.encode
      rwa [begins] at put
  · rename_i items work writing
    cases h
    rcases hput : store.finishPut population.key.storageKey work with ⟨written, result⟩
    have ends := CountedStore.backend_of_finishPut hput
    have put : Backend.PutsUnder population.key.storageKey store.backend _ := .ends work
    rw [ends] at put
    exact .inr put
  · cases h
    exact .inl rfl

theorem step_contents? (sound : store.backend.Sound)
    (prepared : population.Prepared store.backend.base?)
    (h : population.step tiers store = (tiersAfter, counted, progress)) {other : String}
    (differs : other ≠ population.key.storageKey)
    (apart : keySegments other ≠ DiskStore.unfinishedSegments population.key.storageKey) :
    counted.backend.contents? other = store.backend.contents? other := by
  unfold step at h
  simp only at h
  split at h
  · cases h
    rfl
  · cases h
    rfl
  · cases h
    rfl
  · rename_i list putting
    cases h
    rcases hput : store.beginPut population.key.storageKey list.encode with ⟨begun, rest⟩
    rcases CountedStore.backend_of_beginPut hput with ⟨same, -⟩ | begins
    · exact congrArg (Backend.contents? · other) same
    · exact Backend.contents?_beginPut_of_ne differs (encode_ne_nil list) begins
  · rename_i items work writing
    cases h
    rcases hput : store.finishPut population.key.storageKey work with ⟨written, result⟩
    obtain ⟨contents, -, owes⟩ := prepared.write items work writing
    exact Backend.contents?_finishPut_of_ne differs sound owes
      (CountedStore.backend_of_finishPut hput) apart
  · cases h
    rfl

end Steps

end Population

end Outpost.Cache
