import Outpost.Cache.Tiers

/-!
# The tiers as maps

The volatile tier and the open gates, looked up by key, and what an insertion and a look for a
gate do to either look-up.
-/

namespace Outpost.Cache.Tiers

variable {tiers after : Tiers} {key other : Key} {payload : Bytes}

def openGate? (tiers : Tiers) (key : Key) : Option Nat :=
  (tiers.gates.find? fun gate => gate.1 == key).map (·.2)

theorem volatile?_congr (h : after.volatile = tiers.volatile) (key : Key) :
    after.volatile? key = tiers.volatile? key := by
  unfold volatile?
  rw [h]

theorem openGate?_congr (h : after.gates = tiers.gates) (key : Key) :
    after.openGate? key = tiers.openGate? key := by
  unfold openGate?
  rw [h]

@[simp] theorem volatile?_empty (key : Key) : empty.volatile? key = none := rfl

@[simp] theorem markPopulated_volatile (tiers : Tiers) (key : Key) :
    (tiers.markPopulated key).volatile = tiers.volatile := by
  unfold markPopulated
  split <;> rfl

@[simp] theorem markPopulated_gates (tiers : Tiers) (key : Key) :
    (tiers.markPopulated key).gates = tiers.gates := by
  unfold markPopulated
  split <;> rfl

/-! ## Insertion -/

theorem volatile?_insertVolatile (other : Key) :
    (tiers.insertVolatile key payload).1.volatile? other =
      if other = key then (tiers.volatile? key).or (some payload) else tiers.volatile? other := by
  unfold insertVolatile
  split
  · rename_i present
    obtain ⟨kept, hkept⟩ := Option.isSome_iff_exists.mp present
    split
    · rename_i same
      rw [same, hkept]
      exact hkept
    · rfl
  · rename_i absent
    have hnone : tiers.volatile? key = none := by simpa using absent
    have grown : Tiers.volatile? { tiers with
        gates := tiers.gates.filter fun gate => gate.1 ≠ key
        volatile := tiers.volatile ++ [(key, payload)] } other =
        (tiers.volatile? other).or (if key = other then some payload else none) := by
      unfold volatile?
      rw [List.find?_append, Option.map_or]
      by_cases h : key = other <;> simp [h]
    rw [grown]
    by_cases same : other = key
    · rw [if_pos same, if_pos same.symm, same, hnone]
    · rw [if_neg same, if_neg (Ne.symm same), Option.or_none]

theorem volatile?_of_insertVolatile {bytes : Bytes}
    (h : (tiers.insertVolatile key payload).1.volatile? other = some bytes) :
    tiers.volatile? other = some bytes ∨ other = key ∧ bytes = payload := by
  rw [volatile?_insertVolatile] at h
  split at h
  · rename_i same
    subst same
    cases hbefore : tiers.volatile? other with
    | some before =>
        rw [hbefore] at h
        exact .inl h
    | none =>
        rw [hbefore] at h
        cases h
        exact .inr ⟨rfl, rfl⟩
  · exact .inl h

theorem openGate?_insertVolatile (other : Key) :
    (tiers.insertVolatile key payload).1.openGate? other =
      if other = key then none else tiers.openGate? other := by
  have gates : (tiers.insertVolatile key payload).1.gates =
      tiers.gates.filter fun gate => gate.1 ≠ key := by
    unfold insertVolatile
    split <;> rfl
  unfold openGate?
  rw [gates, List.find?_filter]
  split
  · rename_i same
    subst same
    simp
  · rename_i differs
    congr 2
    funext gate
    by_cases h : gate.1 = other <;> simp [h, differs]

/-! ## Looking for a gate -/

theorem gate?_snd_eq_none_iff : (tiers.gate? key).2 = none ↔ (tiers.volatile? key).isSome := by
  unfold gate?
  split
  · simp_all
  · split <;> simp_all

theorem gate?_fst_of_none (h : (tiers.gate? key).2 = none) : (tiers.gate? key).1 = tiers := by
  unfold gate?
  rw [if_pos (gate?_snd_eq_none_iff.mp h)]

section Found

variable {gate : Nat} (h : tiers.gate? key = (after, some gate))

include h

theorem volatile?_of_gate? : tiers.volatile? key = none := by
  cases present : tiers.volatile? key with
  | none => rfl
  | some payload =>
      have closed := gate?_snd_eq_none_iff.mpr (Option.isSome_iff_exists.mpr ⟨payload, present⟩)
      rw [h] at closed
      cases closed

/-- A look for a gate opens one if there is none, and changes nothing else. -/
theorem gate?_cases :
    tiers.openGate? key = some gate ∧ after = tiers ∨
      tiers.openGate? key = none ∧ gate = tiers.nextGate ∧
        after = { tiers with
          gates := tiers.gates ++ [(key, gate)]
          nextGate := tiers.nextGate + 1 } := by
  have absent := volatile?_of_gate? h
  unfold gate? at h
  rw [absent] at h
  simp only [Option.isSome_none, Bool.false_eq_true, if_false] at h
  unfold openGate?
  split at h
  · rename_i found
    rw [found]
    cases h
    exact .inl ⟨rfl, rfl⟩
  · rename_i missing
    rw [missing]
    cases h
    exact .inr ⟨rfl, rfl, rfl⟩

theorem volatile?_after_gate? (other : Key) : after.volatile? other = tiers.volatile? other := by
  rcases gate?_cases h with ⟨-, rfl⟩ | ⟨-, -, rfl⟩ <;> rfl

theorem openGate?_of_gate? (other : Key) :
    after.openGate? other = if other = key then some gate else tiers.openGate? other := by
  rcases gate?_cases h with ⟨found, rfl⟩ | ⟨missing, -, rfl⟩
  · split
    · rename_i same
      rw [same, found]
    · rfl
  · have grown : openGate? { tiers with
        gates := tiers.gates ++ [(key, gate)]
        nextGate := tiers.nextGate + 1 } other =
        (tiers.openGate? other).or (if key = other then some gate else none) := by
      unfold openGate?
      rw [List.find?_append, Option.map_or]
      by_cases h : key = other <;> simp [h]
    rw [grown]
    by_cases same : other = key
    · rw [if_pos same, if_pos same.symm, same, missing, Option.none_or]
    · rw [if_neg same, if_neg (Ne.symm same), Option.or_none]

theorem eq_of_openGate? {found : Nat} (hfound : tiers.openGate? key = some found) :
    found = gate := by
  rcases gate?_cases h with ⟨same, -⟩ | ⟨missing, -⟩
  · exact Option.some.inj (hfound.symm.trans same)
  · cases hfound.symm.trans missing

end Found

theorem volatile?_fst_gate? (other : Key) :
    (tiers.gate? key).1.volatile? other = tiers.volatile? other := by
  rcases h : tiers.gate? key with ⟨after, - | gate⟩
  · have same := gate?_fst_of_none (congrArg Prod.snd h)
    rw [h] at same
    rw [same]
  · exact volatile?_after_gate? h other

/-! ## The keys that have a gate -/

def gated (tiers : Tiers) : List Key := tiers.gates.map (·.1)

theorem mem_gated_iff : key ∈ tiers.gated ↔ (tiers.openGate? key).isSome := by
  unfold gated openGate?
  simp

theorem gated_insertVolatile :
    (tiers.insertVolatile key payload).1.gated = tiers.gated.filter (· ≠ key) := by
  have gates : (tiers.insertVolatile key payload).1.gates =
      tiers.gates.filter fun gate => gate.1 ≠ key := by
    unfold insertVolatile
    split <;> rfl
  unfold gated
  rw [gates, List.filter_map]
  rfl

/-- A look for a gate adds its key, unless it is there already or has an entry. -/
theorem gated_gate? : (tiers.gate? key).1.gated =
    if key ∈ tiers.gated ∨ (tiers.volatile? key).isSome then tiers.gated
    else tiers.gated ++ [key] := by
  rcases h : tiers.gate? key with ⟨after, - | gate⟩
  · have present := gate?_snd_eq_none_iff.mp (congrArg Prod.snd h)
    have same : after = tiers := by
      have same := gate?_fst_of_none (congrArg Prod.snd h)
      rwa [h] at same
    rw [if_pos (.inr present), same]
  · have absent := volatile?_of_gate? h
    rcases gate?_cases h with ⟨found, rfl⟩ | ⟨missing, -, rfl⟩
    · rw [if_pos (.inl (mem_gated_iff.mpr (by rw [found]; rfl)))]
    · rw [if_neg (by simp [mem_gated_iff, missing, absent])]
      exact List.map_append

theorem mem_gated_gate? : other ∈ (tiers.gate? key).1.gated ↔
    other ∈ tiers.gated ∨ other = key ∧ tiers.volatile? key = none := by
  have held : key ∈ tiers.gated ∨ (tiers.volatile? key).isSome →
      (other = key ∧ tiers.volatile? key = none → other ∈ tiers.gated) := by
    rintro (there | present) ⟨rfl, absent⟩
    · exact there
    · rw [absent] at present
      cases present
  rw [gated_gate?]
  split
  · rename_i known
    exact (or_iff_left_of_imp (held known)).symm
  · rename_i new
    rw [not_or, Option.not_isSome_iff_eq_none] at new
    rw [List.mem_append, List.mem_singleton, and_iff_left new.2]

theorem nodup_gated_gate? (h : tiers.gated.Nodup) : (tiers.gate? key).1.gated.Nodup := by
  rw [gated_gate?]
  split
  · exact h
  · rename_i new
    refine List.nodup_append.mpr ⟨h, by simp, fun first there last isLast => ?_⟩
    rw [List.mem_singleton.mp isLast]
    rintro rfl
    exact new (.inl there)

end Outpost.Cache.Tiers
