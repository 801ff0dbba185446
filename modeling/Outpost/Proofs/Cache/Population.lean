import Outpost.Cache.Population
import Outpost.Proofs.Cache.Tiers

/-!
# Steps of a population

What a stage of a population does to the tiers and to the store.
-/

namespace Outpost.Cache

open Api Store

theorem encode_ne_nil (list : ObjectList) : list.encode ≠ [] := by
  unfold ObjectList.encode ObjectList.toValue Json.Value.render
  exact List.cons_ne_nil _ _

namespace Population

theorem step_tiers (tiers : Tiers) (store : CountedStore) (population : Population) :
    (population.step tiers store).1 = tiers ∨
      (population.step tiers store).1 = tiers.markPopulated population.key := by
  unfold step
  simp only
  split
  · exact .inl rfl
  · exact .inl rfl
  · exact .inl rfl
  · split <;> exact .inl rfl
  · exact .inl rfl
  · exact .inr rfl

theorem step_volatile? (tiers : Tiers) (store : CountedStore) (population : Population)
    (key : Key) : (population.step tiers store).1.volatile? key = tiers.volatile? key := by
  refine Tiers.volatile?_congr ?_ key
  rcases step_tiers tiers store population with same | marked
  · rw [same]
  · rw [marked, Tiers.markPopulated_volatile]

theorem step_openGate? (tiers : Tiers) (store : CountedStore) (population : Population)
    (key : Key) : (population.step tiers store).1.openGate? key = tiers.openGate? key := by
  refine Tiers.openGate?_congr ?_ key
  rcases step_tiers tiers store population with same | marked
  · rw [same]
  · rw [marked, Tiers.markPopulated_gates]

end Population

end Outpost.Cache
