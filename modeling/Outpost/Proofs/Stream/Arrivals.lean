import Outpost.Proofs.Stream.Source

/-!
# Bodies that arrive in time

Whether a body is read to its end by a deadline is fixed before any of it has been read: it depends
on the pauses that are still to come, and not on the times at which it is looked at, as long as
nobody looks later than there is something to find.
-/

namespace Outpost.Stream.Source

/-- Looked at now and again as soon as there is something to find, the items come to their end by
the deadline.  Who finds nothing on a poll has to look again, which a deadline that is reached
forbids. -/
def EndsBy (deadline : Nat) : Nat → List Item → Prop
  | now, [] => now ≤ deadline
  | now, .chunk _ :: rest => EndsBy deadline now rest
  | now, .hold :: rest => now < deadline ∧ EndsBy deadline now rest
  | now, .delay duration :: rest => EndsBy deadline (now + duration) rest
  | now, .timer time :: rest => EndsBy deadline (max now time) rest
  | _, .silence :: _ => False
  | _, .failure _ :: _ => False

def due (deadline now : Nat) : List Item → Nat
  | .timer time :: _ => min deadline (max now time)
  | .silence :: _ => deadline
  | _ => now

variable {deadline now next : Nat} {items rest : List Item} {received grown : Bytes}

theorem le_of_endsBy (h : EndsBy deadline now items) : now ≤ deadline := by
  induction items generalizing now with
  | nil => exact h
  | cons item rest ih =>
      cases item with
      | chunk bytes => exact ih h
      | hold => exact Nat.le_of_lt h.1
      | delay duration => exact Nat.le_trans (Nat.le_add_right now duration) (ih h)
      | timer time => exact Nat.le_trans (Nat.le_max_left now time) (ih h)
      | silence => exact h.elim
      | failure message => exact h.elim

theorem due_le (early : now ≤ deadline) : due deadline now items ≤ deadline := by
  unfold due
  split
  · exact Nat.min_le_left _ _
  · exact Nat.le_refl _
  · exact early

theorem le_due (early : now ≤ deadline) : now ≤ due deadline now items := by
  unfold due
  split
  · exact Nat.le_min.mpr ⟨early, Nat.le_max_left _ _⟩
  · exact early
  · exact Nat.le_refl _

theorem endsBy_congr (early : now < deadline) (after : now ≤ next)
    (prompt : next ≤ due deadline now items) :
    EndsBy deadline next items ↔ EndsBy deadline now items := by
  match items with
  | .timer time :: rest =>
      replace prompt : next ≤ min deadline (max now time) := prompt
      have same : max next time = max now time := by omega
      unfold EndsBy
      rw [same]
  | .silence :: rest => exact Iff.rfl
  | [] | .chunk _ :: _ | .hold :: _ | .delay _ :: _ | .failure _ :: _ =>
      have same : next = now := Nat.le_antisymm prompt after
      rw [same]

/-! ## Reading what is there -/

def Settles (deadline now : Nat) (items : List Item) (received : Bytes) :
    List Item × Bytes × Ending → Prop
  | (_, grown, .ended) =>
      grown = received ++ bytes ⟨items⟩ ∧ (EndsBy deadline now items ↔ now ≤ deadline)
  | (_, _, .failed) => ¬ EndsBy deadline now items
  | (rest, grown, .pending) =>
      grown ++ bytes ⟨rest⟩ = received ++ bytes ⟨items⟩ ∧
        (EndsBy deadline now items ↔ now < deadline ∧ EndsBy deadline now rest)

theorem drainItems_settles (deadline now : Nat) (items : List Item) (received : Bytes) :
    Settles deadline now items received (drainItems now items received) := by
  fun_induction drainItems now items received with
  | case1 received => exact ⟨by simp, Iff.rfl⟩
  | case2 bytes rest received ih =>
      revert ih
      unfold Settles
      split <;> simp [EndsBy]
  | case3 rest received => exact ⟨by simp, Iff.rfl⟩
  | case4 rest received ih => simpa [Settles, EndsBy] using ih
  | case5 duration rest received pausing =>
      refine ⟨by simp, ?_⟩
      have later : max now (now + duration) = now + duration := by omega
      simp only [EndsBy, later]
      refine ⟨fun ends => ⟨?_, ends⟩, And.right⟩
      have := le_of_endsBy ends
      omega
  | case6 time rest received passed ih =>
      simpa [Settles, EndsBy, Nat.max_eq_left passed] using ih
  | case7 time rest received coming =>
      refine ⟨rfl, ⟨fun ends => ⟨?_, ends⟩, And.right⟩⟩
      have : max now time ≤ deadline := le_of_endsBy ends
      omega
  | case8 rest received => exact ⟨by simp, by simp [EndsBy]⟩
  | case9 message rest received => exact id

theorem drainItems_progress (early : now < deadline)
    (pending : drainItems now items received = (rest, grown, .pending)) :
    rest.length < items.length ∨ now < due deadline now rest := by
  induction items generalizing received with
  | nil => cases pending
  | cons item tail ih =>
      have further (taken : drainItems now tail received = (rest, grown, .pending)) :
          rest.length < (item :: tail).length ∨ now < due deadline now rest :=
        (ih taken).imp_left Nat.lt_succ_of_lt
      unfold drainItems at pending
      cases item with
      | chunk bytes => exact (ih pending).imp_left Nat.lt_succ_of_lt
      | hold =>
          cases pending
          exact .inl (Nat.lt_succ_self _)
      | delay duration =>
          simp only at pending
          split at pending
          · exact further pending
          · cases pending
            refine .inr (Nat.lt_min.mpr ⟨early, ?_⟩)
            omega
      | timer time =>
          simp only at pending
          split at pending
          · exact further pending
          · cases pending
            refine .inr (Nat.lt_min.mpr ⟨early, ?_⟩)
            omega
      | silence =>
          cases pending
          exact .inr early
      | failure message => cases pending

end Outpost.Stream.Source
