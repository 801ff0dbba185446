import Outpost.Text

/-!
# Pending keys

Keys with a write under way.  A key is refused while a pending one equals it or lies above or
below it as a path.
-/

namespace Outpost.Store

/-- Whether one key, as a path, lies above another: it is a shorter beginning of it, and a slash
comes next. -/
def isParent (parent child : String) : Bool :=
  let above := Bytes.ofText parent
  let below := Bytes.ofText child
  above.length < below.length && above.isPrefixOf below && below[above.length]? == some 0x2F

def collides (first second : String) : Bool :=
  first == second || isParent first second || isParent second first

structure PendingKeys where
  keys : List String
  deriving DecidableEq, Repr, Inhabited

namespace PendingKeys

def empty : PendingKeys := ⟨[]⟩

/-- Adds a key, unless it collides with a pending one. -/
def acquire? (pending : PendingKeys) (key : String) : Option PendingKeys :=
  if pending.keys.any fun other => collides other key then none
  else some ⟨pending.keys ++ [key]⟩

def release (pending : PendingKeys) (key : String) : PendingKeys :=
  ⟨pending.keys.filter (· ≠ key)⟩

theorem acquire?_eq_some_iff {pending after : PendingKeys} {key : String} :
    pending.acquire? key = some after ↔
      (∀ other ∈ pending.keys, collides other key = false) ∧
        after = ⟨pending.keys ++ [key]⟩ := by
  unfold acquire?
  split
  · rename_i h
    simp only [List.any_eq_true] at h
    obtain ⟨other, hother, hcollides⟩ := h
    constructor
    · intro hnone
      cases hnone
    · rintro ⟨hall, -⟩
      rw [hall other hother] at hcollides
      cases hcollides
  · rename_i h
    simp only [List.any_eq_true, not_exists, not_and, Bool.not_eq_true] at h
    constructor
    · intro hsome
      exact ⟨h, (Option.some.inj hsome).symm⟩
    · rintro ⟨-, rfl⟩
      rfl

end PendingKeys

end Outpost.Store
