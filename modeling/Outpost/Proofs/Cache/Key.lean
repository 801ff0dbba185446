import Outpost.Cache.Key
import Outpost.Proofs.Api.Request
import Outpost.Proofs.Store.Isolation

/-!
# The paths of cached lists

The entry of a key lies three directories deep, under the kind, the scope and the class of the
key, and is never met on the way to another entry.
-/

namespace Outpost.Cache.Key

open Api Store

def scopeSegment (key : Key) : String := if key.scope = "" then clusterScope else key.scope

def entryDirectory (key : Key) : Path := ["cache", key.kind.name, key.scopeSegment]

theorem storageKey_eq (key : Key) :
    key.storageKey = "cache" ++ "/" ++
      (key.kind.name ++ "/" ++ (key.scopeSegment ++ "/" ++ key.queryClass.name)) := by
  unfold storageKey scopeSegment
  simp only [String.append_assoc]
  rfl

/-- The scope of the key is empty or a single segment that a file system takes as a name. -/
structure IsFlat (key : Key) : Prop where
  slashless : '/' ∉ key.scope.toList
  noNul : '\x00' ∉ key.scope.toList
  short : key.scope.utf8ByteSize ≤ maxNameLength

theorem slashless_scopeSegment {key : Key} (slashless : '/' ∉ key.scope.toList) :
    '/' ∉ key.scopeSegment.toList := by
  unfold scopeSegment
  split
  · decide
  · exact slashless

theorem keySegments_storageKey {key : Key} (slashless : '/' ∉ key.scope.toList) :
    keySegments key.storageKey = key.entryDirectory ++ [key.queryClass.name] := by
  have kind : '/' ∉ key.kind.name.toList := by cases key.kind <;> decide
  have queryClass : '/' ∉ key.queryClass.name.toList := by cases key.queryClass <;> decide
  rw [storageKey_eq, keySegments_append (by decide), keySegments_append kind,
    keySegments_append (slashless_scopeSegment slashless), keySegments_of_slashless queryClass]
  rfl

theorem unfinishedSegments_storageKey {key : Key} (slashless : '/' ∉ key.scope.toList) :
    DiskStore.unfinishedSegments key.storageKey =
      key.entryDirectory ++ [unfinishedMark ++ key.queryClass.name] := by
  unfold DiskStore.unfinishedSegments
  rw [keySegments_storageKey slashless, List.dropLast_concat, List.getLast?_concat]
  rfl

theorem isUnfinished_queryClass (queryClass : QueryClass) :
    isUnfinished queryClass.name = false := by
  cases queryClass <;> decide

theorem queryClass_name_injective {first second : QueryClass} (same : first.name = second.name) :
    first = second := by
  cases first <;> cases second <;> first | rfl | exact absurd same (by decide)

section Segments

variable {key other : Key} (slashless : '/' ∉ key.scope.toList)

include slashless

theorem length_keySegments : (keySegments key.storageKey).length = 4 := by
  rw [keySegments_storageKey slashless]
  rfl

theorem length_unfinishedSegments : (DiskStore.unfinishedSegments key.storageKey).length = 4 := by
  rw [unfinishedSegments_storageKey slashless]
  rfl

/-- Keys that share an entry differ in no more than the way they name the whole cluster. -/
theorem kind_and_class_of_storageKey (slashlessOther : '/' ∉ other.scope.toList)
    (same : key.storageKey = other.storageKey) :
    key.kind = other.kind ∧ key.queryClass = other.queryClass := by
  have segments := congrArg keySegments same
  rw [keySegments_storageKey slashless, keySegments_storageKey slashlessOther] at segments
  obtain ⟨directories, names⟩ := List.append_inj' segments rfl
  have kinds := congrArg ResourceKind.ofName?
    (List.cons.inj (List.cons.inj directories).2).1
  rw [ResourceKind.ofName?_name, ResourceKind.ofName?_name] at kinds
  exact ⟨Option.some.inj kinds, queryClass_name_injective (List.cons.inj names).1⟩

theorem keySegments_ne_unfinishedSegments (slashlessOther : '/' ∉ other.scope.toList) :
    keySegments key.storageKey ≠ DiskStore.unfinishedSegments other.storageKey := by
  rw [keySegments_storageKey slashless, unfinishedSegments_storageKey slashlessOther]
  intro same
  have last := List.singleton_inj.mp (List.append_inj' same rfl).2
  have marked := DiskStore.isUnfinished_append other.queryClass.name
  rw [← last, isUnfinished_queryClass] at marked
  cases marked

end Segments

/-- The keys of requests are named by segments of their paths. -/
theorem slashless_of_ofRequest? {method : Http.Method} {target : Http.Target} {key : Key}
    (h : ofRequest? (RequestInfo.classify method target) = some key) :
    '/' ∉ key.scope.toList := by
  unfold ofRequest? at h
  obtain ⟨kind, -, h⟩ := Option.bind_eq_some_iff.mp h
  obtain ⟨queryClass, -, h⟩ := Option.bind_eq_some_iff.mp h
  cases h
  exact RequestInfo.slashless_scope method target

theorem policy_of_ofRequest? {info : RequestInfo} {key : Key} (h : ofRequest? info = some key) :
    QueryClass.ofPolicy? info.policy = some key.queryClass := by
  unfold ofRequest? at h
  obtain ⟨kind, -, h⟩ := Option.bind_eq_some_iff.mp h
  obtain ⟨queryClass, policy, h⟩ := Option.bind_eq_some_iff.mp h
  cases h
  exact policy

/-! ## What the system takes -/

/-- The longest path that is used for the key is not too long. -/
def FitsBelow (base : Path) (key : Key) : Prop :=
  pathLength (base ++ DiskStore.unfinishedSegments key.storageKey) < maxPathLength

section Fits

variable {key : Key} {base : Path} (flat : key.IsFlat)

include flat

theorem fits_scopeSegment : key.scopeSegment.utf8ByteSize ≤ maxNameLength ∧
    '\x00' ∉ key.scopeSegment.toList := by
  unfold scopeSegment
  split
  · exact ⟨by decide, by decide⟩
  · exact ⟨flat.short, flat.noNul⟩

theorem FitsBelow.of_base (short : pathLength base + 291 < maxPathLength) :
    FitsBelow base key := by
  have kind : key.kind.name.utf8ByteSize ≤ 10 := by cases key.kind <;> decide
  have last : (unfinishedMark ++ key.queryClass.name).utf8ByteSize ≤ 17 := by
    cases key.queryClass <;> decide
  have scope := (fits_scopeSegment flat).1
  have cache : "cache".utf8ByteSize = 5 := by decide
  have longest : maxNameLength = 255 := rfl
  unfold FitsBelow
  rw [unfinishedSegments_storageKey flat.slashless, pathLength_append]
  unfold pathLength at short ⊢
  simp only [entryDirectory, List.cons_append, List.nil_append, List.foldl_cons, List.foldl_nil]
  omega

variable (fits : Fits base) (room : FitsBelow base key)

include fits room

theorem fits_unfinished : Fits (base ++ DiskStore.unfinishedSegments key.storageKey) where
  length := room
  names := by
    have kind : key.kind.name.utf8ByteSize ≤ maxNameLength := by cases key.kind <;> decide
    have last : (unfinishedMark ++ key.queryClass.name).utf8ByteSize ≤ maxNameLength := by
      cases key.queryClass <;> decide
    rw [unfinishedSegments_storageKey flat.slashless, List.forall_mem_append]
    simp only [entryDirectory, List.cons_append, List.nil_append, List.forall_mem_cons]
    exact ⟨fits.names, by decide, kind, (fits_scopeSegment flat).1, last, List.forall_mem_nil _⟩
  noNul := by
    have kind : '\x00' ∉ key.kind.name.toList := by cases key.kind <;> decide
    have last : '\x00' ∉ (unfinishedMark ++ key.queryClass.name).toList := by
      cases key.queryClass <;> decide
    rw [unfinishedSegments_storageKey flat.slashless, List.any_append, fits.noNul]
    simp only [entryDirectory, List.cons_append, List.nil_append, List.any_cons, List.any_nil,
      List.contains_eq_mem, decide_eq_false kind, decide_eq_false (fits_scopeSegment flat).2,
      decide_eq_false last]
    decide

theorem fits_storageKey : Fits (base ++ keySegments key.storageKey) := by
  have fits := fits_unfinished flat fits room
  rw [unfinishedSegments_storageKey flat.slashless, ← List.append_assoc] at fits
  rw [keySegments_storageKey flat.slashless, ← List.append_assoc]
  exact fits.of_append

end Fits

end Outpost.Cache.Key
