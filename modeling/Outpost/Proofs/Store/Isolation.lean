import Outpost.Proofs.Store.Recovery

/-!
# Isolation of keys

Keys and unfinished files share the directories of a store.  A put therefore takes the entry of
one other key away, the one that names the unfinished file of the put, and an opening takes all
entries away whose last segment begins like the name of an unfinished file.  All other entries
are left alone, but those above or below the key of a put.
-/

namespace Outpost.Store.DiskStore

variable {tree : Node} {base path : Path} {store : DiskStore} {first second : String}
  {value held : Bytes}

/-- The segments of the file that the contents for a key are written to before they are moved. -/
def unfinishedSegments (key : String) : List String :=
  (keySegments key).dropLast ++ [unfinishedMark ++ (keySegments key).getLast?.getD ""]

theorem unfinished_writeFor (base : Path) (key : String) (value : Bytes) :
    (writeFor base key value).unfinished = base ++ unfinishedSegments key := by
  have some := keySegments_ne_nil key
  unfold Write.unfinished Write.parent writeFor unfinishedSegments
  simp only
  rw [List.dropLast_append_of_ne_nil some, List.getLast?_append, List.append_assoc,
    List.getLast?_eq_some_getLast some]
  rfl

theorem grown_of_ended {before after : Node} {moved : Bool} {rest : List String}
    (ended : Write.Ended base before after (writeFor base first value) moved)
    (notTarget : rest ≠ keySegments first) (notUnfinished : rest ≠ unfinishedSegments first) :
    Grown (writeFor base first value).parent before after (base ++ rest) := by
  refine ended.elsewhere _ (fun same => ?_) fun same => ?_
  · rw [unfinished_writeFor] at same
    exact notUnfinished (List.append_cancel_left same)
  · exact notTarget (List.append_cancel_left same)

theorem grown_makeKeyOnly (clear : Clear tree path) (plain : IsPlain path) (other : Path) :
    Grown path tree (makeKeyOnly tree path).1 other := by
  have grown := grown_makeDirectories clear plain other
  unfold makeKeyOnly
  split
  · split <;> exact .refl _ _ _
  · split
    · rename_i made done h
      rwa [h] at grown
    · rename_i made error h
      rwa [h] at grown
  · exact .refl _ _ _

/-! ## Puts -/

theorem put_of_conflict (valid : validateKey first = .ok ())
    (busy : store.pending.acquire? first = none) (value : Bytes) :
    (store.put first value).1 = store := by
  unfold put begin
  rw [valid, busy]
  rfl

theorem put_of_free (valid : validateKey first = .ok ()) {held : PendingKeys}
    (free : store.pending.acquire? first = some held) (value : Bytes) :
    store.put first value =
      ({ store with
          tree := (if value = [] then makeKeyOnly store.tree (store.pathOf first)
            else (writeFor store.base first value).run store.tree).1
          pending := held.release first },
        (if value = [] then makeKeyOnly store.tree (store.pathOf first)
          else (writeFor store.base first value).run store.tree).2) := by
  unfold put begin
  rw [valid, free]
  by_cases holds : value = []
  · simp only [holds, if_true]
    rfl
  · simp only [holds, if_false]
    rfl

section Apart

variable (sound : store.Sound) (valid : validateKey first = .ok ())
  (apart : first ≠ second)
  (holds : store.get second = .ok held)

include sound valid holds

theorem surfaceAt?_run_unfinished (value : Bytes)
    (same : keySegments second = unfinishedSegments first) :
    ((writeFor store.base first value).run store.tree).1.surfaceAt? (store.pathOf second) =
      none := by
  obtain ⟨above, name, aims⟩ := aims_writeFor sound valid value
  obtain ⟨validSecond, fits, found⟩ := (get_eq_ok_iff sound).mp holds
  have path : store.pathOf second = (writeFor store.base first value).unfinished := by
    rw [unfinished_writeFor, ← same]
    rfl
  rw [path] at fits found ⊢
  exact (Write.run_clears aims (underway_writeFor sound first value) fits
    (Write.unhindered_of_file rfl found)).1

include apart

/-- A put leaves the entry of another key, unless this key names the unfinished file of the put. -/
theorem get_put_iff (value : Bytes) : (store.put first value).1.get second = .ok held ↔
    ¬ (keySegments second = unfinishedSegments first ∧ value ≠ [] ∧
      (store.pending.acquire? first).isSome) := by
  cases free : store.pending.acquire? first with
  | none =>
      rw [put_of_conflict valid free]
      exact ⟨fun _ => nofun, fun _ => holds⟩
  | some pending =>
      rw [put_of_free valid free]
      by_cases empty : value = []
      · simp only [if_pos empty]
        have clear : Clear store.tree (store.pathOf first) :=
          sound.unlinked.clear (List.prefix_append _ _)
        have grown := grown_makeKeyOnly clear (sound.isPlain valid)
        have soundAfter : Sound { store with
            tree := (makeKeyOnly store.tree (store.pathOf first)).1
            pending := pending.release first } := ⟨sound.unlinked.grown grown, sound.plain⟩
        have same := (grown (store.pathOf second)).leafAt?_eq
        exact ⟨fun _ other => other.2.1 empty,
          fun _ => (get_congr sound soundAfter rfl same).mpr holds⟩
      · simp only [if_neg empty]
        have ended := ended_writeFor sound valid value
        have soundAfter : Sound { store with
            tree := ((writeFor store.base first value).run store.tree).1
            pending := pending.release first } := ⟨ended.unlinked, sound.plain⟩
        by_cases same : keySegments second = unfinishedSegments first
        · have gone := surfaceAt?_run_unfinished sound valid holds value same
          refine ⟨fun still => ?_, fun other => absurd ⟨same, empty, rfl⟩ other⟩
          have found := ((get_eq_ok_iff soundAfter).mp still).2.2
          cases gone.symm.trans (Node.surfaceAt?_of_get? found)
        · have differ : keySegments second ≠ keySegments first :=
            fun path => apart (keySegments_injective path).symm
          have kept := (grown_of_ended ended differ same).leafAt?_eq
          exact ⟨fun _ hit => same hit.1,
            fun _ => (get_congr sound soundAfter rfl kept).mpr holds⟩

end Apart

/-! ## Openings -/

section Openings

variable {key : String} (sound : store.Sound) (distinct : store.tree.Distinct)
  (some : store.base ≠ [])

include sound distinct

theorem opened_of_get (holds : store.get key = .ok held) : Opened store.tree store.base := by
  obtain ⟨-, fits, found⟩ := (get_eq_ok_iff sound).mp holds
  have seen : store.tree.surfaceAt? (store.pathOf key) ≠ none := by
    rw [Node.surfaceAt?_of_get? found]
    nofun
  have there := Node.surfaceAt?_above seen (keySegments_ne_nil key)
  exact ⟨sound.unlinked, distinct, sound.plain, fits.upTo (List.prefix_append _ _), there⟩

include some

/-- An opening leaves an entry, unless its last segment begins like the name of an unfinished
file. -/
theorem get_open?_iff (holds : store.get key = .ok held) :
    ∃ reopened, open? store.tree store.base = (reopened.tree, .ok reopened) ∧
      (reopened.get key = .ok held ↔ (keySegments key).getLast?.any isUnfinished = false) := by
  have opened := opened_of_get sound distinct holds
  obtain ⟨valid, fits, found⟩ := (get_eq_ok_iff sound).mp holds
  have soundAfter : Sound ⟨recovered store.tree store.base, store.base, .empty⟩ :=
    ⟨opened.recovered.unlinked, sound.plain⟩
  have last : (store.pathOf key).getLast? = (keySegments key).getLast? := by
    unfold pathOf
    rw [List.getLast?_append, List.getLast?_eq_some_getLast (keySegments_ne_nil key)]
    rfl
  refine ⟨⟨recovered store.tree store.base, store.base, .empty⟩, open?_of_opened opened some, ?_⟩
  rw [get_eq_ok_iff soundAfter]
  change _ ∧ Fits (store.pathOf key) ∧
    (recovered store.tree store.base).get? (store.pathOf key) = .some (.file held) ↔ _
  rw [← Node.surfaceAt?_eq_leaf_iff rfl, surfaceAt?_recovered opened,
    Node.surfaceAt?_of_get? found, Option.filter_eq_some_iff, ← last]
  have below : store.base.isPrefixOf (store.pathOf key) = true :=
    List.isPrefixOf_iff_prefix.mpr (List.prefix_append _ _)
  unfold isLeftover
  rw [below]
  constructor
  · rintro ⟨-, -, -, kept⟩
    simpa [Node.isFile] using kept
  · intro kept
    rw [kept]
    exact ⟨valid, fits, rfl, rfl⟩

end Openings

/-- What takes an entry away, of the puts under other keys and the openings: a put whose unfinished
file is where the entry is, and any opening if the entry looks like an unfinished file.  As for
`recover`, the paths below the base directory are ones that the system takes. -/
theorem entry_survives_iff (sound : store.Sound) (distinct : store.tree.Distinct)
    (some : store.base ≠ []) (valid : validateKey first = .ok ()) (apart : first ≠ second)
    (holds : store.get second = .ok held) :
    (∀ value, (store.put first value).1.get second = .ok held ↔
      ¬ (keySegments second = unfinishedSegments first ∧ value ≠ [] ∧
        (store.pending.acquire? first).isSome)) ∧
    ∃ reopened, open? store.tree store.base = (reopened.tree, .ok reopened) ∧
      (reopened.get second = .ok held ↔
        (keySegments second).getLast?.any isUnfinished = false) :=
  ⟨get_put_iff sound valid apart holds, get_open?_iff sound distinct some holds⟩

/-! ### An entry that looks like an unfinished file -/

def oneEntry : DiskStore :=
  ⟨.directory [("data", .directory [("a", .directory [("tmp_b", .file [120])])])], ["data"], .empty⟩

theorem oneEntry_sound : oneEntry.Sound where
  unlinked := .of_linkless rfl _
  plain := by decide

theorem oneEntry_distinct : oneEntry.tree.Distinct := by
  simp [oneEntry, Node.Distinct, Node.DistinctEntries]

theorem oneEntry_get : oneEntry.get "a/tmp_b" = .ok [120] :=
  (get_eq_ok_iff oneEntry_sound).mpr
    ⟨validateKey_of_segments (by decide) (by decide), ⟨by decide, by decide, by decide⟩, rfl⟩

theorem entry_survives_iff_oneEntry :
    oneEntry.Sound ∧ oneEntry.tree.Distinct ∧ oneEntry.base ≠ [] ∧ validateKey "a/b" = .ok () ∧
      "a/b" ≠ "a/tmp_b" ∧ oneEntry.get "a/tmp_b" = .ok [120] ∧
      ∀ value, (oneEntry.put "a/b" value).1.get "a/tmp_b" = .ok [120] ↔ value = [] := by
  have valid : validateKey "a/b" = .ok () := validateKey_of_segments (by decide) (by decide)
  have survives := entry_survives_iff oneEntry_sound oneEntry_distinct (by decide) valid
    (by decide) oneEntry_get
  refine ⟨oneEntry_sound, oneEntry_distinct, by decide, valid, by decide, oneEntry_get,
    fun value => (survives.1 value).trans ?_⟩
  have unlucky : keySegments "a/tmp_b" = unfinishedSegments "a/b" := by decide
  have free : (oneEntry.pending.acquire? "a/b").isSome = true := by decide
  simp [unlucky, free]

/-- A put under another key and an opening each take this entry away. -/
theorem oneEntry_is_lost :
    oneEntry.get "a/tmp_b" = .ok [120] ∧ ¬ keySegments "a/b" <+: keySegments "a/tmp_b" ∧
      ¬ keySegments "a/tmp_b" <+: keySegments "a/b" ∧
      (oneEntry.put "a/b" [121]).1.get "a/tmp_b" ≠ .ok [120] ∧
      ∃ reopened, open? oneEntry.tree oneEntry.base = (reopened.tree, .ok reopened) ∧
        reopened.get "a/tmp_b" ≠ .ok [120] := by
  have valid : validateKey "a/b" = .ok () := validateKey_of_segments (by decide) (by decide)
  have put := get_put_iff oneEntry_sound valid (by decide) oneEntry_get [121]
  obtain ⟨reopened, hopen, opening⟩ :=
    get_open?_iff oneEntry_sound oneEntry_distinct (by decide) oneEntry_get
  refine ⟨oneEntry_get, by decide, by decide, fun kept => ?_, reopened, hopen, fun kept => ?_⟩
  · exact put.mp kept ⟨by decide, by decide, by decide⟩
  · exact absurd (opening.mp kept) (by decide)

end Outpost.Store.DiskStore
