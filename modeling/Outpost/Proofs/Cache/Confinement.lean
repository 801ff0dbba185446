import Outpost.Proofs.Cache.Key
import Outpost.Proofs.Store.Calls

/-!
# Confinement

The namespace of a request is text that a client chose, and becomes part of a path.  It is one
segment of it at most, and the store refuses the segments that would lead elsewhere, so that no
request makes the store leave its base directory.
-/

namespace Outpost.Cache.Key

open Api Store

/-- The store refuses the key before it makes a call. -/
def Refused (store : DiskStore) (key : Key) (value : Bytes) : Prop :=
  ∃ error, validateKey key.storageKey = .error error ∧
    store.putting key.storageKey value = .done (.error error) ∧
    store.getting key.storageKey = .done (.error error)

/-- The entry of the key lies four names below the base directory, its unfinished file beside it,
and no call is about anything else but the directories above. -/
structure Confined (store : DiskStore) (key : Key) (value : Bytes) : Prop where
  valid : validateKey key.storageKey = .ok ()
  segments : keySegments key.storageKey =
    ["cache", key.kind.name, key.scopeSegment, key.queryClass.name]
  unfinished : DiskStore.unfinishedSegments key.storageKey =
    ["cache", key.kind.name, key.scopeSegment, "tmp_" ++ key.queryClass.name]
  kind : key.kind.name ∈ ["pods", "configmaps"]
  scopeSegment : IsName key.scopeSegment
  queryClass : key.queryClass.name ∈ ["default", "consistency", "resourceusage"]
  putting : (store.putting key.storageKey value).Keeps
    (DiskStore.Concerns store.base key.storageKey)
  getting : (store.getting key.storageKey).Keeps fun asked =>
    asked = .lookUp (store.pathOf key.storageKey) ∨ asked = .read (store.pathOf key.storageKey)
  below : FileTree.isDirectoryAt store.tree store.base = true →
    ∀ asked ∈ (store.putting key.storageKey value).calls store.tree, asked.Below store.base

theorem refused_or_confined {key : Key} (slashless : '/' ∉ key.scope.toList) (store : DiskStore)
    (value : Bytes) : key.Refused store value ∨ key.Confined store value := by
  cases hvalid : validateKey key.storageKey with
  | error error =>
      exact .inl ⟨error, hvalid, DiskStore.procedures_of_not_valid hvalid store value⟩
  | ok _ =>
      have segments := keySegments_storageKey slashless
      refine .inr ⟨hvalid, segments, unfinishedSegments_storageKey slashless, ?_, ?_, ?_,
        DiskStore.keeps_putting _ _ _, DiskStore.keeps_getting _ _, fun there asked => ?_⟩
      · cases key.kind <;> decide
      · refine isName_of_validateKey hvalid _ ?_
        rw [segments]
        exact List.mem_append_left _ (by simp [entryDirectory])
      · cases key.queryClass <;> decide
      · refine DiskStore.calls_putting there ?_
        rw [length_keySegments slashless]
        decide

/-- Whatever is asked for, the calls of the store stay below its base directory; the calls are what
the store does to its tree, and they are all about paths that stand for the accepted keys. -/
theorem ofRequest?_confined :
    (∀ (method : Http.Method) (target : Http.Target) (key : Key),
      ofRequest? (RequestInfo.classify method target) = some key →
      ∀ (store : DiskStore) (value : Bytes), key.Refused store value ∨ key.Confined store value) ∧
    (∀ (store : DiskStore) (key : String) (value : Bytes),
      (store.putting key value).Keeps (DiskStore.Concerns store.base key) ∧
      (store.putting key value).run store.tree =
        ((store.put key value).1.tree, (store.put key value).2) ∧
      (store.getting key).run store.tree = (store.tree, store.get key)) ∧
    (∀ key, validateKey key = .ok () ↔
      ∃ names, names ≠ [] ∧ (∀ name ∈ names, IsName name) ∧ key = "/".intercalate names) ∧
    ∀ (store : DiskStore) (key : String), validateKey key = .ok () →
      (∃ names, names ≠ [] ∧ (∀ name ∈ names, IsName name) ∧
        store.pathOf key = store.base ++ names) ∧
      ∀ other, validateKey other = .ok () → store.pathOf other = store.pathOf key →
        other = key := by
  refine ⟨fun method target key asked => refused_or_confined (slashless_of_ofRequest? asked),
    fun store key value => ⟨DiskStore.keeps_putting _ _ _, DiskStore.run_putting _ _ _,
      DiskStore.run_getting _ _⟩, validateKey_eq_ok_iff, fun store key valid => ⟨?_, ?_⟩⟩
  · exact ⟨keySegments key, keySegments_ne_nil key, isName_of_validateKey valid, rfl⟩
  · exact fun other _ same => keySegments_injective (List.append_cancel_left same)

/-! ### Two dots for a namespace -/

def podsIn (scope : String) : Http.Target :=
  ⟨"/api/v1/namespaces/" ++ scope ++ "/pods", none,
    some ("/api/v1/namespaces/" ++ scope ++ "/pods")⟩

def freshStore : DiskStore := ⟨FileTree.fresh, FileTree.dataDirectory, .empty⟩

theorem ofRequest?_confined_dots :
    ofRequest? (RequestInfo.classify "GET" (podsIn "..")) = some ⟨.pods, "..", .default⟩ ∧
      Refused freshStore ⟨.pods, "..", .default⟩ [0x7B] ∧
      ofRequest? (RequestInfo.classify "GET" (podsIn "web")) = some ⟨.pods, "web", .default⟩ ∧
      Confined freshStore ⟨.pods, "web", .default⟩ [0x7B] ∧
      FileTree.isDirectoryAt freshStore.tree freshStore.base = true ∧
      validateKey "cache/pods/web/default" = .ok () ∧
      ∃ names, names ≠ [] ∧
        freshStore.pathOf "cache/pods/web/default" = freshStore.base ++ names := by
  obtain ⟨confined, -, -, paths⟩ := ofRequest?_confined
  have dots : ofRequest? (RequestInfo.classify "GET" (podsIn "..")) =
      some ⟨.pods, "..", .default⟩ := by decide +kernel
  have web : ofRequest? (RequestInfo.classify "GET" (podsIn "web")) =
      some ⟨.pods, "web", .default⟩ := by decide +kernel
  have refused : validateKey (storageKey ⟨.pods, "..", .default⟩) ≠ .ok () := by decide +kernel
  have accepted : validateKey "cache/pods/web/default" = .ok () := by decide +kernel
  have there : FileTree.isDirectoryAt freshStore.tree freshStore.base = true :=
    (isDirectoryAt_iff (opened_fresh.unlinked.clear List.prefix_rfl) opened_fresh.plain).mpr
      ⟨opened_fresh.fits, opened_fresh.there⟩
  refine ⟨dots, (confined _ _ _ dots freshStore [0x7B]).resolve_right fun within =>
    refused within.valid, web, (confined _ _ _ web freshStore [0x7B]).resolve_left ?_, there,
    accepted, ?_⟩
  · rintro ⟨error, failed, -⟩
    cases failed.symm.trans accepted
  · obtain ⟨⟨names, some, -, path⟩, -⟩ := paths freshStore _ accepted
    exact ⟨names, some, path⟩

end Outpost.Cache.Key
