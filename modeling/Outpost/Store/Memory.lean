import Outpost.Bytes
import Outpost.Store.Key
import Outpost.Store.Pending

/-!
# The memory store

Contents by key, lost when the process ends.  A key may be held without contents, but contents
once written are not emptied again.
-/

namespace Outpost.Store

structure MemoryStore where
  entries : List (String × Bytes)
  pending : PendingKeys
  deriving Inhabited

namespace MemoryStore

def empty : MemoryStore := ⟨[], PendingKeys.empty⟩

def find? (store : MemoryStore) (key : String) : Option Bytes :=
  (store.entries.find? fun entry => entry.1 == key).map (·.2)

def size (store : MemoryStore) : Nat := store.entries.length

def replace (key : String) (value : Bytes) : List (String × Bytes) → List (String × Bytes)
  | [] => [(key, value)]
  | (other, kept) :: rest =>
      if other = key then (key, value) :: rest else (other, kept) :: replace key value rest

def put (store : MemoryStore) (key : String) (value : Bytes) :
    MemoryStore × Except StoreError Unit :=
  match validateKey key with
  | .error error => (store, .error error)
  | .ok _ =>
      match store.pending.acquire? key with
      | none => (store, .error .conflict)
      | some _ =>
          if value = [] ∧ ((store.find? key).getD []) ≠ [] then (store, .error .noContent)
          else ({ store with entries := replace key value store.entries }, .ok ())

def get (store : MemoryStore) (key : String) : Except StoreError Bytes := do
  validateKey key
  match store.find? key with
  | none => .error .notFound
  | some [] => .error .noContent
  | some value => .ok value

/-- Puts that are started together; each is over as soon as it has begun. -/
def putAll (store : MemoryStore) :
    List (String × Bytes) → MemoryStore × List (Except StoreError Unit)
  | [] => (store, [])
  | (key, value) :: rest =>
      let (after, result) := store.put key value
      let (last, results) := after.putAll rest
      (last, result :: results)

end MemoryStore

end Outpost.Store
