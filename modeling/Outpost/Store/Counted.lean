import Outpost.Store.Disk
import Outpost.Store.Memory

/-!
# Stores with call counts

A store of either kind that counts its calls and can be made to fail.  A put has a first part, in
which its key is checked and held, and a rest, in which the files are written; in memory the
first part is already the whole.
-/

namespace Outpost.Store

inductive Backend where
  | memory (store : MemoryStore)
  | disk (store : DiskStore)
  deriving Inhabited

namespace Backend

def get : Backend → String → Except StoreError Bytes
  | .memory store, key => store.get key
  | .disk store, key => store.get key

/-- The first part of a put: it may be all, or leave work that the key is held for. -/
def beginPut (key : String) (value : Bytes) : Backend →
    Backend × (Except StoreError Unit ⊕ DiskStore.Work)
  | .memory store =>
      let (after, result) := store.put key value
      (.memory after, .inl result)
  | .disk store =>
      match store.begin key value with
      | .error error => (.disk store, .inl (.error error))
      | .ok (held, work) => (.disk held, .inr work)

def finishPut (key : String) (work : DiskStore.Work) : Backend → Backend × Except StoreError Unit
  | .memory store => (.memory store, .ok ())
  | .disk store =>
      let (after, result) := store.finish key work
      (.disk after, result)

end Backend

structure CountedStore where
  backend : Backend
  gets : Nat
  puts : Nat
  /-- What every get, or every put, answers instead of reaching the backend. -/
  getFault : Option StoreError
  putFault : Option StoreError
  written : List String
  deriving Inhabited

namespace CountedStore

def ofBackend (backend : Backend) : CountedStore := ⟨backend, 0, 0, none, none, []⟩

def inMemory : CountedStore := ofBackend (.memory MemoryStore.empty)

def readsFiles (store : CountedStore) : Bool :=
  match store.backend, store.getFault with
  | .disk _, none => true
  | _, _ => false

def withFaults (store : CountedStore) (getFault putFault : Option StoreError) : CountedStore :=
  { store with getFault, putFault }

def get (store : CountedStore) (key : String) : CountedStore × Except StoreError Bytes :=
  ({ store with gets := store.gets + 1 },
    match store.getFault with
    | some error => .error error
    | none => store.backend.get key)

def note (store : CountedStore) (key : String) (result : Except StoreError Unit) : CountedStore :=
  match result with
  | .ok _ => if store.written.contains key then store
      else { store with written := store.written ++ [key] }
  | .error _ => store

def beginPut (store : CountedStore) (key : String) (value : Bytes) :
    CountedStore × (Except StoreError Unit ⊕ DiskStore.Work) :=
  let counted := { store with puts := store.puts + 1 }
  match store.putFault with
  | some error => (counted, .inl (.error error))
  | none =>
      let (backend, begun) := store.backend.beginPut key value
      let held := { counted with backend }
      match begun with
      | .inl result => (held.note key result, .inl result)
      | .inr work => (held, .inr work)

def finishPut (store : CountedStore) (key : String) (work : DiskStore.Work) :
    CountedStore × Except StoreError Unit :=
  let (backend, result) := store.backend.finishPut key work
  ({ store with backend }.note key result, result)

def put (store : CountedStore) (key : String) (value : Bytes) :
    CountedStore × Except StoreError Unit :=
  match store.beginPut key value with
  | (after, .inl result) => (after, result)
  | (after, .inr work) => after.finishPut key work

/-- What the backend holds under every key that was ever put, without counting. -/
def contents (store : CountedStore) : List (String × Except StoreError Bytes) :=
  store.written.map fun key => (key, store.backend.get key)

end CountedStore

end Outpost.Store
