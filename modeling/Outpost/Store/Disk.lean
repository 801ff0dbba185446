import Outpost.Store.FileTree
import Outpost.Store.Pending

/-!
# The disk store

One file per key below a base directory.  Contents are first written to a file beside the
target, whose name begins with `tmp_`, forced to the disk and then moved over the target, so that
a reader sees the old contents or the new ones.  A file so named that is still there when the
store is opened was never finished, and is removed.

A put goes through its stages one at a time, so that what happens between them, or at a crash,
can be spoken of.
-/

namespace Outpost.Store

def unfinishedMark : String := "tmp_"

def isUnfinished (name : String) : Bool := Text.startsWith name unfinishedMark

/-! ## Recovery -/

mutual

/-- The tree without the unfinished files at any depth, and how many there were. -/
def Node.sweep : Node → Node × Nat
  | .directory entries =>
      let (kept, removed) := sweepEntries entries
      (.directory kept, removed)
  | other => (other, 0)

def Node.sweepEntries : List (String × Node) → List (String × Node) × Nat
  | [] => ([], 0)
  | (name, node) :: rest =>
      let (kept, removed) := sweepEntries rest
      if node.isFile && isUnfinished name then (kept, removed + 1)
      else
        let (swept, below) := node.sweep
        ((name, swept) :: kept, below + removed)

end

structure DiskStore where
  tree : Node
  base : Path
  pending : PendingKeys
  deriving Inhabited

namespace DiskStore

/-- Removes every unfinished file below the base directory, whose paths have to be shorter than
`maxPathLength`: the system would read no directory and remove no file behind a longer one.  No put
makes such a path. -/
def recover (store : DiskStore) : DiskStore × Except StoreError Nat :=
  match walk store.tree true store.base with
  | .error error => (store, .error (.system error))
  | .ok (.absent _ _) => (store, .error (.system .notFound))
  | .ok (.present real node) =>
      if node.isDirectory then
        let (swept, removed) := node.sweep
        ({ store with tree := store.tree.set real swept }, .ok removed)
      else (store, .error (.system .notDirectory))

/-- Opens a store, making its base directory; a failed recovery does not matter. -/
def open? (tree : Node) (base : Path) : Node × Except StoreError DiskStore :=
  if base = [] then (tree, .error (.invalidKey "empty base dir"))
  else
    let (made, result) := FileTree.makeDirectories tree base
    match result with
    | .error error => (made, .error (.system error))
    | .ok _ =>
        let store := (recover ⟨made, base, PendingKeys.empty⟩).1
        (store.tree, .ok store)

def pathOf (store : DiskStore) (key : String) : Path := store.base ++ keySegments key

/-! ## Reading -/

def get (store : DiskStore) (key : String) : Except StoreError Bytes := do
  validateKey key
  match FileTree.stat store.tree (store.pathOf key) with
  | .error .notFound => .error .notFound
  | .error error => .error (.system error)
  | .ok (.directory _) => .error .noContent
  | .ok (.file contents) => .ok contents
  | .ok _ => .error (.invalidKey key)

/-! ## Writing -/

inductive Stage where
  | makeParents
  | openFile
  | fill (real : Path)
  | flush (real : Path)
  | commit
  deriving DecidableEq, Repr

def Stage.remaining : Stage → Nat
  | .makeParents => 5
  | .openFile => 4
  | .fill _ => 3
  | .flush _ => 2
  | .commit => 1

structure Write where
  target : Path
  contents : Bytes
  stage : Stage

def Write.parent (write : Write) : Path := write.target.dropLast

def Write.unfinished (write : Write) : Path :=
  write.parent ++ [unfinishedMark ++ write.target.getLast?.getD ""]

/-- Takes the unfinished file away after a failure, as far as that works. -/
def Write.abandon (write : Write) (tree : Node) : Node :=
  match FileTree.remove tree write.unfinished with
  | .ok removed => removed
  | .error _ => tree

inductive Progress where
  | next (write : Write)
  | finished (result : Except StoreError Unit)

def Write.step (tree : Node) (write : Write) : Node × Progress :=
  match write.stage with
  | .makeParents =>
      match FileTree.makeDirectories tree write.parent with
      | (made, .ok _) => (made, .next { write with stage := .openFile })
      | (made, .error error) => (made, .finished (.error (.system error)))
  | .openFile =>
      match FileTree.create tree write.unfinished with
      | .ok (created, real) => (created, .next { write with stage := .fill real })
      | .error error => (tree, .finished (.error (.system error)))
  | .fill real =>
      (FileTree.write tree real write.contents, .next { write with stage := .flush real })
  | .flush real =>
      match FileTree.sync tree real with
      | .ok _ => (tree, .next { write with stage := .commit })
      | .error error => (write.abandon tree, .finished (.error (.system error)))
  | .commit =>
      match FileTree.rename tree write.unfinished write.target with
      | .ok renamed => (renamed, .finished (.ok ()))
      | .error error => (write.abandon tree, .finished (.error (.system error)))

theorem Write.step_remaining {tree after : Node} {write next : Write}
    (h : write.step tree = (after, .next next)) :
    next.stage.remaining < write.stage.remaining := by
  unfold Write.step at h
  split at h
  · rename_i hstage
    split at h <;> cases h
    simp [hstage, Stage.remaining]
  · rename_i hstage
    split at h <;> cases h
    simp [hstage, Stage.remaining]
  · rename_i hstage
    cases h
    simp [hstage, Stage.remaining]
  · rename_i hstage
    split at h <;> cases h
    simp [hstage, Stage.remaining]
  · split at h <;> cases h

def Write.run (tree : Node) (write : Write) : Node × Except StoreError Unit :=
  match h : write.step tree with
  | (after, .finished result) => (after, result)
  | (after, .next next) =>
      have := Write.step_remaining h
      Write.run after next
termination_by write.stage.remaining

/-- A key without contents is a directory. -/
def makeKeyOnly (tree : Node) (path : Path) : Node × Except StoreError Unit :=
  match FileTree.stat tree path with
  | .ok node => if node.isDirectory then (tree, .ok ()) else (tree, .error .noContent)
  | .error .notFound =>
      match FileTree.makeDirectories tree path with
      | (made, .ok _) => (made, .ok ())
      | (made, .error error) => (made, .error (.system error))
  | .error error => (tree, .error (.system error))

inductive Work where
  | keyOnly (path : Path)
  | write (write : Write)

def begin (store : DiskStore) (key : String) (value : Bytes) :
    Except StoreError (DiskStore × Work) := do
  validateKey key
  match store.pending.acquire? key with
  | none => .error .conflict
  | some pending =>
      let path := store.pathOf key
      .ok ({ store with pending },
        if value = [] then .keyOnly path else .write ⟨path, value, .makeParents⟩)

def finish (store : DiskStore) (key : String) (work : Work) :
    DiskStore × Except StoreError Unit :=
  let (tree, result) := match work with
    | .keyOnly path => makeKeyOnly store.tree path
    | .write write => write.run store.tree
  ({ store with tree, pending := store.pending.release key }, result)

def put (store : DiskStore) (key : String) (value : Bytes) :
    DiskStore × Except StoreError Unit :=
  match store.begin key value with
  | .error error => (store, .error error)
  | .ok (held, work) => held.finish key work

/-- Puts that are started together: all begin, in order, before the first one goes on. -/
def beginAll (store : DiskStore) :
    List (String × Bytes) → DiskStore × List (String × Except StoreError Work)
  | [] => (store, [])
  | (key, value) :: rest =>
      let begun := store.begin key value
      let held := match begun with
        | .ok (held, _) => held
        | .error _ => store
      let (last, others) := held.beginAll rest
      (last, (key, begun.map (·.2)) :: others)

def finishAll (store : DiskStore) :
    List (String × Except StoreError Work) → DiskStore × List (Except StoreError Unit)
  | [] => (store, [])
  | (_, .error error) :: rest =>
      let (last, results) := store.finishAll rest
      (last, .error error :: results)
  | (key, .ok work) :: rest =>
      let (after, result) := store.finish key work
      let (last, results) := after.finishAll rest
      (last, result :: results)

def putAll (store : DiskStore) (puts : List (String × Bytes)) :
    DiskStore × List (Except StoreError Unit) :=
  let (begun, works) := store.beginAll puts
  begun.finishAll works

end DiskStore

end Outpost.Store
