import Outpost.Bytes
import Outpost.Store.Key

/-!
# File trees

A tree of directories, regular files, symbolic links and the null device, with the calls that a
store makes on it.  A path is walked component by component from the root: `.` and `..` move in
place, a link is replaced by what it points to (at most forty of them), and only a directory has
anything below it.
-/

namespace Outpost.Store

abbrev Path := List String

inductive Node where
  | file (contents : Bytes)
  | directory (entries : List (String × Node))
  | link (target : String)
  | nullDevice
  deriving Inhabited

namespace Node

def emptyDirectory : Node := .directory []

def isDirectory : Node → Bool
  | .directory _ => true
  | _ => false

def isFile : Node → Bool
  | .file _ => true
  | _ => false

def child? : Node → String → Option Node
  | .directory entries, name => (entries.find? fun entry => entry.1 == name).map (·.2)
  | _, _ => none

def get? : Node → Path → Option Node
  | node, [] => some node
  | node, name :: rest => (node.child? name).bind fun child => child.get? rest

def setEntry (name : String) (node : Node) : List (String × Node) → List (String × Node)
  | [] => [(name, node)]
  | (other, kept) :: rest =>
      if other = name then (name, node) :: rest else (other, kept) :: setEntry name node rest

/-- Puts a node at a path whose parent is a directory; elsewhere nothing changes. -/
def set : Node → Path → Node → Node
  | _, [], node => node
  | .directory entries, [name], node => .directory (setEntry name node entries)
  | .directory entries, name :: next :: rest, node =>
      match (entries.find? fun entry => entry.1 == name).map (·.2) with
      | none => .directory entries
      | some child => .directory (setEntry name (child.set (next :: rest) node) entries)
  | other, _ :: _, _ => other

def erase : Node → Path → Node
  | node, [] => node
  | .directory entries, [name] => .directory (entries.filter fun entry => entry.1 ≠ name)
  | .directory entries, name :: next :: rest =>
      match (entries.find? fun entry => entry.1 == name).map (·.2) with
      | none => .directory entries
      | some child => .directory (setEntry name (child.erase (next :: rest)) entries)
  | other, _ :: _ => other

end Node

/-! ## Walking -/

/-- Where a walk ends: at a node, or at a free name in a directory. -/
inductive Place where
  | present (path : Path) (node : Node)
  | absent (parent : Path) (name : String)

/-- The longest name of one component, and the length that a whole path has to stay below. -/
def maxNameLength : Nat := 255
def maxPathLength : Nat := 4096

def pathLength (path : Path) : Nat :=
  path.foldl (fun length name => length + name.utf8ByteSize + 1) 0

def targetComponents (target : String) : Bool × Path :=
  (Text.startsWith target "/", (Text.split '/' target).filter (· ≠ ""))

/-- Walks on from `current`, a directory named without links, with `links` links still allowed. -/
def walkFrom (root : Node) (followLast : Bool) (links : Nat) (current : Path) :
    Path → Except OsError Place
  | [] =>
      match root.get? current with
      | some node => .ok (.present current node)
      | none => .error .notFound
  | name :: rest =>
      match root.get? current with
      | some (.directory entries) =>
          if name = "." then walkFrom root followLast links current rest
          else if name = ".." then walkFrom root followLast links current.dropLast rest
          else if maxNameLength < name.utf8ByteSize then .error .nameTooLong
          else
            match (Node.directory entries).child? name with
            | none => if rest = [] then .ok (.absent current name) else .error .notFound
            | some (.link target) =>
                if rest = [] && !followLast then
                  .ok (.present (current ++ [name]) (.link target))
                else
                  match links with
                  | 0 => .error .linkLoop
                  | links + 1 =>
                      let (absolute, components) := targetComponents target
                      walkFrom root followLast links (if absolute then [] else current)
                        (components ++ rest)
            | some _ => walkFrom root followLast links (current ++ [name]) rest
      | some _ => .error .notDirectory
      | none => .error .notFound
termination_by rest => (links, rest.length)

def walk (root : Node) (followLast : Bool) (path : Path) : Except OsError Place :=
  if path.any fun name => name.toList.contains '\x00' then .error .nulInName
  else if maxPathLength ≤ pathLength path then .error .nameTooLong
  else walkFrom root followLast 40 [] path

/-! ## Calls -/

namespace FileTree

def stat (root : Node) (path : Path) : Except OsError Node := do
  match ← walk root true path with
  | .present _ node => .ok node
  | .absent _ _ => .error .notFound

def isDirectoryAt (root : Node) (path : Path) : Bool :=
  match stat root path with
  | .ok node => node.isDirectory
  | .error _ => false

def makeDirectory (root : Node) (path : Path) : Except OsError Node := do
  match ← walk root false path with
  | .present _ _ => .error .exists
  | .absent parent name => .ok (root.set (parent ++ [name]) .emptyDirectory)

/-- Makes a directory with all that are missing above it.  What was made stays when a later one
fails. -/
def makeDirectories (root : Node) (path : Path) : Node × Except OsError Unit :=
  match makeDirectory root path with
  | .ok made => (made, .ok ())
  | .error .notFound =>
      match path with
      | [] => (root, .error .notFound)
      | first :: rest =>
          let (above, result) := makeDirectories root (first :: rest).dropLast
          match result with
          | .error error => (above, .error error)
          | .ok _ =>
              match makeDirectory above path with
              | .ok made => (made, .ok ())
              | .error error =>
                  if isDirectoryAt above path then (above, .ok ()) else (above, .error error)
  | .error error => if isDirectoryAt root path then (root, .ok ()) else (root, .error error)
termination_by path.length

/-- Opens a file for writing, made if it is missing and emptied if it is there.  Gives the tree
and where the file is, links followed. -/
def create (root : Node) (path : Path) : Except OsError (Node × Path) := do
  match ← walk root true path with
  | .present real (.file _) => .ok (root.set real (.file []), real)
  | .present real .nullDevice => .ok (root, real)
  | .present _ _ => .error .isDirectory
  | .absent parent name => .ok (root.set (parent ++ [name]) (.file []), parent ++ [name])

def write (root : Node) (real : Path) (contents : Bytes) : Node :=
  match root.get? real with
  | some (.file _) => root.set real (.file contents)
  | _ => root

/-- Forces an open file to the disk, which the null device does not have. -/
def sync (root : Node) (real : Path) : Except OsError Unit :=
  match root.get? real with
  | some .nullDevice => .error .invalidArgument
  | _ => .ok ()

def remove (root : Node) (path : Path) : Except OsError Node := do
  match ← walk root false path with
  | .present real node => if node.isDirectory then .error .isDirectory else .ok (root.erase real)
  | .absent _ _ => .error .notFound

/-- Moves a file or link over whatever is at the target, unless that is a directory. -/
def rename (root : Node) (source target : Path) : Except OsError Node := do
  match ← walk root false source with
  | .absent _ _ => .error .notFound
  | .present origin node =>
      match ← walk root false target with
      | .absent parent name => .ok ((root.erase origin).set (parent ++ [name]) node)
      | .present destination existing =>
          if existing.isDirectory then .error .isDirectory
          else if origin = destination then .ok root
          else .ok ((root.erase origin).set destination node)

/-! ## Whole trees -/

def fresh : Node :=
  .directory [("tmp", .directory [("store", .emptyDirectory)]),
    ("dev", .directory [("null", .nullDevice)])]

def dataDirectory : Path := ["tmp", "store"]

def plant (root : Node) (path : Path) (contents : Bytes) : Node :=
  let made := (makeDirectories root path.dropLast).1
  match create made path with
  | .ok (created, real) => write created real contents
  | .error _ => made

def link (root : Node) (path : Path) (target : String) : Node :=
  let made := (makeDirectories root path.dropLast).1
  match walk made false path with
  | .ok (.absent parent name) => made.set (parent ++ [name]) (.link target)
  | _ => made

def removeAll (root : Node) (path : Path) : Node :=
  match walk root false path with
  | .ok (.present real _) => root.erase real
  | _ => root

mutual

def below (above : Path) : Node → List (Path × Node)
  | .directory entries => belowEntries above entries
  | _ => []

def belowEntries (above : Path) : List (String × Node) → List (Path × Node)
  | [] => []
  | (name, node) :: rest =>
      (above ++ [name], node) :: below (above ++ [name]) node ++ belowEntries above rest

end

def contents (root : Node) (path : Path) : List (Path × Node) :=
  match stat root path with
  | .ok node => below [] node
  | .error _ => []

end FileTree

end Outpost.Store
