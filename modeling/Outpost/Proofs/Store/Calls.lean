import Mathlib.Data.List.Induction
import Outpost.Proofs.Store.Isolation
import Outpost.Proofs.Store.Links

/-!
# The calls of a store

A put or a get asks the file system one call after another, and each answer decides what is asked
next.  Which paths it names can be said for all answers, those of a failing disk among them; what
the store does to its tree is what these calls do.
-/

namespace Outpost.Store

/-! ## Calls and answers -/

inductive Call where
  | lookUp (path : Path)
  | read (path : Path)
  | makeDirectory (path : Path)
  | create (path : Path)
  | fill (real : Path) (contents : Bytes)
  | flush (real : Path)
  | remove (path : Path)
  | rename (source target : Path)
  deriving DecidableEq, Repr

namespace Call

abbrev Answer : Call → Type
  | .lookUp _ => Except OsError Node
  | .read _ => Except OsError Bytes
  | .create _ => Except OsError Path
  | _ => Except OsError Unit

def effect (tree : Node) : Except OsError Node → Node × Except OsError Unit
  | .ok after => (after, .ok ())
  | .error error => (tree, .error error)

def paths : Call → List Path
  | .lookUp path | .read path | .makeDirectory path | .create path | .remove path => [path]
  | .rename source target => [source, target]
  | .fill _ _ | .flush _ => []

/-- Every path that a call is given is below the base directory. -/
def Below (base : Path) (asked : Call) : Prop :=
  ∀ path ∈ asked.paths, ∃ rest, rest ≠ [] ∧ path = base ++ rest

def perform (tree : Node) : (call : Call) → Node × call.Answer
  | .lookUp path => (tree, FileTree.stat tree path)
  | .read path =>
      (tree, match FileTree.stat tree path with
        | .ok (.file contents) => .ok contents
        | .ok _ => .error .isDirectory
        | .error error => .error error)
  | .makeDirectory path => effect tree (FileTree.makeDirectory tree path)
  | .create path =>
      match FileTree.create tree path with
      | .ok (created, real) => (created, .ok real)
      | .error error => (tree, .error error)
  | .fill real contents => (FileTree.write tree real contents, .ok ())
  | .flush real => (tree, FileTree.sync tree real)
  | .remove path => effect tree (FileTree.remove tree path)
  | .rename source target => effect tree (FileTree.rename tree source target)

end Call

inductive Procedure (α : Type) where
  | done (result : α)
  | call (call : Call) (next : call.Answer → Procedure α)

namespace Procedure

variable {α β : Type}

def bind : Procedure α → (α → Procedure β) → Procedure β
  | done result, next => next result
  | call asked rest, next => call asked fun answer => (rest answer).bind next

def run (tree : Node) : Procedure α → Node × α
  | done result => (tree, result)
  | call asked next => (next (asked.perform tree).2).run (asked.perform tree).1

def calls (tree : Node) : Procedure α → List Call
  | done _ => []
  | call asked next =>
      asked :: (next (asked.perform tree).2).calls (asked.perform tree).1

/-- No other calls are made, whatever the answers are. -/
def Keeps (permitted : Call → Prop) : Procedure α → Prop
  | done _ => True
  | call asked next => permitted asked ∧ ∀ answer, (next answer).Keeps permitted

variable {procedure : Procedure α} {next : α → Procedure β} {permitted : Call → Prop}

theorem run_bind (tree : Node) :
    (procedure.bind next).run tree =
      (next (procedure.run tree).2).run (procedure.run tree).1 := by
  induction procedure generalizing tree with
  | done result => rfl
  | call asked rest ih => exact ih _ _

theorem calls_bind (tree : Node) :
    (procedure.bind next).calls tree =
      procedure.calls tree ++ (next (procedure.run tree).2).calls (procedure.run tree).1 := by
  induction procedure generalizing tree with
  | done result => rfl
  | call asked rest ih => exact congrArg (asked :: ·) (ih _ _)

theorem Keeps.done (permitted : Call → Prop) (result : α) :
    (done result).Keeps permitted := trivial

theorem Keeps.bind (first : procedure.Keeps permitted)
    (later : ∀ result, (next result).Keeps permitted) : (procedure.bind next).Keeps permitted := by
  induction procedure with
  | done result => exact later result
  | call asked rest ih => exact ⟨first.1, fun answer => ih answer (first.2 answer)⟩

theorem Keeps.mono {wider : Call → Prop} (keeps : procedure.Keeps permitted)
    (implies : ∀ asked, permitted asked → wider asked) : procedure.Keeps wider := by
  induction procedure with
  | done result => trivial
  | call asked rest ih => exact ⟨implies asked keeps.1, fun answer => ih answer (keeps.2 answer)⟩

theorem Keeps.of_mem (keeps : procedure.Keeps permitted) {tree : Node} {asked : Call}
    (made : asked ∈ procedure.calls tree) : permitted asked := by
  induction procedure generalizing tree with
  | done result => cases made
  | call first rest ih =>
      rcases List.mem_cons.mp made with rfl | later
      · exact keeps.1
      · exact ih _ (keeps.2 _) later

/-! ## Directories -/

def unlessDirectory (path : Path) (error : OsError) : Procedure (Except OsError Unit) :=
  .call (.lookUp path) fun
    | .ok node => .done (if node.isDirectory then .ok () else .error error)
    | .error _ => .done (.error error)

def makeLast (path : Path) : Except OsError Unit → Procedure (Except OsError Unit)
  | .error error => .done (.error error)
  | .ok _ =>
      .call (.makeDirectory path) fun
        | .ok _ => .done (.ok ())
        | .error error => unlessDirectory path error

def makeDirectories (path : Path) : Procedure (Except OsError Unit) :=
  .call (.makeDirectory path) fun
    | .ok _ => .done (.ok ())
    | .error .notFound =>
        match path with
        | [] => .done (.error .notFound)
        | first :: rest =>
            (makeDirectories (first :: rest).dropLast).bind (makeLast (first :: rest))
    | .error error => unlessDirectory path error
termination_by path.length

theorem run_unlessDirectory (tree : Node) (path : Path) (error : OsError) :
    (unlessDirectory path error).run tree =
      if FileTree.isDirectoryAt tree path then (tree, .ok ()) else (tree, .error error) := by
  unfold unlessDirectory FileTree.isDirectoryAt
  simp only [run, Call.perform]
  cases FileTree.stat tree path with
  | error failure => rfl
  | ok node => cases hdirectory : node.isDirectory <;> simp [run, hdirectory]

theorem run_makeDirectories (tree : Node) (path : Path) :
    (makeDirectories path).run tree = FileTree.makeDirectories tree path := by
  induction hlength : path.length using Nat.strongRecOn generalizing path with
  | ind length ih =>
      subst hlength
      rw [makeDirectories.eq_def, FileTree.makeDirectories.eq_def, run, Call.perform]
      cases FileTree.makeDirectory tree path with
      | ok made => rfl
      | error error =>
          cases error with
          | notFound =>
              cases path with
              | nil => rfl
              | cons first rest =>
                  have shorter : (first :: rest).dropLast.length < (first :: rest).length := by simp
                  simp only [Call.effect, run_bind, ih _ shorter _ rfl]
                  rcases FileTree.makeDirectories tree (first :: rest).dropLast with
                    ⟨above, result⟩
                  cases result with
                  | error error => rfl
                  | ok _ =>
                      simp only [makeLast, run, Call.perform]
                      cases FileTree.makeDirectory above (first :: rest) with
                      | ok made => rfl
                      | error error => exact run_unlessDirectory _ _ _
          | _ => exact run_unlessDirectory _ _ _

def IsStep (path : Path) (asked : Call) : Prop :=
  asked = .makeDirectory path ∨ asked = .lookUp path

theorem keeps_unlessDirectory (path : Path) (error : OsError) :
    (unlessDirectory path error).Keeps (IsStep path) :=
  ⟨.inr rfl, fun answer => by cases answer <;> trivial⟩

theorem keeps_makeLast (path : Path) (above : Except OsError Unit) :
    (makeLast path above).Keeps (IsStep path) := by
  cases above with
  | error error => trivial
  | ok _ =>
      refine ⟨.inl rfl, fun answer => ?_⟩
      cases answer with
      | ok _ => trivial
      | error error => exact keeps_unlessDirectory path error

theorem keeps_makeDirectories (path : Path) :
    (makeDirectories path).Keeps fun asked => ∃ front, front <+: path ∧ IsStep front asked := by
  induction hlength : path.length using Nat.strongRecOn generalizing path with
  | ind length ih =>
      subst hlength
      have here : ∀ asked, IsStep path asked → ∃ front, front <+: path ∧ IsStep front asked :=
        fun asked step => ⟨path, List.prefix_rfl, step⟩
      rw [makeDirectories.eq_def]
      refine ⟨here _ (.inl rfl), fun answer => ?_⟩
      cases answer with
      | ok _ => trivial
      | error error =>
          cases error with
          | notFound =>
              cases path with
              | nil => trivial
              | cons first rest =>
                  have shorter : (first :: rest).dropLast.length < (first :: rest).length := by simp
                  refine ((ih _ shorter _ rfl).mono fun asked ⟨front, isPrefix, step⟩ => ?_).bind
                    fun above => (keeps_makeLast _ above).mono here
                  exact ⟨front, isPrefix.trans (List.dropLast_prefix _), step⟩
          | _ => exact (keeps_unlessDirectory _ _).mono here

theorem calls_makeDirectories {tree : Node} {base rest : Path}
    (there : FileTree.isDirectoryAt tree base = true) (below : rest ≠ []) (plain : IsPlain rest)
    {asked : Call} (made : asked ∈ (makeDirectories (base ++ rest)).calls tree) :
    ∃ front, front ≠ [] ∧ front <+: rest ∧ IsStep (base ++ front) asked := by
  induction rest using List.reverseRecOn with
  | nil => exact absurd rfl below
  | append_singleton rest last ih =>
      have here : IsStep (base ++ (rest ++ [last])) asked →
          ∃ front, front ≠ [] ∧ front <+: rest ++ [last] ∧ IsStep (base ++ front) asked :=
        fun step => ⟨rest ++ [last], below, List.prefix_rfl, step⟩
      rw [makeDirectories.eq_def, calls, List.mem_cons] at made
      rcases made with rfl | made
      · exact here (.inl rfl)
      simp only [Call.perform] at made
      cases hmade : FileTree.makeDirectory tree (base ++ (rest ++ [last])) with
      | ok after =>
          rw [hmade] at made
          cases made
      | error error =>
          rw [hmade] at made
          cases error with
          | notFound =>
              have between : rest ≠ [] := by
                rintro rfl
                exact makeDirectory_ne_notFound there (plain last (by simp)) hmade
              have up : (base ++ (rest ++ [last])).dropLast = base ++ rest := by
                rw [← List.append_assoc, List.dropLast_concat]
              cases hpath : base ++ (rest ++ [last]) with
              | nil => simp at hpath
              | cons first others =>
                  rw [hpath] at made
                  simp only [Call.effect] at made
                  rw [← hpath, up, calls_bind, List.mem_append] at made
                  rcases made with made | made
                  · obtain ⟨front, some, isPrefix, step⟩ :=
                      ih between (plain.upTo (List.prefix_append _ _)) made
                    exact ⟨front, some, isPrefix.trans (List.prefix_append _ _), step⟩
                  · exact here ((keeps_makeLast _ _).of_mem made)
          | _ => exact here ((keeps_unlessDirectory _ _).of_mem made)

end Procedure

namespace DiskStore

open Procedure

/-! ## Reading and writing -/

def Write.giveUp (write : Write) (error : OsError) : Procedure (Except StoreError Unit) :=
  .call (.remove write.unfinished) fun _ => .done (.error (.system error))

def Write.replacing (write : Write) : Procedure (Except StoreError Unit) :=
  .call (.create write.unfinished) fun
    | .error error => .done (.error (.system error))
    | .ok real => .call (.fill real write.contents) fun
        | .error error => write.giveUp error
        | .ok _ => .call (.flush real) fun
            | .error error => write.giveUp error
            | .ok _ => .call (.rename write.unfinished write.target) fun
                | .error error => write.giveUp error
                | .ok _ => .done (.ok ())

def whenMade (next : Procedure (Except StoreError Unit)) :
    Except OsError Unit → Procedure (Except StoreError Unit)
  | .error error => .done (.error (.system error))
  | .ok _ => next

def Write.storing (write : Write) : Procedure (Except StoreError Unit) :=
  (makeDirectories write.parent).bind (whenMade write.replacing)

def makingKeyOnly (path : Path) : Procedure (Except StoreError Unit) :=
  .call (.lookUp path) fun
    | .ok node => .done (if node.isDirectory then .ok () else .error .noContent)
    | .error .notFound => (makeDirectories path).bind (whenMade (.done (.ok ())))
    | .error error => .done (.error (.system error))

def putting (store : DiskStore) (key : String) (value : Bytes) :
    Procedure (Except StoreError Unit) :=
  match store.begin key value with
  | .error error => .done (.error error)
  | .ok (_, .keyOnly path) => makingKeyOnly path
  | .ok (_, .write write) => write.storing

def getting (store : DiskStore) (key : String) : Procedure (Except StoreError Bytes) :=
  match validateKey key with
  | .error error => .done (.error error)
  | .ok _ =>
      .call (.lookUp (store.pathOf key)) fun
        | .error .notFound => .done (.error .notFound)
        | .error error => .done (.error (.system error))
        | .ok (.directory _) => .done (.error .noContent)
        | .ok (.file _) => .call (.read (store.pathOf key)) fun
            | .ok contents => .done (.ok contents)
            | .error error => .done (.error (.system error))
        | .ok _ => .done (.error (.invalidKey key))

theorem run_giveUp (write : Write) (error : OsError) (tree : Node) :
    (write.giveUp error).run tree = (write.abandon tree, .error (.system error)) := by
  unfold Write.giveUp Write.abandon
  simp only [run, Call.perform]
  cases FileTree.remove tree write.unfinished <;> rfl

theorem run_replacing (write : Write) (tree : Node) :
    write.replacing.run tree = Write.run tree { write with stage := .openFile } := by
  have beside : ∀ stage, ({ write with stage } : Write).unfinished = write.unfinished :=
    fun _ => rfl
  rw [Write.run_eq, Write.step, Write.replacing]
  simp only [beside, run, Call.perform]
  cases FileTree.create tree write.unfinished with
  | error error => rfl
  | ok opened =>
      obtain ⟨created, real⟩ := opened
      simp only [run, Call.perform]
      rw [Write.run_eq, Write.step]
      simp only
      rw [Write.run_eq, Write.step]
      simp only
      cases FileTree.sync (FileTree.write created real write.contents) real with
      | error error => exact run_giveUp write error _
      | ok _ =>
          simp only [run, Call.perform]
          rw [Write.run_eq, Write.step]
          simp only [beside]
          cases FileTree.rename (FileTree.write created real write.contents) write.unfinished
            write.target with
          | error error => exact run_giveUp write error _
          | ok renamed => rfl

theorem run_storing {write : Write} (hstage : write.stage = .makeParents) (tree : Node) :
    write.storing.run tree = write.run tree := by
  rw [Write.storing, run_bind, run_makeDirectories, Write.run_eq, Write.step]
  simp only [hstage]
  rcases FileTree.makeDirectories tree write.parent with ⟨made, result⟩
  cases result with
  | error error => rfl
  | ok _ => exact run_replacing write made

theorem run_makingKeyOnly (path : Path) (tree : Node) :
    (makingKeyOnly path).run tree = makeKeyOnly tree path := by
  unfold makingKeyOnly makeKeyOnly
  simp only [run, Call.perform]
  cases FileTree.stat tree path with
  | ok node => cases hdirectory : node.isDirectory <;> simp [run, hdirectory]
  | error error =>
      cases error with
      | notFound =>
          simp only [run_bind, run_makeDirectories]
          rcases FileTree.makeDirectories tree path with ⟨made, result⟩
          cases result <;> rfl
      | _ => rfl

theorem putting_cases (store : DiskStore) (key : String) (value : Bytes) :
    (∃ error, store.putting key value = .done (.error error)) ∨
      (validateKey key = .ok () ∧ value = [] ∧
        store.putting key value = makingKeyOnly (store.pathOf key)) ∨
      (validateKey key = .ok () ∧ value ≠ [] ∧
        store.putting key value = (writeFor store.base key value).storing) := by
  unfold putting
  cases hbegin : store.begin key value with
  | error error => exact .inl ⟨error, rfl⟩
  | ok begun =>
      obtain ⟨held, work⟩ := begun
      obtain ⟨valid, -, rfl⟩ := begin_eq_ok hbegin
      by_cases empty : value = []
      · exact .inr (.inl ⟨valid, empty, by simp only [if_pos empty]⟩)
      · exact .inr (.inr ⟨valid, empty, by simp only [if_neg empty]⟩)

/-- A put does to the tree what its calls do. -/
theorem run_putting (store : DiskStore) (key : String) (value : Bytes) :
    (store.putting key value).run store.tree =
      ((store.put key value).1.tree, (store.put key value).2) := by
  unfold putting put
  cases hbegin : store.begin key value with
  | error error => rfl
  | ok begun =>
      obtain ⟨held, work⟩ := begun
      obtain ⟨-, ⟨pending, rfl⟩, rfl⟩ := begin_eq_ok hbegin
      simp only [finish]
      by_cases empty : value = []
      · simp only [if_pos empty]
        exact run_makingKeyOnly _ _
      · simp only [if_neg empty]
        exact run_storing rfl _

theorem run_getting (store : DiskStore) (key : String) :
    (store.getting key).run store.tree = (store.tree, store.get key) := by
  unfold getting DiskStore.get
  cases validateKey key with
  | error error => rfl
  | ok _ =>
      simp only [run, Call.perform]
      cases hstat : FileTree.stat store.tree (store.pathOf key) with
      | error error => cases error <;> rfl
      | ok node =>
          cases node with
          | file contents =>
              simp only [run, Call.perform, hstat]
              rfl
          | _ => rfl

theorem procedures_of_not_valid {error : StoreError} {key : String}
    (refused : validateKey key = .error error) (store : DiskStore) (value : Bytes) :
    store.putting key value = .done (.error error) ∧ store.getting key = .done (.error error) := by
  have begun : store.begin key value = .error error := by
    unfold begin
    rw [refused]
    rfl
  unfold putting getting
  rw [begun, refused]
  exact ⟨rfl, rfl⟩

/-! ## What is asked for -/

def Write.Replaces (write : Write) : Call → Prop
  | .create path | .remove path => path = write.unfinished
  | .rename source target => source = write.unfinished ∧ target = write.target
  | .fill _ _ | .flush _ => True
  | _ => False

theorem keeps_replacing (write : Write) : write.replacing.Keeps write.Replaces := by
  have givesUp : ∀ error, (write.giveUp error).Keeps write.Replaces :=
    fun error => ⟨rfl, fun _ => trivial⟩
  refine ⟨rfl, fun opened => ?_⟩
  cases opened with
  | error error => trivial
  | ok real =>
      refine ⟨trivial, fun filled => ?_⟩
      cases filled with
      | error error => exact givesUp error
      | ok _ =>
          refine ⟨trivial, fun flushed => ?_⟩
          cases flushed with
          | error error => exact givesUp error
          | ok _ =>
              refine ⟨⟨rfl, rfl⟩, fun moved => ?_⟩
              cases moved with
              | error error => exact givesUp error
              | ok _ => trivial

theorem keeps_whenMade {permitted : Call → Prop} {next : Procedure (Except StoreError Unit)}
    (keeps : next.Keeps permitted) (made : Except OsError Unit) :
    (whenMade next made).Keeps permitted := by
  cases made with
  | error error => trivial
  | ok _ => exact keeps

/-- What may be asked for on behalf of a key: its directories, its unfinished file and its file. -/
def Concerns (base : Path) (key : String) : Call → Prop
  | .lookUp path | .makeDirectory path => path <+: base ++ keySegments key
  | .read path => path = base ++ keySegments key
  | .create path | .remove path => path = base ++ unfinishedSegments key
  | .rename source target =>
      source = base ++ unfinishedSegments key ∧ target = base ++ keySegments key
  | .fill _ _ | .flush _ => True

section Keys

variable {base : Path} {key : String} {value : Bytes} {store : DiskStore} {asked : Call}

theorem concerns_of_isStep {front : Path} (isPrefix : front <+: base ++ keySegments key)
    (step : IsStep front asked) : Concerns base key asked := by
  rcases step with rfl | rfl <;> exact isPrefix

theorem concerns_of_replaces (replaces : (writeFor base key value).Replaces asked) :
    Concerns base key asked := by
  have unfinished := unfinished_writeFor base key value
  cases asked with
  | create path => exact replaces.trans unfinished
  | remove path => exact replaces.trans unfinished
  | rename source target => exact ⟨replaces.1.trans unfinished, replaces.2⟩
  | fill real contents => trivial
  | flush real => trivial
  | _ => cases replaces

theorem keeps_putting (store : DiskStore) (key : String) (value : Bytes) :
    (store.putting key value).Keeps (Concerns store.base key) := by
  rcases putting_cases store key value with ⟨error, refused⟩ | ⟨-, -, keyOnly⟩ | ⟨-, -, writes⟩
  · rw [refused]
    trivial
  · rw [keyOnly]
    refine ⟨List.prefix_rfl, fun found => ?_⟩
    cases found with
    | ok node => trivial
    | error error =>
        cases error with
        | notFound =>
            exact ((keeps_makeDirectories _).mono fun asked ⟨front, isPrefix, step⟩ =>
              concerns_of_isStep isPrefix step).bind fun made => keeps_whenMade (.done _ _) made
        | _ => trivial
  · rw [writes]
    refine ((keeps_makeDirectories _).mono fun asked ⟨front, isPrefix, step⟩ => ?_).bind
      fun made => keeps_whenMade ((keeps_replacing _).mono fun asked => concerns_of_replaces) made
    exact concerns_of_isStep (isPrefix.trans (List.dropLast_prefix _)) step

theorem below_of_isStep {front : Path} (some : front ≠ []) (step : IsStep (base ++ front) asked) :
    asked.Below base := by
  rcases step with rfl | rfl <;>
    exact List.forall_mem_singleton.mpr ⟨front, some, rfl⟩

theorem below_of_replaces (replaces : (writeFor base key value).Replaces asked) :
    asked.Below base := by
  have unfinished : (writeFor base key value).unfinished = base ++ unfinishedSegments key :=
    unfinished_writeFor base key value
  have some : unfinishedSegments key ≠ [] := by simp [unfinishedSegments]
  cases asked with
  | create path | remove path =>
      exact List.forall_mem_singleton.mpr ⟨_, some, replaces.trans unfinished⟩
  | rename source target =>
      refine List.forall_mem_cons.mpr ⟨⟨_, some, replaces.1.trans unfinished⟩, ?_⟩
      exact List.forall_mem_singleton.mpr ⟨_, keySegments_ne_nil key, replaces.2⟩
  | fill real contents | flush real => exact List.forall_mem_nil _
  | _ => cases replaces

/-- Where the base directory is there, only paths below it are named. -/
theorem calls_putting (there : FileTree.isDirectoryAt store.tree store.base = true)
    (deep : 1 < (keySegments key).length)
    (made : asked ∈ (store.putting key value).calls store.tree) : asked.Below store.base := by
  rcases putting_cases store key value with ⟨error, refused⟩ | ⟨valid, -, keyOnly⟩ |
    ⟨valid, -, writes⟩
  · rw [refused] at made
    cases made
  · rw [keyOnly, makingKeyOnly, calls, List.mem_cons] at made
    have some := keySegments_ne_nil key
    rcases made with rfl | made
    · exact below_of_isStep some (.inr rfl)
    · simp only [Call.perform] at made
      split at made
      · cases made
      · rw [calls_bind, List.mem_append] at made
        rcases made with made | made
        · obtain ⟨front, some, -, step⟩ :=
            calls_makeDirectories there some (isPlain_keySegments valid) made
          exact below_of_isStep some step
        · have none : ∀ made, (whenMade (.done (.ok ())) made).Keeps fun _ => False :=
            keeps_whenMade (.done _ _)
          exact ((none _).of_mem made).elim
      · cases made
  · have parent : (writeFor store.base key value).parent =
        store.base ++ (keySegments key).dropLast :=
      List.dropLast_append_of_ne_nil (keySegments_ne_nil key)
    have some : (keySegments key).dropLast ≠ [] := by
      rw [← List.length_pos_iff, List.length_dropLast]
      omega
    have plain : IsPlain (keySegments key).dropLast :=
      (isPlain_keySegments valid).upTo (List.dropLast_prefix _)
    rw [writes, Write.storing, parent, calls_bind, List.mem_append] at made
    rcases made with made | made
    · obtain ⟨front, some, -, step⟩ := calls_makeDirectories there some plain made
      exact below_of_isStep some step
    · exact below_of_replaces ((keeps_whenMade (keeps_replacing _) _).of_mem made)

theorem keeps_getting (store : DiskStore) (key : String) :
    (store.getting key).Keeps fun asked =>
      asked = .lookUp (store.pathOf key) ∨ asked = .read (store.pathOf key) := by
  unfold getting
  cases validateKey key with
  | error error => trivial
  | ok _ =>
      refine ⟨.inl rfl, fun found => ?_⟩
      cases found with
      | error error => cases error <;> trivial
      | ok node =>
          cases node with
          | file contents =>
              refine ⟨.inr rfl, fun read => ?_⟩
              cases read <;> trivial
          | _ => trivial

end Keys

end DiskStore

end Outpost.Store
