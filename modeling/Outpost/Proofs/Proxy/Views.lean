import Outpost.Proxy.Engine

/-!
# Exchanges, tasks and tees by number

An engine keeps its exchanges, tasks and tees in lists, and looks each of them up by the number
of its exchange.  Each way of changing the engine is described by what it does to these three
look-ups.
-/

namespace Outpost.Proxy

open Api Cache Config Http Store Outpost.Stream

/-! ## Rows with a number each -/

section Rows

variable {α : Type} (number : α → Nat)

def row (rows : List α) (id : Nat) : Option α := rows.find? fun entry => number entry == id

theorem number_of_row {rows : List α} {id : Nat} {entry : α}
    (h : row number rows id = some entry) : number entry = id := by
  simpa using List.find?_some h

theorem row_replace (rows : List α) (entry : α) (id : Nat) :
    row number (rows.map fun other => if number other = number entry then entry else other) id =
      if id = number entry then (row number rows id).map fun _ => entry
      else row number rows id := by
  unfold row
  induction rows with
  | nil => simp
  | cons first rest ih =>
      by_cases hid : id = number entry
      · subst hid
        by_cases hfirst : number first = number entry <;> simp_all
      · by_cases hfirst : number first = number entry
        · simp_all [Ne.symm hid]
        · by_cases hfound : number first = id <;> simp_all

theorem row_remove (rows : List α) (gone id : Nat) :
    row number (rows.filter fun entry => number entry ≠ gone) id =
      if id = gone then none else row number rows id := by
  unfold row
  induction rows with
  | nil => simp
  | cons first rest ih =>
      by_cases hfirst : number first = gone <;> by_cases hfound : number first = id <;>
        by_cases hid : id = gone <;> simp_all

theorem row_append (rows more : List α) (id : Nat) :
    row number (rows ++ more) id = (row number rows id).or (row number more id) :=
  List.find?_append

theorem row_singleton (entry : α) (id : Nat) :
    row number [entry] id = if number entry = id then some entry else none := by
  by_cases h : number entry = id <;> simp [row, h]

end Rows

/-- What an engine keeps under one number. -/
structure Slot where
  exchange : Option Exchange
  task : Option CachingTask
  tee : Option Tee

/-- What the exchanges and tasks of an engine share. -/
structure Shared where
  tiers : Tiers
  store : CountedStore
  lines : Lines

structure Frame where
  handler : HandlerKind
  nextId : Nat

namespace Engine

def slot (engine : Engine) (id : Nat) : Slot :=
  ⟨engine.exchange? id, engine.task? id, engine.tee? id⟩

def shared (engine : Engine) : Shared := ⟨engine.tiers, engine.store, engine.lines⟩

def frame (engine : Engine) : Frame := ⟨engine.handler, engine.nextId⟩

variable {engine : Engine} {exchange : Exchange} {task : CachingTask} {tee : Tee}

theorem id_of_exchange? {id : Nat} (h : engine.exchange? id = some exchange) :
    exchange.id = id :=
  number_of_row Exchange.id h

theorem exchange_of_task? {id : Nat} (h : engine.task? id = some task) : task.exchange = id :=
  number_of_row CachingTask.exchange h

/-! ## Looking up after a change -/

theorem exchange?_setExchange (id : Nat) :
    (engine.setExchange exchange).exchange? id =
      if id = exchange.id then (engine.exchange? id).map fun _ => exchange
      else engine.exchange? id :=
  row_replace Exchange.id engine.exchanges exchange id

theorem exchange?_removeExchange (gone id : Nat) :
    (engine.removeExchange gone).exchange? id =
      if id = gone then none else engine.exchange? id :=
  row_remove Exchange.id engine.exchanges gone id

theorem task?_setTask (id : Nat) :
    (engine.setTask task).task? id =
      if id = task.exchange then (engine.task? id).map fun _ => task else engine.task? id :=
  row_replace CachingTask.exchange engine.tasks task id

theorem task?_removeTask (gone id : Nat) :
    (engine.removeTask gone).task? id = if id = gone then none else engine.task? id :=
  row_remove CachingTask.exchange engine.tasks gone id

theorem tee?_setTee (owner id : Nat) :
    (engine.setTee owner tee).tee? id =
      if id = owner then (engine.tee? id).map fun _ => tee else engine.tee? id := by
  have h := row_replace Prod.fst engine.tees (owner, tee) id
  unfold tee? setTee
  simp only [row] at h
  simp only [h]
  split
  · rw [Option.map_map, Option.map_map]
    rfl
  · rfl

/-! ## Slots after a change -/

theorem slot_setExchange (id : Nat) :
    (engine.setExchange exchange).slot id =
      { engine.slot id with
        exchange := if id = exchange.id then (engine.exchange? id).map fun _ => exchange
          else engine.exchange? id } := by
  rw [← exchange?_setExchange]
  rfl

theorem slot_removeExchange (gone id : Nat) :
    (engine.removeExchange gone).slot id =
      { engine.slot id with
        exchange := if id = gone then none else engine.exchange? id } := by
  rw [← exchange?_removeExchange]
  rfl

theorem slot_setTask (id : Nat) :
    (engine.setTask task).slot id =
      { engine.slot id with
        task := if id = task.exchange then (engine.task? id).map fun _ => task
          else engine.task? id } := by
  rw [← task?_setTask]
  rfl

theorem slot_removeTask (gone id : Nat) :
    (engine.removeTask gone).slot id =
      { engine.slot id with task := if id = gone then none else engine.task? id } := by
  rw [← task?_removeTask]
  rfl

theorem slot_setTee (owner id : Nat) :
    (engine.setTee owner tee).slot id =
      { engine.slot id with
        tee := if id = owner then (engine.tee? id).map fun _ => tee else engine.tee? id } := by
  rw [← tee?_setTee]
  rfl

theorem slot_append (engine : Engine) (task : CachingTask) (tee : Tee) (id : Nat) :
    slot { engine with
        tasks := engine.tasks ++ [task]
        tees := engine.tees ++ [(task.exchange, tee)] } id =
      { exchange := engine.exchange? id
        task := (engine.task? id).or (if task.exchange = id then some task else none)
        tee := (engine.tee? id).or (if task.exchange = id then some tee else none) } := by
  have tasks : row CachingTask.exchange (engine.tasks ++ [task]) id =
      (engine.task? id).or (if task.exchange = id then some task else none) := by
    rw [row_append, row_singleton]
    rfl
  have tees : (row Prod.fst (engine.tees ++ [(task.exchange, tee)]) id).map (·.2) =
      (engine.tee? id).or (if task.exchange = id then some tee else none) := by
    rw [row_append, row_singleton, Option.map_or]
    by_cases h : task.exchange = id
    · rw [if_pos h, if_pos h]
      rfl
    · rw [if_neg h, if_neg h]
      rfl
  rw [← tasks, ← tees]
  rfl

def linesWithout (engine : Engine) (exchange : Exchange) : Lines :=
  match exchange.gate with
  | none => engine.lines
  | some gate => engine.lines.leave gate exchange.id

theorem shared_leaveGate (engine : Engine) (exchange : Exchange) :
    (engine.leaveGate exchange).shared =
      { engine.shared with lines := engine.linesWithout exchange } := by
  unfold leaveGate linesWithout
  cases exchange.gate <;> rfl

end Engine

end Outpost.Proxy
