import Outpost.Stream.Tee

/-!
# What polling leaves of a source

A source brings its bytes in order and meets one fate.  Polling it moves bytes from the source to
the answer, and neither the rest of the bytes nor the fate depends on when it is polled.
-/

namespace Outpost.Stream

inductive Fate where
  | ends
  | fails (message : String)
  | stalls
  deriving DecidableEq, Repr

namespace Source

def fateOf : List Item → Fate
  | [] => .ends
  | .failure message :: _ => .fails message
  | .silence :: _ => .stalls
  | _ :: rest => fateOf rest

def fate (source : Source) : Fate := fateOf source.items

@[simp] theorem bytes_nil : bytes ⟨[]⟩ = [] := rfl

@[simp] theorem bytes_chunk (chunk : Bytes) (rest : List Item) :
    bytes ⟨.chunk chunk :: rest⟩ = chunk ++ bytes ⟨rest⟩ := by
  simp [bytes]

@[simp] theorem bytes_hold (rest : List Item) : bytes ⟨.hold :: rest⟩ = bytes ⟨rest⟩ := by
  simp [bytes]

@[simp] theorem bytes_delay (duration : Nat) (rest : List Item) :
    bytes ⟨.delay duration :: rest⟩ = bytes ⟨rest⟩ := by
  simp [bytes]

@[simp] theorem bytes_timer (time : Nat) (rest : List Item) :
    bytes ⟨.timer time :: rest⟩ = bytes ⟨rest⟩ := by
  simp [bytes]

@[simp] theorem bytes_silence (rest : List Item) : bytes ⟨.silence :: rest⟩ = [] := by
  simp [bytes]

@[simp] theorem bytes_failure (message : String) (rest : List Item) :
    bytes ⟨.failure message :: rest⟩ = [] := by
  simp [bytes]

@[simp] theorem bytes_ofBytes (payload : Bytes) : (ofBytes payload).bytes = payload := by
  cases payload <;> simp [ofBytes]

@[simp] theorem fate_ofBytes (payload : Bytes) : (ofBytes payload).fate = .ends := by
  cases payload <;> simp [ofBytes, fate, fateOf]

/-- A poll took `before` to `after` and brought this answer. -/
def Answers (before after : Source) : Poll String → Prop
  | .pending => after.bytes = before.bytes ∧ after.fate = before.fate
  | .chunk chunk => chunk ++ after.bytes = before.bytes ∧ after.fate = before.fate
  | .ended => before.bytes = [] ∧ before.fate = .ends
  | .failed message => before.bytes = [] ∧ before.fate = .fails message

theorem pollItems_answers (now : Nat) (items : List Item) :
    Answers ⟨items⟩ ⟨(pollItems now items).1⟩ (pollItems now items).2 := by
  fun_induction pollItems now items <;> simp_all [Answers, fate, fateOf]

theorem pollSource_answers (now : Nat) (items : List Item) :
    Answers ⟨items⟩ ⟨(Tee.pollSource now items).1⟩ (Tee.pollSource now items).2 := by
  fun_induction Tee.pollSource now items with
  | case6 items => exact pollItems_answers now items
  | _ => simp_all [Answers, fate, fateOf]

end Source

end Outpost.Stream
