import TapeMachine.Fault

namespace TapeMachine

/-- A stack that may hold 65535 entries, top first. Its label names it when it overflows. The size is
kept beside the entries, so that a push costs the same at every depth. -/
structure Stack (α : Type) where
  label : String
  entries : List α := []
  size : Nat := entries.length
  size_eq : size = entries.length := by rfl

namespace Stack

variable {α : Type}

def limit : Nat := 65535

theorem ext {a b : Stack α} (label : a.label = b.label) (entries : a.entries = b.entries) : a = b := by
  cases a with
  | mk labelA entriesA sizeA sizeA_eq =>
    cases b with
    | mk labelB entriesB sizeB sizeB_eq =>
      cases label
      cases entries
      cases sizeA_eq
      cases sizeB_eq
      rfl

/-- The entries, deepest first. -/
def toList (stack : Stack α) : List α :=
  stack.entries.reverse

/-- Put `value` on top, whatever the size. -/
def store (stack : Stack α) (value : α) : Stack α where
  label := stack.label
  entries := value :: stack.entries
  size := stack.size + 1
  size_eq := by rw [List.length_cons, stack.size_eq]

/-- Is the stack within its limit? -/
def check (stack : Stack α) : Outcome Unit :=
  if stack.size ≤ limit then .ok () else .error (.stackFull stack.label)

/-- Put `value` on top, then look at the limit: a push that fails has stored its value. -/
def push (stack : Stack α) (value : α) : Outcome Unit × Stack α :=
  ((stack.store value).check, stack.store value)

/-- Push one value after the other until one fails. -/
def pushAll : Stack α → List α → Outcome Unit × Stack α
  | stack, [] => (.ok (), stack)
  | stack, value :: rest =>
    match stack.push value with
    | (.ok _, next) => next.pushAll rest
    | (.error cause, next) => (.error cause, next)

/-- The stack behind a push that has not failed. -/
def accepted (pushed : Outcome Unit × Stack α) : Outcome (Stack α) :=
  pushed.1.map fun _ => pushed.2

/-- The stack without its top `count` entries. -/
def drop (stack : Stack α) (count : Nat) : Stack α where
  label := stack.label
  entries := stack.entries.drop count
  size := stack.size - count
  size_eq := by rw [List.length_drop, stack.size_eq]

/-- The top `count` entries, deepest first. -/
def top (stack : Stack α) (count : Nat) : Outcome (List α) :=
  if count ≤ stack.size then .ok (stack.entries.take count).reverse
  else .error (.tooFew count stack.size)

/-- Take the top `count` entries off, deepest first. -/
def pop (stack : Stack α) (count : Nat) : Outcome (List α × Stack α) :=
  (stack.top count).map fun values => (values, stack.drop count)

/-- Take the top entry off. -/
def popOne (stack : Stack α) : Outcome (α × Stack α) :=
  match stack.entries with
  | value :: _ => .ok (value, stack.drop 1)
  | [] => .error (.tooFew 1 stack.size)

/-- Push the top entry once more. -/
def dup (stack : Stack α) : Outcome Unit × Stack α :=
  match stack.entries with
  | value :: _ => stack.push value
  | [] => (.error (.tooFew 1 stack.size), stack)

/-- Exchange the two top entries. The size does not change, so the limit is not looked at. -/
def swap (stack : Stack α) : Outcome (Stack α) :=
  match stack.entries with
  | first :: second :: _ => .ok (((stack.drop 2).store first).store second)
  | _ => .error (.tooFew 2 stack.size)

theorem size_of_popOne {stack rest : Stack α} {value : α} (taken : stack.popOne = .ok (value, rest)) :
    rest.size + 1 = stack.size := by
  unfold popOne at taken
  split at taken
  · rename_i found tail entries
    cases taken
    have positive : 0 < stack.size := by rw [stack.size_eq, entries]; exact Nat.succ_pos _
    exact Nat.sub_add_cancel positive
  · cases taken

@[simp]
theorem toList_store (stack : Stack α) (value : α) :
    (stack.store value).toList = stack.toList ++ [value] := by
  simp [toList, store]

end Stack

end TapeMachine
