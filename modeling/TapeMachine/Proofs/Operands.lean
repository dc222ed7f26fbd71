import TapeMachine.Proofs.Contracts

namespace TapeMachine

namespace Stack

variable {α : Type}

/-- Values put on top one after the other, the last one uppermost, whatever the size. -/
def storeAll (stack : Stack α) (values : List α) : Stack α :=
  values.foldl store stack

@[simp]
theorem storeAll_nil (stack : Stack α) : stack.storeAll [] = stack :=
  rfl

@[simp]
theorem storeAll_cons (stack : Stack α) (value : α) (rest : List α) :
    stack.storeAll (value :: rest) = (stack.store value).storeAll rest :=
  rfl

@[simp]
theorem size_store (stack : Stack α) (value : α) : (stack.store value).size = stack.size + 1 :=
  rfl

theorem entries_storeAll (stack : Stack α) (values : List α) :
    (stack.storeAll values).entries = values.reverse ++ stack.entries := by
  induction values generalizing stack with
  | nil => rfl
  | cons value rest ih => rw [storeAll_cons, ih, List.reverse_cons, List.append_assoc]; rfl

theorem label_storeAll (stack : Stack α) (values : List α) : (stack.storeAll values).label = stack.label := by
  induction values generalizing stack with
  | nil => rfl
  | cons value rest ih => exact ih (stack.store value)

theorem size_storeAll (stack : Stack α) (values : List α) :
    (stack.storeAll values).size = stack.size + values.length := by
  rw [size_eq, entries_storeAll, List.length_append, List.length_reverse, ← stack.size_eq, Nat.add_comm]

theorem drop_storeAll (stack : Stack α) (values : List α) :
    (stack.storeAll values).drop values.length = stack := by
  refine ext (label_storeAll stack values) ?_
  show (stack.storeAll values).entries.drop values.length = stack.entries
  rw [entries_storeAll, ← List.length_reverse, List.drop_left]

/-- What has been put on top is what comes off. -/
theorem pop_storeAll (stack : Stack α) (values : List α) :
    (stack.storeAll values).pop values.length = .ok (values, stack) := by
  rw [pop_of_le (by rw [size_storeAll]; omega), drop_storeAll, entries_storeAll, ← List.length_reverse, List.take_left,
    List.reverse_reverse]

theorem drop_store (stack : Stack α) (value : α) : (stack.store value).drop 1 = stack :=
  stack.drop_storeAll [value]

theorem popOne_store (stack : Stack α) (value : α) : (stack.store value).popOne = .ok (value, stack) := by
  show Except.ok (value, (stack.store value).drop 1) = _
  rw [drop_store]

theorem push_of_room {stack : Stack α} (room : stack.size < limit) (value : α) :
    stack.push value = (.ok (), stack.store value) := by
  rw [push, check, if_pos (by rw [size_store]; omega)]

theorem push_of_full {stack : Stack α} (full : limit ≤ stack.size) (value : α) :
    stack.push value = (.error (.stackFull stack.label), stack.store value) := by
  rw [push, check, if_neg (by rw [size_store]; omega)]
  rfl

theorem pushAll_of_room {stack : Stack α} {values : List α} (room : stack.size + values.length ≤ limit) :
    stack.pushAll values = (.ok (), stack.storeAll values) := by
  induction values generalizing stack with
  | nil => rfl
  | cons value rest ih =>
    rw [List.length_cons] at room
    rw [pushAll, push_of_room (by omega)]
    exact ih (by rw [size_store]; omega)

end Stack

namespace Builtin

variable {word : Builtin} {values : List Value} {heap : Heap} {cause : Cause} {reply : Reply}

/-- A word takes its operands off the stack and puts its results there. -/
theorem call_of_performed (ordinary : word ∉ shuffles) (count : values.length = word.inputs.length)
    (performed : word.perform values heap = .ok reply) {below : Stack Value}
    (room : below.size + reply.results.length ≤ Stack.limit) :
    word.call (below.storeAll values) heap = (.ok reply.effect, below.storeAll reply.results, reply.heap) := by
  rw [call_of_ordinary ordinary, ← count, Stack.pop_storeAll]
  simp only [performed, Stack.pushAll_of_room room]
  rfl

/-- A word that does not like its operands takes them all the same, and leaves the heap alone. -/
theorem call_of_refused (ordinary : word ∉ shuffles) (count : values.length = word.inputs.length)
    (performed : word.perform values heap = .error cause) (below : Stack Value) :
    word.call (below.storeAll values) heap = (.error cause, below, heap) := by
  rw [call_of_ordinary ordinary, ← count, Stack.pop_storeAll]
  simp only [performed]

end Builtin

end TapeMachine
