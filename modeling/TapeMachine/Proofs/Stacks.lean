import TapeMachine.Stack

namespace TapeMachine.Stack

variable {α : Type} {stack rest next : Stack α} {values : List α} {value : α}

/-- Read from the bottom up, the entries on top are the last ones. -/
theorem toList_eq_append (stack : Stack α) (count : Nat) :
    stack.toList = (stack.drop count).toList ++ (stack.entries.take count).reverse := by
  rw [toList, toList, drop, ← List.reverse_append, List.take_append_drop]

/-- Enough entries: they are taken together, the deepest of them first. -/
theorem pop_of_le {count : Nat} (enough : count ≤ stack.size) :
    stack.pop count = .ok ((stack.entries.take count).reverse, stack.drop count) := by
  rw [pop, top, if_pos enough]
  rfl

/-- Too few entries: nothing is taken, and the failure tells both numbers. -/
theorem pop_of_lt {count : Nat} (short : stack.size < count) :
    stack.pop count = .error (.tooFew count stack.size) := by
  rw [pop, top, if_neg (by omega)]
  rfl

/-- What has been taken stood on top, and the rest is the stack that remains. -/
theorem entries_of_pop {count : Nat} (popped : stack.pop count = .ok (values, rest)) :
    ∃ taken, stack.entries = taken ++ rest.entries ∧ taken.length = count ∧ values = taken.reverse := by
  unfold pop top at popped
  split at popped
  · rename_i enough
    cases popped
    rw [stack.size_eq] at enough
    exact ⟨stack.entries.take count, (List.take_append_drop ..).symm, List.length_take_of_le enough, rfl⟩
  · cases popped

theorem entries_of_popOne (popped : stack.popOne = .ok (value, rest)) : stack.entries = value :: rest.entries := by
  unfold popOne at popped
  split at popped
  · rename_i entries
    cases popped
    show stack.entries = value :: stack.entries.drop 1
    rw [entries]
    rfl
  · cases popped

/-- A push that is accepted puts the value on top. -/
theorem entries_of_push (pushed : accepted (stack.push value) = .ok next) : next.entries = value :: stack.entries := by
  unfold push accepted check at pushed
  dsimp only at pushed
  split at pushed
  · cases pushed
    rfl
  · cases pushed

/-- Values are pushed from the left, so the last one comes to stand on top. -/
theorem entries_of_pushAll (pushed : accepted (stack.pushAll values) = .ok next) :
    next.entries = values.reverse ++ stack.entries := by
  induction values generalizing stack with
  | nil =>
    cases pushed
    rfl
  | cons value rest ih =>
    rw [pushAll] at pushed
    cases result : stack.push value with
    | mk outcome between =>
      cases outcome with
      | error => rw [result] at pushed; cases pushed
      | ok =>
        have stored : accepted (stack.push value) = .ok between := by rw [result]; rfl
        rw [result] at pushed
        rw [ih pushed, entries_of_push stored, List.reverse_cons, List.append_assoc]
        rfl

theorem entries_of_dup (pushed : accepted stack.dup = .ok next) :
    ∃ value entries, stack.entries = value :: entries ∧ next.entries = value :: value :: entries := by
  unfold dup at pushed
  split at pushed
  · rename_i value entries found
    exact ⟨value, entries, found, by rw [entries_of_push pushed, found]⟩
  · cases pushed

theorem entries_of_swap (swapped : stack.swap = .ok next) :
    ∃ first second entries, stack.entries = first :: second :: entries ∧
      next.entries = second :: first :: entries := by
  unfold swap at swapped
  split at swapped
  · rename_i first second entries found
    cases swapped
    refine ⟨first, second, entries, found, ?_⟩
    show second :: first :: stack.entries.drop 2 = _
    rw [found]
    rfl
  · cases swapped

end TapeMachine.Stack
