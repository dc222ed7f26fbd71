import TapeMachine.Proofs.Reading

namespace TapeMachine

namespace Stack

variable {α : Type}

theorem push_mild (stack : Stack α) (value : α) : Outcome.Mild (stack.push value).1 := by
  unfold push check
  dsimp only
  split
  · exact Outcome.mild_ok _
  · exact Outcome.mild_error rfl

/-- Values that are pushed one after the other come to stand above all others. Where one overflows the stack, those
behind it are missing. -/
theorem pushAll_spec (stack : Stack α) (values : List α) :
    Outcome.Mild (stack.pushAll values).1 ∧
      ∃ stored, (stack.pushAll values).2.toList = stack.toList ++ stored ∧
        ((stack.pushAll values).1 = .ok () → stored = values) := by
  induction values generalizing stack with
  | nil => exact ⟨Outcome.mild_ok _, [], by simp [pushAll], fun _ => rfl⟩
  | cons value rest ih =>
    obtain ⟨mild, stored, stands, whole⟩ := ih (stack.store value)
    rw [toList_store, List.append_assoc] at stands
    have mild' := stack.push_mild value
    have pushed : stack.push value = ((stack.store value).check, stack.store value) := rfl
    rw [pushed] at mild'
    rw [pushAll, pushed]
    cases checked : (stack.store value).check with
    | ok => exact ⟨mild, value :: stored, stands, fun done => by rw [whole done]⟩
    | error cause =>
      rw [checked] at mild'
      exact ⟨mild', [value], toList_store .., fun done => by cases done⟩

end Stack

namespace Builtin

variable {word : Builtin} {operands : List Value} {heap : Heap}

/-- The word asks for nothing, whatever comes of it. -/
def Quiet : Outcome Reply → Prop
  | .ok reply => ∀ kind prompt, reply.effect ≠ .input kind prompt
  | .error _ => True

theorem quiet_continue (results : List Value) (heap : Heap) : Quiet (.ok ⟨results, heap, .continue⟩) := by
  simp [Quiet]

theorem quiet_print (results : List Value) (heap : Heap) (text : String) :
    Quiet (.ok ⟨results, heap, .print text⟩) := by
  simp [Quiet]

/-- Only the words that take one operand of any type ask for input. -/
theorem Gives.quiet {reply : Reply} (gives : word.Gives heap reply) (other : word.inputs ≠ [.any]) :
    Quiet (.ok reply) := by
  cases gives with
  | stays | changes => exact quiet_continue _ _
  | prints => exact quiet_print _ _ _
  | asks _ _ asks => exact absurd asks other

/-- What a call of a word may come to: there are too few operands, or one of them has not its type, or else the results
have theirs and stand where the operands stood; unless the word fails for another reason. -/
inductive Keeps (word : Builtin) (operands : Stack Value) (heap : Heap) : Outcome Effect × Stack Value × Heap → Prop
  | short {cause : Cause} : operands.size < word.inputs.length → cause.code = .stackUnderflow →
      Keeps word operands heap (.error cause, operands, heap)
  | mismatch {cause : Cause} : word.inputs.length ≤ operands.size →
      ¬Value.HaveTypes word.inputs (operands.entries.take word.inputs.length).reverse → cause.code = .typeMismatch →
      Keeps word operands heap (.error cause, operands.drop word.inputs.length, heap)
  | failed {cause : Cause} {after : Stack Value} {above : List Value} {later : Heap} :
      word.inputs.length ≤ operands.size →
      Value.HaveTypes word.inputs (operands.entries.take word.inputs.length).reverse → cause.Harmless →
      after.toList = (operands.drop word.inputs.length).toList ++ above →
      Keeps word operands heap (.error cause, after, later)
  | delivered {reply : Reply} {after : Stack Value} : word.inputs.length ≤ operands.size →
      Value.HaveTypes word.inputs (operands.entries.take word.inputs.length).reverse →
      reply.Delivers word.outputs → (word.inputs ≠ [.any] → Quiet (.ok reply)) →
      after.toList = (operands.drop word.inputs.length).toList ++ reply.results →
      Keeps word operands heap (.ok reply.effect, after, reply.heap)

theorem keeps_of_ordinary (ordinary : word ∉ shuffles) (operands : Stack Value) (heap : Heap) :
    word.Keeps operands heap (word.call operands heap) := by
  rw [call_of_ordinary ordinary]
  rcases Nat.lt_or_ge operands.size word.inputs.length with short | enough
  · rw [Stack.pop_of_lt short]
    exact .short short rfl
  · rw [Stack.pop_of_le enough]
    dsimp only
    have count : (operands.entries.take word.inputs.length).reverse.length = word.inputs.length := by
      rw [List.length_reverse, List.length_take, ← operands.size_eq]
      omega
    by_cases typed : Value.HaveTypes word.inputs (operands.entries.take word.inputs.length).reverse
    · have meets := perform_meets ordinary typed heap
      cases performed : word.perform (operands.entries.take word.inputs.length).reverse heap with
      | error cause =>
        rw [performed] at meets
        exact .failed enough typed meets (List.append_nil _).symm
      | ok reply =>
        rw [performed] at meets
        obtain ⟨delivers, gives⟩ := meets
        obtain ⟨mild, stored, stands, whole⟩ := (operands.drop word.inputs.length).pushAll_spec reply.results
        dsimp only
        cases pushed : ((operands.drop word.inputs.length).pushAll reply.results).1 with
        | error cause => exact .failed enough typed (mild cause pushed) stands
        | ok =>
          rw [whole pushed] at stands
          exact .delivered enough typed delivers gives.quiet stands
    · obtain ⟨cause, performed, code⟩ := perform_mismatch ordinary count typed heap
      rw [performed]
      exact .mismatch enough typed code

/-- The words that work on the stack as it is keep to what they declare, too. -/
theorem keeps_of_shuffle (shuffle : word ∈ shuffles) (operands : Stack Value) (heap : Heap) :
    word.Keeps operands heap (word.call operands heap) := by
  cases word with
  | dup =>
    rw [call, Stack.dup]
    cases stands : operands.entries with
    | nil => exact .short (by simp [operands.size_eq, stands, inputs]) rfl
    | cons value rest =>
      have enough : 1 ≤ operands.size := by simp [operands.size_eq, stands]
      have typed : Value.HaveTypes dup.inputs (operands.entries.take 1).reverse := by
        rw [stands]
        exact .cons (.inl rfl) .nil
      have doubled : (operands.store value).toList = (operands.drop 1).toList ++ [value, value] := by
        simp [Stack.toList, Stack.store, Stack.drop, stands]
      have mild := operands.push_mild value
      dsimp only [Stack.push] at mild ⊢
      cases checked : (operands.store value).check with
      | error cause => exact .failed enough typed (mild cause checked) doubled
      | ok =>
        exact @Keeps.delivered dup operands heap ⟨[value, value], heap, .continue⟩ _ enough typed
          (.cons (.inl rfl) (.cons (.inl rfl) .nil)) (fun _ => quiet_continue _ _) doubled
  | swap =>
    rw [call, Stack.swap]
    cases stands : operands.entries with
    | nil => exact .short (by simp [operands.size_eq, stands, inputs]) rfl
    | cons first below =>
      cases below with
      | nil => exact .short (by simp [operands.size_eq, stands, inputs]) rfl
      | cons second rest =>
        have enough : 2 ≤ operands.size := by simp [operands.size_eq, stands]
        have typed : Value.HaveTypes swap.inputs (operands.entries.take 2).reverse := by
          rw [stands]
          exact .cons (.inl rfl) (.cons (.inl rfl) .nil)
        have swapped : (((operands.drop 2).store first).store second).toList =
            (operands.drop 2).toList ++ [first, second] := by
          rw [Stack.toList_store, Stack.toList_store, List.append_assoc]
          rfl
        exact @Keeps.delivered swap operands heap ⟨[first, second], heap, .continue⟩ _ enough typed
          (.cons (.inl rfl) (.cons (.inl rfl) .nil)) (fun _ => quiet_continue _ _) swapped
  | inspect =>
    exact @Keeps.delivered inspect operands heap ⟨[], heap, .print (inspection operands)⟩ _ (Nat.zero_le _) .nil .nil
      (fun _ => quiet_print _ _ _) (List.append_nil _).symm
  | _ => exact absurd shuffle (by decide)

namespace Keeps

variable {operands : Stack Value} {result : Outcome Effect × Stack Value × Heap}

theorem underflow_iff (keeps : word.Keeps operands heap result) :
    (∃ cause, result.1 = .error cause ∧ cause.code = .stackUnderflow) ↔ operands.size < word.inputs.length := by
  constructor
  · rintro ⟨cause, failed, underflow⟩
    cases keeps with
    | short short => exact short
    | mismatch _ _ code =>
      cases failed
      cases code.symm.trans underflow
    | failed _ _ harmless =>
      cases failed
      exact absurd underflow (harmless.ne rfl)
    | delivered => cases failed
  · intro short
    cases keeps with
    | short _ code => exact ⟨_, rfl, code⟩
    | mismatch enough | failed enough | delivered enough => omega

theorem untouched (keeps : word.Keeps operands heap result) (short : operands.size < word.inputs.length) :
    result.2 = (operands, heap) := by
  cases keeps with
  | short => rfl
  | mismatch enough | failed enough | delivered enough => omega

theorem mismatch_iff (keeps : word.Keeps operands heap result) :
    (∃ cause, result.1 = .error cause ∧ cause.code = .typeMismatch) ↔ word.inputs.length ≤ operands.size ∧
      ¬Value.HaveTypes word.inputs (operands.entries.take word.inputs.length).reverse := by
  constructor
  · rintro ⟨cause, failed, mismatch⟩
    cases keeps with
    | short _ code =>
      cases failed
      cases code.symm.trans mismatch
    | mismatch enough untyped => exact ⟨enough, untyped⟩
    | failed _ _ harmless =>
      cases failed
      exact absurd mismatch (harmless.ne rfl)
    | delivered => cases failed
  · rintro ⟨enough, untyped⟩
    cases keeps with
    | short short => omega
    | mismatch _ _ code => exact ⟨_, rfl, code⟩
    | failed _ typed | delivered _ typed => exact absurd typed untyped

theorem dropped (keeps : word.Keeps operands heap result) (enough : word.inputs.length ≤ operands.size)
    (untyped : ¬Value.HaveTypes word.inputs (operands.entries.take word.inputs.length).reverse) :
    result.2 = (operands.drop word.inputs.length, heap) := by
  cases keeps with
  | short short => omega
  | mismatch => rfl
  | failed _ typed | delivered _ typed => exact absurd typed untyped

theorem answers (keeps : word.Keeps operands heap result) :
    ∀ effect, result.1 = .ok effect →
      match effect with
      | .continue | .print _ =>
        ∃ results, Value.HaveTypes word.outputs results ∧
          result.2.1.toList = (operands.drop word.inputs.length).toList ++ results
      | .input kind _ => word.inputs.length = 1 ∧ word.outputs = [kind.ty] ∧
          result.2.1.toList = (operands.drop word.inputs.length).toList := by
  intro effect done
  cases keeps with
  | short | mismatch | failed => cases done
  | @delivered reply after enough typed delivers quiet stands =>
    cases done
    obtain ⟨results, heap', effect⟩ := reply
    cases effect with
    | «continue» | print => exact ⟨results, delivers, stands⟩
    | input kind prompt =>
      obtain ⟨rfl, declared⟩ := delivers
      have single : word.inputs = [.any] := by
        by_contra other
        exact quiet other kind prompt rfl
      exact ⟨by rw [single]; rfl, declared, by simpa using stands⟩

theorem above (keeps : word.Keeps operands heap result) :
    ∃ above, result.2.1.toList = (operands.drop word.inputs.length).toList ++ above := by
  cases keeps with
  | short => exact ⟨_, operands.toList_eq_append _⟩
  | mismatch => exact ⟨[], (List.append_nil _).symm⟩
  | failed _ _ _ stands => exact ⟨_, stands⟩
  | delivered _ _ _ _ stands => exact ⟨_, stands⟩

end Keeps

theorem call_keeps (word : Builtin) (operands : Stack Value) (heap : Heap) :
    word.Keeps operands heap (word.call operands heap) := by
  by_cases shuffle : word ∈ shuffles
  · exact keeps_of_shuffle shuffle operands heap
  · exact keeps_of_ordinary shuffle operands heap

end Builtin

/-- Every word keeps to the signature that it declares, whatever is on the stack and in the heap. There are too few
operands if and only if the stack is smaller than the signature says, and then nothing changes. One of them is of a
wrong type if and only if there are enough but not all are of the types declared, and then the operands are gone and
the heap is as it was. Where a word does its work, results of the types declared, and no others, stand in the place of
the operands; if it asks for input, that is the one result still to come. What was below the operands always stays. -/
theorem builtins_keep_signatures (word : Builtin) (operands : Stack Value) (heap : Heap) :
    let taken := (operands.entries.take word.inputs.length).reverse
    let rest := operands.drop word.inputs.length
    let result := word.call operands heap
    ((∃ cause, result.1 = .error cause ∧ cause.code = .stackUnderflow) ↔ operands.size < word.inputs.length) ∧
    (operands.size < word.inputs.length → result.2 = (operands, heap)) ∧
    ((∃ cause, result.1 = .error cause ∧ cause.code = .typeMismatch) ↔
      word.inputs.length ≤ operands.size ∧ ¬Value.HaveTypes word.inputs taken) ∧
    (word.inputs.length ≤ operands.size → ¬Value.HaveTypes word.inputs taken → result.2 = (rest, heap)) ∧
    (∀ effect, result.1 = .ok effect →
      match effect with
      | .continue | .print _ =>
        ∃ results, Value.HaveTypes word.outputs results ∧ result.2.1.toList = rest.toList ++ results
      | .input kind _ => word.inputs.length = 1 ∧ word.outputs = [kind.ty] ∧ result.2.1.toList = rest.toList) ∧
    ∃ above, result.2.1.toList = rest.toList ++ above := by
  have keeps := word.call_keeps operands heap
  exact ⟨keeps.underflow_iff, keeps.untouched, keeps.mismatch_iff, keeps.dropped, keeps.answers, keeps.above⟩

end TapeMachine
