import Mathlib.Data.List.Forall2
import TapeMachine.Builtin.Call
import TapeMachine.Proofs.Stacks

namespace TapeMachine

/-- A value of a type; every value is one of type `any`. -/
def Value.HasType (value : Value) (t : Ty) : Prop :=
  t = .any ∨ value.ty = t

instance (value : Value) (t : Ty) : Decidable (value.HasType t) :=
  inferInstanceAs (Decidable (_ ∨ _))

namespace Value

/-- A value of type `number` is a number: only the type `any` leaves it open what a value is. -/
theorem HasType.number_inv {value : Value} (typed : value.HasType .number) : ∃ n, value = .number n := by
  rcases typed with other | same
  · cases other
  · cases value <;> first | exact ⟨_, rfl⟩ | cases same

theorem HasType.string_inv {value : Value} (typed : value.HasType .string) : ∃ text, value = .string text := by
  rcases typed with other | same
  · cases other
  · cases value <;> first | exact ⟨_, rfl⟩ | cases same

theorem HasType.pointer_inv {value : Value} (typed : value.HasType .pointer) : ∃ address, value = .pointer address := by
  rcases typed with other | same
  · cases other
  · cases value <;> first | exact ⟨_, rfl⟩ | cases same

/-- The values have these types, one beside the other. -/
abbrev HaveTypes (types : List Ty) (values : List Value) : Prop :=
  List.Forall₂ (fun t value => value.HasType t) types values

theorem HaveTypes.one_inv {t : Ty} {values : List Value} (typed : HaveTypes [t] values) :
    ∃ value, values = [value] ∧ value.HasType t := by
  cases typed with
  | cons first rest =>
    cases rest
    exact ⟨_, rfl, first⟩

/-- Two types have two values, and each has its own. -/
theorem HaveTypes.two_inv {t u : Ty} {values : List Value} (typed : HaveTypes [t, u] values) :
    ∃ first second, values = [first, second] ∧ first.HasType t ∧ second.HasType u := by
  cases typed with
  | cons first rest =>
    obtain ⟨second, rfl, last⟩ := one_inv rest
    exact ⟨_, _, rfl, first, last⟩

/-- Two operands for arithmetic. -/
theorem HaveTypes.numbers_inv {values : List Value} (typed : HaveTypes [.number, .number] values) :
    ∃ a b, values = [.number a, .number b] := by
  obtain ⟨first, second, rfl, left, right⟩ := two_inv typed
  obtain ⟨a, rfl⟩ := left.number_inv
  obtain ⟨b, rfl⟩ := right.number_inv
  exact ⟨a, b, rfl⟩

theorem HaveTypes.number_inv {values : List Value} (typed : HaveTypes [.number] values) :
    ∃ n, values = [.number n] := by
  obtain ⟨value, rfl, single⟩ := one_inv typed
  obtain ⟨n, rfl⟩ := single.number_inv
  exact ⟨n, rfl⟩

theorem haveTypes_number (n : Decimal) : HaveTypes [.number] [.number n] :=
  .cons (.inr rfl) .nil

end Value

/-- Failures that have to do with what a program computes, not with how deep its stack is, what its names
are or which types it has, and not with the machine itself. -/
def Code.isHarmless : Code → Bool
  | stackUnderflow | undefinedName | typeMismatch | internalError => false
  | _ => true

def Cause.Harmless (cause : Cause) : Prop :=
  cause.code.isHarmless = true

/-- A harmless cause has none of the four codes that are not harmless. -/
theorem Cause.Harmless.ne {cause : Cause} {code : Code} (harmless : cause.Harmless) (bad : code.isHarmless = false) :
    cause.code ≠ code := by
  rintro rfl
  rw [Cause.Harmless, bad] at harmless
  cases harmless

/-- An outcome that fails in harmless ways only. -/
def Outcome.Mild {α : Type} (outcome : Outcome α) : Prop :=
  ∀ cause, outcome = .error cause → cause.Harmless

namespace Outcome

variable {α β : Type}

theorem mild_ok (found : α) : Mild (.ok found : Outcome α) := by
  intro cause failed
  cases failed

theorem mild_error {cause : Cause} (harmless : cause.Harmless) : Mild (.error cause : Outcome α) := by
  intro other failed
  cases failed
  exact harmless

/-- A sequence of mild outcomes is mild. -/
theorem Mild.bind {outcome : Outcome α} {next : α → Outcome β} (mild : outcome.Mild)
    (later : ∀ found, (next found).Mild) : Outcome.Mild (Except.bind outcome next) := by
  cases outcome with
  | ok found => exact later found
  | error cause => exact mild_error (mild cause rfl)

theorem Mild.map {outcome : Outcome α} (f : α → β) (mild : outcome.Mild) : Outcome.Mild (Except.map f outcome) := by
  cases outcome with
  | ok found => exact mild_ok _
  | error cause => exact mild_error (mild cause rfl)

end Outcome

open Outcome

/-- A text that is no number is refused for what it says. -/
theorem Decimal.parse_mild (text : String) : (Decimal.parse text).Mild := by
  unfold Decimal.parse
  dsimp only
  split
  · exact mild_ok _
  · exact mild_error rfl

/-- A number is not a count if it is too large; below 0 it counts as none. -/
theorem Decimal.toCount_mild (n : Decimal) : n.toCount.Mild := by
  unfold Decimal.toCount
  split
  · exact mild_ok _
  · split
    · exact mild_ok _
    · exact mild_error rfl

theorem Decimal.toSize_mild (n : Decimal) : n.toSize.Mild := by
  unfold Decimal.toSize
  split
  · exact mild_error rfl
  · exact mild_ok _

theorem Decimal.moveAddress_mild (n : Decimal) (base : Nat) : (n.moveAddress base).Mild := by
  unfold Decimal.moveAddress
  dsimp only
  split
  · exact mild_ok _
  · exact mild_error rfl

namespace Heap

theorem alloc_mild (heap : Heap) (size : Nat) : (heap.alloc size).Mild := by
  unfold alloc
  split
  · exact mild_error rfl
  · split
    · exact mild_ok _
    · exact mild_error rfl

theorem free_mild (heap : Heap) (address : Nat) : (heap.free address).Mild := by
  unfold free
  split
  · exact mild_ok _
  · exact mild_error rfl

/-- An address may lie beyond the memory or in no region that is used, and both are the program's doing. -/
theorem cellsAt_mild (heap : Heap) (address : Nat) : (heap.cellsAt address).Mild := by
  unfold cellsAt
  split
  · exact mild_error rfl
  · split
    · exact mild_ok _
    · exact mild_error rfl

theorem save_mild (heap : Heap) (address : Nat) (value : Value) : (heap.save address value).Mild := by
  unfold save
  split
  · exact mild_ok _
  · rename_i cause failed
    exact mild_error (heap.cellsAt_mild address cause failed)

/-- Texts fail to be stored as single values do. -/
theorem saveAll_mild (heap : Heap) (address : Nat) (values : List Value) : (heap.saveAll address values).Mild := by
  induction values generalizing heap address with
  | nil => exact mild_ok _
  | cons value rest ih =>
    rw [saveAll]
    split
    · exact ih _ _
    · rename_i cause failed
      exact mild_error (heap.save_mild address value cause failed)

/-- A slot that nothing has been stored in is one more way to fail. -/
theorem load_mild (heap : Heap) (address : Nat) : (heap.load address).Mild := by
  unfold load
  split
  · split
    · exact mild_ok _
    · exact mild_error rfl
  · rename_i cause failed
    exact mild_error (heap.cellsAt_mild address cause failed)

end Heap

namespace Builtin

variable {word : Builtin} {operands : List Value} {heap : Heap} {reply : Reply}

/-- The words that work on the stack as it is. -/
def shuffles : List Builtin :=
  [dup, swap, inspect]

/-- The words that work on regions. -/
def regional : List Builtin :=
  [stringToCells, alloc, free, save]

/-- All other words take their operands off the stack, and put their results there unless they fail. -/
theorem call_of_ordinary (ordinary : word ∉ shuffles) (operands : Stack Value) (heap : Heap) :
    word.call operands heap =
      match operands.pop word.inputs.length with
      | .error cause => (.error cause, operands, heap)
      | .ok (taken, rest) =>
        match word.perform taken heap with
        | .error cause => (.error cause, rest, heap)
        | .ok reply =>
          ((rest.pushAll reply.results).1.map fun _ => reply.effect, (rest.pushAll reply.results).2, reply.heap) := by
  rw [← word.arity_eq]
  cases word with
  | dup | swap | inspect => exact (ordinary (by decide)).elim
  | _ => rfl

/-- The results of a word have the types that it declares; input is a result still to come. -/
def Reply.Delivers (reply : Reply) (types : List Ty) : Prop :=
  match reply.effect with
  | .input kind _ => reply.results = [] ∧ types = [kind.ty]
  | .continue | .print _ => Value.HaveTypes types reply.results

/-- How a word replies: it prints, or asks, which only the words that take one operand of any type do, or goes on with
results, and the heap is another one only if the word works on regions. -/
inductive Gives (word : Builtin) (heap : Heap) : Reply → Prop
  | stays (results : List Value) : Gives word heap ⟨results, heap, .continue⟩
  | prints (text : String) : Gives word heap ⟨[], heap, .print text⟩
  | asks (kind : InputKind) (prompt : String) : word.inputs = [.any] → Gives word heap ⟨[], heap, .input kind prompt⟩
  | changes (results : List Value) (later : Heap) : word ∈ regional → Gives word heap ⟨results, later, .continue⟩

/-- What may come of a word that finds operands of the types it declares: it delivers results of the types it declares,
or fails in a way that has nothing to do with types, depths and names. -/
def Meets (word : Builtin) (heap : Heap) : Outcome Reply → Prop
  | .ok reply => reply.Delivers word.outputs ∧ word.Gives heap reply
  | .error cause => cause.Harmless

/-- A word that reads an operand first, where the reading can fail but not for types. -/
theorem meets_map {α : Type} {outcome : Outcome α} {f : α → Reply} (mild : outcome.Mild)
    (gives : ∀ found, (f found).Delivers word.outputs ∧ word.Gives heap (f found)) :
    word.Meets heap (outcome.map f) := by
  cases outcome with
  | ok found => exact gives found
  | error cause => exact mild cause rfl

theorem meets_bind {α : Type} {outcome : Outcome α} {next : α → Outcome Reply} (mild : outcome.Mild)
    (later : ∀ found, word.Meets heap (next found)) : word.Meets heap (outcome.bind next) := by
  cases outcome with
  | ok found => exact later found
  | error cause => exact mild cause rfl

/-- A number as the only result, or none where it does not fit. -/
theorem meets_fitting (single : word.outputs = [.number]) (result : Option Decimal) :
    word.Meets heap (word.fitting result heap) := by
  cases result with
  | none => exact rfl
  | some n =>
    refine ⟨?_, .stays _⟩
    rw [single]
    exact Value.haveTypes_number n

/-- A condition leaves 1 or 0. -/
theorem meets_truth (single : word.outputs = [.number]) (holds : Bool) : word.Meets heap (truth holds heap) := by
  refine ⟨?_, .stays _⟩
  rw [single]
  exact .cons (.inr rfl) .nil

/-- Storing a text allocates a region first, so it fails as allocations and stores do. -/
theorem meets_storeCells (text : String) (heap : Heap) : stringToCells.Meets heap (storeCells text heap) := by
  unfold storeCells
  dsimp only
  split
  · exact meets_map (Heap.saveAll_mild _ _ _) fun _ =>
      ⟨.cons (.inr rfl) (Value.haveTypes_number _), .changes _ _ (by decide)⟩
  · rename_i cause failed
    exact heap.alloc_mild _ cause failed

/-- Operands of the types that a word declares give it no reason to complain about types, and it leaves results of the
types that it declares. -/
theorem perform_meets (ordinary : word ∉ shuffles) (typed : Value.HaveTypes word.inputs operands) (heap : Heap) :
    word.Meets heap (word.perform operands heap) := by
  cases word with
  | add | subtract | multiply | power =>
    obtain ⟨a, b, rfl⟩ := typed.numbers_inv
    exact meets_fitting rfl _
  | divide =>
    obtain ⟨a, b, rfl⟩ := typed.numbers_inv
    rw [perform]
    split
    · exact rfl
    · exact meets_fitting rfl _
  | greater | greaterEqual | less | lessEqual | and | or =>
    obtain ⟨a, b, rfl⟩ := typed.numbers_inv
    exact meets_truth rfl _
  | sqrt =>
    obtain ⟨a, rfl⟩ := typed.number_inv
    rw [perform]
    split
    · exact ⟨Value.haveTypes_number _, .stays _⟩
    · exact rfl
  | floor | ceil | round =>
    obtain ⟨a, rfl⟩ := typed.number_inv
    exact ⟨Value.haveTypes_number _, .stays _⟩
  | isInteger | not =>
    obtain ⟨a, rfl⟩ := typed.number_inv
    exact meets_truth rfl _
  | numberToString =>
    obtain ⟨a, rfl⟩ := typed.number_inv
    exact ⟨.cons (.inr rfl) .nil, .stays _⟩
  | concat =>
    obtain ⟨first, second, rfl, left, right⟩ := typed.two_inv
    obtain ⟨a, rfl⟩ := left.string_inv
    obtain ⟨b, rfl⟩ := right.string_inv
    exact ⟨.cons (.inr rfl) .nil, .stays _⟩
  | offset =>
    obtain ⟨first, second, rfl, left, right⟩ := typed.two_inv
    obtain ⟨base, rfl⟩ := left.pointer_inv
    obtain ⟨d, rfl⟩ := right.number_inv
    exact meets_map (d.moveAddress_mild base) fun _ => ⟨.cons (.inr rfl) .nil, .stays _⟩
  | equal | notEqual =>
    obtain ⟨first, second, rfl, -⟩ := typed.two_inv
    exact meets_truth rfl _
  | drop =>
    obtain ⟨value, rfl, -⟩ := typed.one_inv
    exact ⟨.nil, .stays _⟩
  | inputNumber | inputString =>
    obtain ⟨value, rfl, -⟩ := typed.one_inv
    exact ⟨⟨rfl, rfl⟩, .asks _ _ rfl⟩
  | print =>
    obtain ⟨value, rfl, -⟩ := typed.one_inv
    exact ⟨.nil, .prints _⟩
  | stringToNumber =>
    obtain ⟨value, rfl, single⟩ := typed.one_inv
    obtain ⟨text, rfl⟩ := single.string_inv
    exact meets_map (Decimal.parse_mild text) fun _ => ⟨Value.haveTypes_number _, .stays _⟩
  | stringToCells =>
    obtain ⟨value, rfl, single⟩ := typed.one_inv
    obtain ⟨text, rfl⟩ := single.string_inv
    exact meets_storeCells text heap
  | alloc =>
    obtain ⟨n, rfl⟩ := typed.number_inv
    exact meets_bind n.toSize_mild fun size =>
      meets_map (heap.alloc_mild size) fun _ => ⟨.cons (.inr rfl) .nil, .changes _ _ (by decide)⟩
  | free =>
    obtain ⟨value, rfl, single⟩ := typed.one_inv
    obtain ⟨address, rfl⟩ := single.pointer_inv
    exact meets_map (heap.free_mild address) fun _ => ⟨.nil, .changes _ _ (by decide)⟩
  | save =>
    obtain ⟨first, second, rfl, -, right⟩ := typed.two_inv
    obtain ⟨address, rfl⟩ := right.pointer_inv
    exact meets_map (heap.save_mild address first) fun _ => ⟨.nil, .changes _ _ (by decide)⟩
  | load =>
    obtain ⟨value, rfl, single⟩ := typed.one_inv
    obtain ⟨address, rfl⟩ := single.pointer_inv
    exact meets_map (heap.load_mild address) fun _ => ⟨.cons (.inl rfl) .nil, .stays _⟩
  | dup | swap | inspect => exact (ordinary (by decide)).elim

/-- Operands of which one has not the type that a word declares make the word complain about types. -/
theorem perform_mismatch (ordinary : word ∉ shuffles) (count : operands.length = word.inputs.length)
    (untyped : ¬Value.HaveTypes word.inputs operands) (heap : Heap) :
    ∃ cause, word.perform operands heap = .error cause ∧ cause.code = .typeMismatch := by
  cases word with
  | add | subtract | multiply | divide | power | greater | greaterEqual | less | lessEqual | and | or =>
    obtain ⟨first, second, rfl⟩ := List.length_eq_two.1 count
    cases first with
    | number =>
      cases second with
      | number => exact absurd (.cons (.inr rfl) (Value.haveTypes_number _)) untyped
      | string | pointer => exact ⟨_, rfl, rfl⟩
    | string | pointer => exact ⟨_, rfl, rfl⟩
  | sqrt | floor | ceil | round | isInteger | not | numberToString | alloc =>
    obtain ⟨value, rfl⟩ := List.length_eq_one_iff.1 count
    cases value with
    | number => exact absurd (Value.haveTypes_number _) untyped
    | string | pointer => exact ⟨_, rfl, rfl⟩
  | concat =>
    obtain ⟨first, second, rfl⟩ := List.length_eq_two.1 count
    cases first with
    | string =>
      cases second with
      | string => exact absurd (.cons (.inr rfl) (.cons (.inr rfl) .nil)) untyped
      | number | pointer => exact ⟨_, rfl, rfl⟩
    | number | pointer => exact ⟨_, rfl, rfl⟩
  | offset =>
    obtain ⟨first, second, rfl⟩ := List.length_eq_two.1 count
    cases first with
    | pointer =>
      cases second with
      | number => exact absurd (.cons (.inr rfl) (Value.haveTypes_number _)) untyped
      | string | pointer => exact ⟨_, rfl, rfl⟩
    | number | string => exact ⟨_, rfl, rfl⟩
  | equal | notEqual =>
    obtain ⟨first, second, rfl⟩ := List.length_eq_two.1 count
    exact absurd (.cons (.inl rfl) (.cons (.inl rfl) .nil)) untyped
  | drop | inputNumber | inputString | print =>
    obtain ⟨value, rfl⟩ := List.length_eq_one_iff.1 count
    exact absurd (.cons (.inl rfl) .nil) untyped
  | stringToNumber | stringToCells =>
    obtain ⟨value, rfl⟩ := List.length_eq_one_iff.1 count
    cases value with
    | string => exact absurd (.cons (.inr rfl) .nil) untyped
    | number | pointer => exact ⟨_, rfl, rfl⟩
  | free | load =>
    obtain ⟨value, rfl⟩ := List.length_eq_one_iff.1 count
    cases value with
    | pointer => exact absurd (.cons (.inr rfl) .nil) untyped
    | number | string => exact ⟨_, rfl, rfl⟩
  | save =>
    obtain ⟨first, second, rfl⟩ := List.length_eq_two.1 count
    cases second with
    | pointer => exact absurd (.cons (.inl rfl) (.cons (.inr rfl) .nil)) untyped
    | number | string => exact ⟨_, rfl, rfl⟩
  | dup | swap | inspect => exact (ordinary (by decide)).elim

/-- A word that has not failed has found operands of the types it declares, and delivers what it declares. -/
theorem gives_of_performed (ordinary : word ∉ shuffles) (count : operands.length = word.inputs.length)
    (performed : word.perform operands heap = .ok reply) :
    reply.Delivers word.outputs ∧ word.Gives heap reply := by
  by_cases typed : Value.HaveTypes word.inputs operands
  · have meets := perform_meets ordinary typed heap
    rw [performed] at meets
    exact meets
  · obtain ⟨cause, failed, -⟩ := perform_mismatch ordinary count typed heap
    cases performed.symm.trans failed

/-- A word fails for reasons that have to do with what it computes, or since it does not like its operands. -/
theorem harmless_of_refused (ordinary : word ∉ shuffles) (count : operands.length = word.inputs.length) {cause : Cause}
    (refused : word.perform operands heap = .error cause) :
    cause.Harmless ∨ ¬Value.HaveTypes word.inputs operands ∧ cause.code = .typeMismatch := by
  by_cases typed : Value.HaveTypes word.inputs operands
  · have meets := perform_meets ordinary typed heap
    rw [refused] at meets
    exact .inl meets
  · obtain ⟨other, failed, code⟩ := perform_mismatch ordinary count typed heap
    cases refused.symm.trans failed
    exact .inr ⟨typed, code⟩

end Builtin

end TapeMachine
