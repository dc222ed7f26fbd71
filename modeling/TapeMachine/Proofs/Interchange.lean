import TapeMachine.Proofs.Congruence
import TapeMachine.Proofs.Contracts
import TapeMachine.Proofs.Likeness

namespace TapeMachine

namespace Value

variable {a b : Decimal} {values operands operands' : List Value} {types : List Ty}

/-- Equal values, one beside the other. -/
abbrev AlikeAll (first second : List Value) : Prop :=
  List.Forall₂ Alike first second

theorem AlikeAll.one_inv {value : Value} (alike : AlikeAll [value] values) :
    ∃ value', values = [value'] ∧ value.Alike value' := by
  cases alike with
  | cons first rest =>
    cases rest
    exact ⟨_, rfl, first⟩

theorem AlikeAll.two_inv {first second : Value} (alike : AlikeAll [first, second] values) :
    ∃ first' second', values = [first', second'] ∧ first.Alike first' ∧ second.Alike second' := by
  cases alike with
  | cons first rest =>
    obtain ⟨second', rfl, last⟩ := one_inv rest
    exact ⟨_, _, rfl, first, last⟩

theorem Alike.number_inv {value : Value} (alike : Alike (.number a) value) :
    ∃ b, value = .number b ∧ a.value = b.value := by
  cases alike with
  | number same => exact ⟨_, rfl, same⟩

theorem AlikeAll.number_inv (alike : AlikeAll [.number a] values) :
    ∃ a', values = [.number a'] ∧ a.value = a'.value := by
  obtain ⟨value, rfl, single⟩ := alike.one_inv
  obtain ⟨a', rfl, same⟩ := single.number_inv
  exact ⟨a', rfl, same⟩

theorem AlikeAll.numbers_inv (alike : AlikeAll [.number a, .number b] values) :
    ∃ a' b', values = [.number a', .number b'] ∧ a.value = a'.value ∧ b.value = b'.value := by
  obtain ⟨first, second, rfl, left, right⟩ := alike.two_inv
  obtain ⟨a', rfl, same⟩ := left.number_inv
  obtain ⟨b', rfl, same'⟩ := right.number_inv
  exact ⟨a', b', rfl, same, same'⟩

theorem Alike.refl (value : Value) : value.Alike value := by
  cases value with
  | number => exact .number rfl
  | string => exact .string _
  | pointer => exact .pointer _

theorem AlikeAll.map_ty (alike : AlikeAll operands operands') : operands.map ty = operands'.map ty := by
  induction alike with
  | nil => rfl
  | cons here _ ih => rw [List.map_cons, List.map_cons, here.ty, ih]

/-- Values that are alike have the same types. -/
theorem AlikeAll.haveTypes (alike : AlikeAll operands operands') (typed : HaveTypes types operands) :
    HaveTypes types operands' := by
  induction alike generalizing types with
  | nil => exact typed
  | cons here _ ih =>
    cases typed with
    | cons first rest =>
      refine .cons ?_ (ih rest)
      rwa [HasType, ← here.ty]

theorem AlikeAll.symm (alike : AlikeAll operands operands') : AlikeAll operands' operands := by
  refine alike.flip.imp fun _ _ alike => ?_
  cases alike with
  | number same => exact .number same.symm
  | string => exact .string _
  | pointer => exact .pointer _

end Value

namespace Builtin

/-- Replies with equal results and equal heaps, and with the same effect. -/
structure Reply.Alike (first second : Reply) : Prop where
  results : Value.AlikeAll first.results second.results
  heap : first.heap.Alike second.heap
  effect : first.effect = second.effect

variable {heap heap' : Heap}

theorem agrees_number {a b : Decimal} (same : a.value = b.value) (heaps : heap.Alike heap') :
    Outcome.Agrees Reply.Alike (.ok ⟨[.number a], heap, .continue⟩) (.ok ⟨[.number b], heap', .continue⟩) :=
  .ok ⟨.cons (.number same) .nil, heaps, rfl⟩

/-- Results that agree in value agree as results, and if there is none on one side there is none on the other. -/
theorem agrees_fitting (word : Builtin) {x y : Option Decimal} (same : x.map Decimal.value = y.map Decimal.value)
    (heaps : heap.Alike heap') : Outcome.Agrees Reply.Alike (word.fitting x heap) (word.fitting y heap') := by
  cases x with
  | none =>
    cases y with
    | none => exact .error rfl
    | some => cases same
  | some a =>
    cases y with
    | none => cases same
    | some b => exact agrees_number (Option.some.inj same) heaps

theorem agrees_truth {holds holds' : Bool} (same : holds = holds') (heaps : heap.Alike heap') :
    Outcome.Agrees Reply.Alike (truth holds heap) (truth holds' heap') := by
  rw [same]
  exact .ok ⟨.cons (.refl _) .nil, heaps, rfl⟩

/-- A pointer is moved by the value of an offset, not by its digits. -/
theorem agrees_moveAddress {d d' : Decimal} (same : d.value = d'.value) (base : Nat) :
    Outcome.Agrees (· = ·) (d.moveAddress base) (d'.moveAddress base) := by
  have rounds : d.round.value = d'.round.value := by rw [Decimal.value_round, Decimal.value_round, same]
  have nums := Decimal.num_mul_of_value_eq rounds
  have one : (tenTo 0 : Int) = 1 := rfl
  rw [d.scale_round, d'.scale_round, one, mul_one, mul_one] at nums
  rw [Decimal.moveAddress, Decimal.moveAddress, nums]
  split
  · exact .ok rfl
  · exact .error rfl

/-- A text is stored in heaps that are alike in the same way. -/
theorem agrees_storeCells (text : String) (heaps : heap.Alike heap') :
    Outcome.Agrees Reply.Alike (storeCells text heap) (storeCells text heap') := by
  have alloc := heaps.alloc (text.toList.map fun c => Value.string c.toString).length
  rw [storeCells, storeCells]
  generalize heap.alloc _ = outcome at alloc
  generalize heap'.alloc _ = outcome' at alloc
  cases alloc with
  | error code => exact .error code
  | @ok found found' claimed =>
    obtain ⟨address, next⟩ := found
    obtain ⟨address', next'⟩ := found'
    obtain ⟨rfl, alike⟩ := claimed
    have cells := List.forall₂_same.2 fun (value : Value) (_ : value ∈ text.toList.map fun c => .string c.toString) =>
      Value.Alike.refl value
    exact (alike.saveAll address cells).map fun _ _ after => ⟨.cons (.refl _) (.cons (.refl _) .nil), after, rfl⟩

/-- No slots are asked for in vain, whether it is their number or its sign that is wrong. -/
theorem alloc_of_isZero {n : Decimal} (zero : n.isZero = true) (heap : Heap) :
    ∃ cause, alloc.perform [.number n] heap = .error cause ∧ cause.code = .invalidAllocation := by
  have none : n.trunc.mantissa = 0 := by
    rw [Decimal.mantissa_trunc, Decimal.value_of_isZero zero, abs_zero, Nat.floor_zero]
  rw [perform, Decimal.toSize, none]
  split
  · exact ⟨_, rfl, rfl⟩
  · exact ⟨.emptyRegion, rfl, rfl⟩

/-- A size is read from the value of a number, and 0 is refused with either sign. -/
theorem agrees_alloc {n n' : Decimal} (same : n.value = n'.value) (heaps : heap.Alike heap') :
    Outcome.Agrees Reply.Alike (alloc.perform [.number n] heap) (alloc.perform [.number n'] heap') := by
  by_cases zero : n.isZero = true
  · obtain ⟨cause, failed, code⟩ := alloc_of_isZero zero heap
    obtain ⟨cause', failed', code'⟩ := alloc_of_isZero (Decimal.isZero_congr same ▸ zero) heap'
    rw [failed, failed']
    exact .error (code.trans code'.symm)
  · have sizes : Outcome.Agrees (· = ·) n.toSize n'.toSize := by
      rw [Decimal.toSize, Decimal.toSize, Decimal.mantissa_trunc, Decimal.mantissa_trunc, same,
        Decimal.negative_of_value_eq same (Decimal.mantissa_pos zero).ne']
      split
      · exact .error rfl
      · exact .ok rfl
    refine sizes.bind ?_
    rintro size _ rfl
    refine (heaps.alloc size).map ?_
    rintro ⟨address, next⟩ ⟨_, next'⟩ ⟨rfl, alike⟩
    exact ⟨.cons (.refl _) .nil, alike, rfl⟩

/-- Whether a divisor is 0 is seen from its value. -/
theorem agrees_divide {a a' b b' : Decimal} (first : a.value = a'.value) (second : b.value = b'.value)
    (heaps : heap.Alike heap') :
    Outcome.Agrees Reply.Alike (divide.perform [.number a, .number b] heap)
      (divide.perform [.number a', .number b'] heap') := by
  rw [perform, perform, ← Decimal.isZero_congr second]
  split
  · exact .error rfl
  · rename_i nonzero
    refine agrees_fitting _ ?_ heaps
    rw [Decimal.value_div a nonzero, Decimal.value_div a' (Decimal.isZero_congr second ▸ nonzero), first, second]

/-- A root looks at the sign of a zero. -/
theorem agrees_sqrt {a a' : Decimal} (same : a.value = a'.value)
    (signs : a.isZero = true → a.negative = a'.negative) (heaps : heap.Alike heap') :
    Outcome.Agrees Reply.Alike (sqrt.perform [.number a] heap) (sqrt.perform [.number a'] heap') := by
  have roots := Decimal.sqrt_congr same signs
  rw [perform, perform]
  generalize a.sqrt? = root at roots
  generalize a'.sqrt? = root' at roots
  cases root with
  | none =>
    cases root' with
    | none => exact .error rfl
    | some => cases roots
  | some root =>
    cases root' with
    | none => cases roots
    | some root' => exact agrees_number (Option.some.inj roots) heaps

/-- Words for two numbers do the same with equal numbers. -/
theorem perform_agrees_of_numbers {word : Builtin} {a a' b b' : Decimal} (binary : word.inputs = [.number, .number])
    (first : a.value = a'.value) (second : b.value = b'.value) (heaps : heap.Alike heap') :
    Outcome.Agrees Reply.Alike (word.perform [.number a, .number b] heap)
      (word.perform [.number a', .number b'] heap') := by
  cases word with
  | add => exact agrees_fitting _ (by rw [Decimal.value_add, Decimal.value_add, first, second]) heaps
  | subtract => exact agrees_fitting _ (by rw [Decimal.value_sub, Decimal.value_sub, first, second]) heaps
  | multiply => exact agrees_fitting _ (Decimal.mul_congr first second) heaps
  | power => exact agrees_fitting _ (Decimal.pow_congr first second) heaps
  | divide => exact agrees_divide first second heaps
  | greater | greaterEqual | less | lessEqual | and | or =>
    refine agrees_truth ?_ heaps
    simp only [Decimal.lt, Decimal.le, Decimal.compare_congr first second, Decimal.compare_congr second first,
      Decimal.compare_congr rfl first, Decimal.compare_congr rfl second]
  | _ => cases binary

/-- Words for one number do the same with an equal number, except that a root looks at the sign of a zero. -/
theorem perform_agrees_of_number {word : Builtin} {a a' : Decimal} (unary : word.inputs = [.number])
    (same : a.value = a'.value) (signs : word = .sqrt → a.isZero = true → a.negative = a'.negative)
    (heaps : heap.Alike heap') :
    Outcome.Agrees Reply.Alike (word.perform [.number a] heap) (word.perform [.number a'] heap') := by
  cases word with
  | sqrt => exact agrees_sqrt same (signs rfl) heaps
  | floor => exact agrees_number (by rw [Decimal.value_floor, Decimal.value_floor, same]) heaps
  | ceil => exact agrees_number (by rw [Decimal.value_ceil, Decimal.value_ceil, same]) heaps
  | round => exact agrees_number (by rw [Decimal.value_round, Decimal.value_round, same]) heaps
  | isInteger => exact agrees_truth (by rw [Decimal.hasFraction_congr same]) heaps
  | not => exact agrees_truth (by rw [Decimal.lt, Decimal.lt, Decimal.compare_congr same rfl]) heaps
  | numberToString =>
    rw [perform, perform, (Decimal.text_eq_iff_value_eq a a').2 same]
    exact .ok ⟨.cons (.refl _) .nil, heaps, rfl⟩
  | alloc => exact agrees_alloc same heaps
  | _ => cases unary

/-- Words do the same with equal operands of the types that they declare. Only the root looks at the sign of a zero. -/
theorem perform_agrees {word : Builtin} {operands operands' : List Value} (ordinary : word ∉ shuffles)
    (typed : Value.HaveTypes word.inputs operands) (alike : Value.AlikeAll operands operands')
    (heaps : heap.Alike heap')
    (roots : word = .sqrt → ∀ a b, operands = [.number a] → operands' = [.number b] →
      a.isZero = true → a.negative = b.negative) :
    Outcome.Agrees Reply.Alike (word.perform operands heap) (word.perform operands' heap') := by
  cases word with
  | add | subtract | multiply | power | divide | greater | greaterEqual | less | lessEqual | and | or =>
    obtain ⟨a, b, rfl⟩ := typed.numbers_inv
    obtain ⟨a', b', rfl, first, second⟩ := alike.numbers_inv
    exact perform_agrees_of_numbers rfl first second heaps
  | sqrt | floor | ceil | round | isInteger | not | numberToString | alloc =>
    obtain ⟨a, rfl⟩ := typed.number_inv
    obtain ⟨a', rfl, same⟩ := alike.number_inv
    exact perform_agrees_of_number rfl same (fun root => roots root a a' rfl rfl) heaps
  | concat =>
    obtain ⟨first, second, rfl, left, right⟩ := typed.two_inv
    obtain ⟨a, rfl⟩ := left.string_inv
    obtain ⟨b, rfl⟩ := right.string_inv
    obtain ⟨first', second', rfl, here, there⟩ := alike.two_inv
    cases here
    cases there
    exact .ok ⟨.cons (.refl _) .nil, heaps, rfl⟩
  | offset =>
    obtain ⟨first, second, rfl, left, right⟩ := typed.two_inv
    obtain ⟨base, rfl⟩ := left.pointer_inv
    obtain ⟨d, rfl⟩ := right.number_inv
    obtain ⟨first', second', rfl, here, there⟩ := alike.two_inv
    obtain ⟨d', rfl, same⟩ := there.number_inv
    cases here
    refine (agrees_moveAddress same base).map ?_
    rintro address _ rfl
    exact ⟨.cons (.refl _) .nil, heaps, rfl⟩
  | equal | notEqual =>
    obtain ⟨first, second, rfl, -⟩ := typed.two_inv
    obtain ⟨first', second', rfl, here, there⟩ := alike.two_inv
    exact agrees_truth (by rw [here.eqv there]) heaps
  | drop =>
    obtain ⟨value, rfl, -⟩ := typed.one_inv
    obtain ⟨value', rfl, -⟩ := alike.one_inv
    exact .ok ⟨.nil, heaps, rfl⟩
  | inputNumber | inputString =>
    obtain ⟨value, rfl, -⟩ := typed.one_inv
    obtain ⟨value', rfl, same⟩ := alike.one_inv
    exact .ok ⟨.nil, heaps, congrArg (Effect.input _) same.prompt⟩
  | print =>
    obtain ⟨value, rfl, -⟩ := typed.one_inv
    obtain ⟨value', rfl, same⟩ := alike.one_inv
    exact .ok ⟨.nil, heaps, congrArg Effect.print same.text⟩
  | stringToNumber =>
    obtain ⟨value, rfl, single⟩ := typed.one_inv
    obtain ⟨text, rfl⟩ := single.string_inv
    obtain ⟨value', rfl, same⟩ := alike.one_inv
    cases same
    rw [perform, perform]
    cases Decimal.parse text with
    | error => exact .error rfl
    | ok d => exact agrees_number rfl heaps
  | stringToCells =>
    obtain ⟨value, rfl, single⟩ := typed.one_inv
    obtain ⟨text, rfl⟩ := single.string_inv
    obtain ⟨value', rfl, same⟩ := alike.one_inv
    cases same
    exact agrees_storeCells text heaps
  | free =>
    obtain ⟨value, rfl, single⟩ := typed.one_inv
    obtain ⟨address, rfl⟩ := single.pointer_inv
    obtain ⟨value', rfl, same⟩ := alike.one_inv
    cases same
    exact (heaps.free address).map fun _ _ after => ⟨.nil, after, rfl⟩
  | save =>
    obtain ⟨first, second, rfl, -, right⟩ := typed.two_inv
    obtain ⟨address, rfl⟩ := right.pointer_inv
    obtain ⟨first', second', rfl, here, there⟩ := alike.two_inv
    cases there
    exact (heaps.save address here).map fun _ _ after => ⟨.nil, after, rfl⟩
  | load =>
    obtain ⟨value, rfl, single⟩ := typed.one_inv
    obtain ⟨address, rfl⟩ := single.pointer_inv
    obtain ⟨value', rfl, same⟩ := alike.one_inv
    cases same
    exact (heaps.load address).map fun _ _ found => ⟨.cons found .nil, heaps, rfl⟩
  | dup | swap | inspect => exact (ordinary (by decide)).elim

/-- The sign of a zero under a root counts. -/
def RootsAgree (word : Builtin) (operands operands' : List Value) : Prop :=
  word = .sqrt → ∀ a b, operands.head? = some (.number a) → operands'.head? = some (.number b) →
    a.isZero = true → a.negative = b.negative

/-- Two calls come to the same: they have one effect or fail in one way, and leave equal values on the stacks and in the
heaps. -/
structure CallsAgree (first second : Outcome Effect × Stack Value × Heap) : Prop where
  outcome : Outcome.Agrees (· = ·) first.1 second.1
  operands : Value.AlikeAll first.2.1.entries second.2.1.entries
  heap : first.2.2.Alike second.2.2

variable {word : Builtin} {operands operands' : Stack Value}

/-- Stacks of the same height reach the limit together. -/
theorem push_agrees {value value' : Value} (alike : Value.AlikeAll operands.entries operands'.entries)
    (values : value.Alike value') :
    Outcome.Agrees (· = ·) (operands.push value).1 (operands'.push value').1 ∧
      Value.AlikeAll (operands.push value).2.entries (operands'.push value').2.entries := by
  have size : (operands.store value).size = (operands'.store value').size := by
    simp only [Stack.store, operands.size_eq, operands'.size_eq, alike.length_eq]
  refine ⟨?_, .cons values alike⟩
  rw [Stack.push, Stack.push, Stack.check, Stack.check, size]
  split
  · exact .ok rfl
  · exact .error rfl

theorem pushAll_agrees {values values' : List Value} (alike : Value.AlikeAll operands.entries operands'.entries)
    (same : Value.AlikeAll values values') :
    Outcome.Agrees (· = ·) (operands.pushAll values).1 (operands'.pushAll values').1 ∧
      Value.AlikeAll (operands.pushAll values).2.entries (operands'.pushAll values').2.entries := by
  induction same generalizing operands operands' with
  | nil => exact ⟨.ok rfl, alike⟩
  | @cons value value' rest rest' here _ ih =>
    obtain ⟨pushed, left⟩ := push_agrees alike here
    rw [Stack.pushAll, Stack.pushAll]
    generalize operands.push value = result at pushed left
    generalize operands'.push value' = result' at pushed left
    obtain ⟨outcome, next⟩ := result
    obtain ⟨outcome', next'⟩ := result'
    cases pushed with
    | ok => exact ih left
    | error code => exact ⟨.error code, left⟩

theorem head?_of_take {values : List Value} {value : Value} (taken : (values.take 1).reverse = [value]) :
    values.head? = some value := by
  cases values with
  | nil => cases taken
  | cons first rest => exact congrArg List.head? taken

/-- The three parts of a call, one after the other: operands taken, the word performed, results left. -/
theorem call_agrees_of_ordinary (ordinary : word ∉ shuffles)
    (alike : Value.AlikeAll operands.entries operands'.entries) (heaps : heap.Alike heap')
    (roots : word.RootsAgree operands.entries operands'.entries) :
    CallsAgree (word.call operands heap) (word.call operands' heap') := by
  have size : operands.size = operands'.size := by rw [operands.size_eq, operands'.size_eq, alike.length_eq]
  rw [call_of_ordinary ordinary, call_of_ordinary ordinary]
  rcases Nat.lt_or_ge operands.size word.inputs.length with short | enough
  · rw [Stack.pop_of_lt short, Stack.pop_of_lt (size ▸ short)]
    exact ⟨.error rfl, alike, heaps⟩
  · rw [Stack.pop_of_le enough, Stack.pop_of_le (size ▸ enough)]
    dsimp only
    have taken : Value.AlikeAll (operands.entries.take word.inputs.length).reverse
        (operands'.entries.take word.inputs.length).reverse :=
      List.forall₂_reverse_iff.2 (List.forall₂_take _ alike)
    have rest : Value.AlikeAll (operands.drop word.inputs.length).entries
        (operands'.drop word.inputs.length).entries := List.forall₂_drop _ alike
    have count : (operands.entries.take word.inputs.length).reverse.length = word.inputs.length := by
      rw [List.length_reverse, List.length_take, ← operands.size_eq]
      omega
    have performs : Outcome.Agrees Reply.Alike (word.perform (operands.entries.take word.inputs.length).reverse heap)
        (word.perform (operands'.entries.take word.inputs.length).reverse heap') := by
      by_cases typed : Value.HaveTypes word.inputs (operands.entries.take word.inputs.length).reverse
      · refine perform_agrees ordinary typed taken heaps fun root a b first second => ?_
        subst root
        exact roots rfl a b (head?_of_take first) (head?_of_take second)
      · have untyped := fun typed' => typed (taken.symm.haveTypes typed')
        obtain ⟨cause, failed, code⟩ := perform_mismatch ordinary count typed heap
        obtain ⟨cause', failed', code'⟩ := perform_mismatch ordinary (taken.length_eq ▸ count) untyped heap'
        rw [failed, failed']
        exact .error (code.trans code'.symm)
    generalize word.perform _ heap = outcome at performs
    generalize word.perform _ heap' = outcome' at performs
    cases performs with
    | error code => exact ⟨.error code, rest, heaps⟩
    | ok reply =>
      obtain ⟨pushed, left⟩ := pushAll_agrees rest reply.results
      exact ⟨pushed.map fun _ _ _ => reply.effect, left, reply.heap⟩

theorem call_agrees_of_shuffle (shuffle : word ∈ shuffles)
    (alike : Value.AlikeAll operands.entries operands'.entries) (heaps : heap.Alike heap') :
    CallsAgree (word.call operands heap) (word.call operands' heap') := by
  cases word with
  | dup =>
    rw [call, call, Stack.dup, Stack.dup]
    have pushes := fun value value' (values : Value.Alike value value') => push_agrees alike values
    have entries := alike
    generalize operands.entries = stands at entries
    generalize operands'.entries = stands' at entries
    cases entries with
    | nil => exact ⟨.error rfl, alike, heaps⟩
    | cons here rest => exact ⟨(pushes _ _ here).1.map fun _ _ _ => rfl, (pushes _ _ here).2, heaps⟩
  | swap =>
    rw [call, call, Stack.swap, Stack.swap]
    have left : Value.AlikeAll (operands.drop 2).entries (operands'.drop 2).entries := List.forall₂_drop 2 alike
    have entries := alike
    generalize operands.entries = stands at entries
    generalize operands'.entries = stands' at entries
    cases entries with
    | nil => exact ⟨.error rfl, alike, heaps⟩
    | cons first rest =>
      cases rest with
      | nil => exact ⟨.error rfl, alike, heaps⟩
      | cons second rest => exact ⟨.ok rfl, .cons second (.cons first left), heaps⟩
  | inspect =>
    have types : operands.toList.map Value.ty = operands'.toList.map Value.ty := by
      rw [Stack.toList, Stack.toList, List.map_reverse, List.map_reverse, alike.map_ty]
    have names (stack : Stack Value) : stack.toList.map (fun value => value.ty.name) =
        (stack.toList.map Value.ty).map Ty.name := by rw [List.map_map]; rfl
    have same : inspection operands = inspection operands' := by
      rw [inspection, inspection, names, names, types]
    exact ⟨.ok (congrArg Effect.print same), alike, heaps⟩
  | _ => exact absurd shuffle (by decide)

end Builtin

/-- Numbers that compare equal are interchangeable, whatever their scales and the signs of zeros are. On stacks and
heaps of equal values every word has the same effect, with the same text, or fails in the same way, and leaves stacks
and heaps of equal values. The one exception is the root of a zero, for which its sign counts. -/
theorem equal_values_interchangeable (word : Builtin) (operands operands' : Stack Value) (heap heap' : Heap)
    (alike : List.Forall₂ (fun a b => a.eqv b = true) operands.entries operands'.entries)
    (heaps : heap.Alike heap') (roots : word.RootsAgree operands.entries operands'.entries) :
    let result := word.call operands heap
    let result' := word.call operands' heap'
    Outcome.Agrees (· = ·) result.1 result'.1 ∧
      List.Forall₂ (fun a b => a.eqv b = true) result.2.1.entries result'.2.1.entries ∧
      Heap.Alike result.2.2 result'.2.2 := by
  have alike' : Value.AlikeAll operands.entries operands'.entries := alike.imp fun _ _ => Value.eqv_iff_alike.1
  have agrees : Builtin.CallsAgree (word.call operands heap) (word.call operands' heap') := by
    by_cases shuffle : word ∈ Builtin.shuffles
    · exact Builtin.call_agrees_of_shuffle shuffle alike' heaps
    · exact Builtin.call_agrees_of_ordinary shuffle alike' heaps roots
  exact ⟨agrees.outcome, agrees.operands.imp fun _ _ => Value.eqv_iff_alike.2, agrees.heap⟩

/-- A stack with one number on it. -/
def alone (n : Decimal) : Stack Value :=
  { label := "stack", entries := [.number n] }

/-- Two with a scale of two. -/
def twoExactly : Decimal :=
  ⟨false, 200, 2, by rw [mantissaLimit]; omega, by omega⟩

theorem roots_of_two_alike :
    let result := Builtin.sqrt.call (alone .two) (.new 4)
    let result' := Builtin.sqrt.call (alone twoExactly) (.new 4)
    Outcome.Agrees (· = ·) result.1 result'.1 ∧
      List.Forall₂ (fun a b => a.eqv b = true) result.2.1.entries result'.2.1.entries ∧
      Heap.Alike result.2.2 result'.2.2 := by
  have same : (Value.number .two).eqv (.number twoExactly) = true := by decide
  have roots : Builtin.sqrt.RootsAgree (alone .two).entries (alone twoExactly).entries := by
    intro _ a b first second zero
    cases first
    cases zero
  exact equal_values_interchangeable .sqrt (alone .two) (alone twoExactly) (.new 4) (.new 4) (.cons same .nil)
    ⟨rfl, .cons ⟨rfl, rfl, .none⟩ .nil⟩ roots

/-- What `ceil` makes of a number between minus one and zero. -/
def minusZero : Decimal :=
  Decimal.zero.neg

/-- It compares equal to zero but has no root, which zero has. -/
theorem minusZero_has_no_root :
    (Decimal.ceil ⟨true, 5, 1, by rw [mantissaLimit]; omega, by omega⟩ = minusZero) ∧
    (Value.number minusZero).eqv (.number .zero) = true ∧
    (Builtin.sqrt.call (alone .zero) (.new 4)).1 = .ok .continue ∧
    (Builtin.sqrt.call (alone minusZero) (.new 4)).1 = .error (.noSquareRoot minusZero) :=
  ⟨by decide, by decide, rfl, rfl⟩

end TapeMachine
