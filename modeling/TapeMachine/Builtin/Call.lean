import TapeMachine.Builtin
import TapeMachine.Heap
import TapeMachine.Number
import TapeMachine.Stack

namespace TapeMachine.Builtin

/-- What a word makes of its operands: results in their place, deepest first, and the heap after. -/
structure Reply where
  results : List Value := []
  heap : Heap
  effect : Effect := .continue

/-- A result that may be too large to be a number. -/
def fitting (word : Builtin) (result : Option Decimal) (heap : Heap) : Outcome Reply :=
  match result with
  | some d => .ok { results := [.number d], heap }
  | none => .error (.resultTooLarge word.name)

def truth (holds : Bool) (heap : Heap) : Outcome Reply :=
  .ok { results := [.ofBool holds], heap }

/-- Store each character of `text` as a string of its own in a new region. -/
def storeCells (text : String) (heap : Heap) : Outcome Reply :=
  let cells := text.toList.map fun c => Value.string c.toString
  match heap.alloc cells.length with
  | .ok (address, heap) =>
    (heap.saveAll address cells).map fun heap =>
      { results := [.pointer address, .number (.ofNat cells.length)], heap }
  | .error cause => .error cause

/-- The effect of a word on operands that have been taken off the stack, deepest first. -/
def perform (word : Builtin) (operands : List Value) (heap : Heap) : Outcome Reply :=
  match word, operands with
  | .add, [.number a, .number b] => word.fitting (a.add? b) heap
  | .subtract, [.number a, .number b] => word.fitting (a.sub? b) heap
  | .multiply, [.number a, .number b] => word.fitting (a.mul? b) heap
  | .divide, [.number a, .number b] =>
    if b.isZero then .error .divisionByZero else word.fitting (a.div? b) heap
  | .power, [.number a, .number b] => word.fitting (a.pow? b) heap
  | .sqrt, [.number a] =>
    match a.sqrt? with
    | some root => .ok { results := [.number root], heap }
    | none => .error (.noSquareRoot a)
  | .floor, [.number a] => .ok { results := [.number a.floor], heap }
  | .ceil, [.number a] => .ok { results := [.number a.ceil], heap }
  | .round, [.number a] => .ok { results := [.number a.round], heap }
  | .isInteger, [.number a] => truth (!a.hasFraction) heap
  | .concat, [.string a, .string b] => .ok { results := [.string (a ++ b)], heap }
  | .offset, [.pointer base, .number d] =>
    (d.moveAddress base).map fun address => { results := [.pointer address], heap }
  | .equal, [a, b] => truth (a.eqv b) heap
  | .notEqual, [a, b] => truth (!a.eqv b) heap
  | .greater, [.number a, .number b] => truth (b.lt a) heap
  | .greaterEqual, [.number a, .number b] => truth (b.le a) heap
  | .less, [.number a, .number b] => truth (a.lt b) heap
  | .lessEqual, [.number a, .number b] => truth (a.le b) heap
  | .and, [.number a, .number b] => truth (Decimal.zero.lt a && Decimal.zero.lt b) heap
  | .or, [.number a, .number b] => truth (Decimal.zero.lt a || Decimal.zero.lt b) heap
  | .not, [.number a] => truth (a.lt .one) heap
  | .drop, [_] => .ok { heap }
  | .stringToNumber, [.string text] =>
    (Decimal.parse text).map fun d => { results := [.number d], heap }
  | .numberToString, [.number a] => .ok { results := [.string a.text], heap }
  | .stringToCells, [text] => text.asString.bind fun text => storeCells text heap
  | .inputNumber, [prompt] => .ok { heap, effect := .input .number prompt.prompt }
  | .inputString, [prompt] => .ok { heap, effect := .input .string prompt.prompt }
  | .print, [value] => .ok { heap, effect := .print value.text }
  | .alloc, [.number n] =>
    n.toSize.bind fun size => (heap.alloc size).map fun (address, heap) =>
      { results := [.pointer address], heap }
  | .free, [pointer] =>
    pointer.asAddress.bind fun address => (heap.free address).map fun heap => { heap }
  | .save, [value, pointer] =>
    pointer.asAddress.bind fun address => (heap.save address value).map fun heap => { heap }
  | .load, [pointer] =>
    pointer.asAddress.bind fun address => (heap.load address).map fun value =>
      { results := [value], heap }
  | _, _ => .error (.operands word.name word.inputs (operands.map Value.ty))

/-- How many operands a word takes off the stack. The words that shuffle the stack leave theirs where they are, and
need as many. -/
def arity : Builtin → Nat
  | add | subtract | multiply | divide | power => 2
  | sqrt | floor | ceil | round | isInteger => 1
  | concat | offset => 2
  | equal | notEqual | greater | greaterEqual | less | lessEqual | and | or => 2
  | not => 1
  | dup => 1
  | swap => 2
  | drop => 1
  | stringToNumber | numberToString | stringToCells => 1
  | inputNumber | inputString | print => 1
  | alloc | free => 1
  | save => 2
  | load => 1
  | inspect => 0

/-- Words take as many operands as their signatures say. -/
theorem arity_eq (word : Builtin) : word.arity = word.inputs.length := by
  cases word <;> rfl

/-- The types on the stack, deepest first. -/
def inspection (operands : Stack Value) : String :=
  "[" ++ " ".intercalate (operands.toList.map fun value => value.ty.name) ++ "]\n"

/-- Call a word. With too few operands nothing changes. A word that fails otherwise has taken its
operands, and results stay on the stack up to the one that overflows it. -/
def call (word : Builtin) (operands : Stack Value) (heap : Heap) :
    Outcome Effect × Stack Value × Heap :=
  match word with
  | .dup =>
    let (outcome, after) := operands.dup
    (outcome.map fun _ => .continue, after, heap)
  | .swap =>
    match operands.swap with
    | .ok after => (.ok .continue, after, heap)
    | .error cause => (.error cause, operands, heap)
  | .inspect => (.ok (.print (inspection operands)), operands, heap)
  | _ =>
    match operands.pop word.arity with
    | .error cause => (.error cause, operands, heap)
    | .ok (taken, rest) =>
      match word.perform taken heap with
      | .error cause => (.error cause, rest, heap)
      | .ok reply =>
        let (outcome, after) := rest.pushAll reply.results
        (outcome.map fun _ => reply.effect, after, reply.heap)

end TapeMachine.Builtin
