import TapeMachine.Item

namespace TapeMachine

/-- A function on a tape: `start` is the address behind its definition, `stop` that of its return. -/
structure Definition where
  heading : Heading
  start : Nat
  stop : Nat
  deriving DecidableEq

/-- What the machine does at an address. Blocks are flat and carry the addresses of their bounds. -/
inductive Opcode
  | number (n : Decimal)
  | string (text : String)
  | branch (alternative : Option Nat) (stop : Nat)
  | repeats (start stop : Nat)
  | loop (test body stop : Nat)
  | bind (names : List String)
  | unbind (names : List String)
  | cell (name : String) (stop : Nat)
  | dropCell
  | call (name : String)
  | enter
  | define (definition : Definition)
  | ret
  | imports (name : String)
  | noop
  deriving DecidableEq

structure Instruction where
  opcode : Opcode
  place : Location
  deriving DecidableEq

/-- The instructions of a program, each at its address. -/
abbrev Tape := Array Instruction

end TapeMachine
