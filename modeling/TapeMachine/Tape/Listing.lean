import TapeMachine.Decimal.Printer
import TapeMachine.Tape
import TapeMachine.Text.Quoted

namespace TapeMachine

/-- An instruction in words. Numbers keep their scale, strings are quoted, names stand as they are. -/
def Opcode.text : Opcode → String
  | number n => s!"number {n.exact}"
  | string text => s!"string {Quoted.encode text}"
  | branch (some alternative) stop => s!"if -> {alternative} -> {stop}"
  | branch none stop => s!"if -> {stop}"
  | repeats start stop => s!"repeat {start} -> {stop}"
  | loop test body stop => s!"while {test} -> {body} -> {stop}"
  | bind names => "let " ++ " ".intercalate names
  | unbind names => "drop-let " ++ " ".intercalate names
  | cell name stop => s!"var {name} -> {stop}"
  | dropCell => "var-drop"
  | call name => s!"call {name}"
  | enter => "fn-start"
  | define definition =>
    "fn " ++ definition.heading.name ++ " " ++ " ".intercalate definition.heading.inputs ++ " : " ++
      " ".intercalate definition.heading.outputs ++ s!" -> {definition.start} -> {definition.stop}"
  | ret => "return"
  | imports name => s!"import {name}"
  | noop => "noop"

namespace Tape

/-- A line for each instruction that `shows` accepts, with its address. -/
def listingOf (tape : Tape) (shows : Instruction → Bool) : String :=
  String.join (tape.toList.zipIdx.filterMap fun (instruction, address) =>
    if shows instruction then some s!"{address}: {instruction.opcode.text}\n" else none)

/-- The whole tape, a line for each instruction. -/
def listing (tape : Tape) : String :=
  tape.listingOf fun _ => true

/-- The instructions that come from one file. -/
def listingOnly (tape : Tape) (file : Nat) : String :=
  tape.listingOf fun instruction => instruction.place.file == file

end Tape

end TapeMachine
