import TapeMachine.Tape

namespace TapeMachine

mutual

/-- How many addresses an item takes. -/
def Item.width : Item → Nat
  | .number .. | .string .. | .word .. | .imports .. => 1
  | .branch _ body _ => widthFrom 2 body
  | .choice _ consequent _ alternative _ => widthFrom (widthFrom 3 consequent) alternative
  | .repeats _ body _ => widthFrom 2 body
  | .loop _ test _ body _ => widthFrom (widthFrom 3 test) body
  | .bind _ _ body _ => widthFrom 3 body
  | .cell _ _ body _ => widthFrom 2 body
  | .define _ _ body _ => widthFrom 6 body

/-- `start` and the addresses of all the items. -/
def widthFrom (start : Nat) : List Item → Nat
  | [] => start
  | item :: rest => widthFrom (start + item.width) rest

end

namespace Tape

def emit (tape : Tape) (opcode : Opcode) (place : Location) : Tape :=
  tape.push ⟨opcode, place⟩

mutual

/-- Write an item behind the end of a tape. A bound is the address of the instruction written for the
`else`, `do` or `end` it stands for. -/
def append (tape : Tape) : Item → Tape
  | .number place n => tape.emit (.number n) place
  | .string place text => tape.emit (.string text) place
  | .word place name => tape.emit (.call name) place
  | .imports place name => tape.emit (.imports name) place
  | .branch place body stop =>
    let opened := tape.emit (.branch none (widthFrom (tape.size + 1) body)) place
    (appendAll opened body).emit .noop stop
  | .choice place consequent middle alternative stop =>
    let middleAt := widthFrom (tape.size + 1) consequent
    let opened := tape.emit (.branch middleAt (widthFrom (middleAt + 1) alternative)) place
    (appendAll ((appendAll opened consequent).emit .noop middle) alternative).emit .noop stop
  | .repeats place body stop =>
    let opened := tape.emit (.repeats tape.size (widthFrom (tape.size + 1) body)) place
    (appendAll opened body).emit .noop stop
  | .loop place test middle body stop =>
    let middleAt := widthFrom (tape.size + 1) test
    let opened := tape.emit (.loop tape.size middleAt (widthFrom (middleAt + 1) body)) place
    (appendAll ((appendAll opened test).emit .noop middle) body).emit .noop stop
  | .bind place names body stop =>
    ((appendAll (tape.emit (.bind names) place) body).emit (.unbind names) stop).emit .noop stop
  | .cell place name body stop =>
    let opened := tape.emit (.cell name (widthFrom (tape.size + 1) body)) place
    (appendAll opened body).emit .noop stop
  | .define place heading body stop =>
    let definition := ⟨heading, tape.size + 1, widthFrom (tape.size + 3) body⟩
    let opened := ((tape.emit (.define definition) place).emit .noop place).emit .enter place
    (((appendAll opened body).emit .ret stop).emit .dropCell stop).emit .noop stop

/-- Write items one behind the other. -/
def appendAll (tape : Tape) : List Item → Tape
  | [] => tape
  | item :: rest => appendAll (append tape item) rest

end

/-- The tape of a program. -/
def ofItems (items : List Item) : Tape :=
  appendAll #[] items

end Tape

end TapeMachine
