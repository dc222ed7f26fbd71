import TapeMachine.Program
import TapeMachine.Scope
import TapeMachine.Signature

namespace TapeMachine

/-- What is known of a program at some point of it: the signatures of its words, the types of the names
in force, and the types on the stack. -/
structure Typing where
  signatures : Dictionary Signature
  bindings : Scope Ty := {}
  stack : Stack Ty := { label := "type stack" }

namespace Typing

/-- What is known before a program begins. -/
def start : Typing where
  signatures := .ofList (Builtin.all.map fun word => (word.name, word.signature))

/-- Leave a value of type `t`. -/
def push (typing : Typing) (t : Ty) : Outcome Typing :=
  (Stack.accepted (typing.stack.push t)).map fun stack => { typing with stack }

/-- Take the number that decides what `construct` does. -/
def operand (typing : Typing) (construct : String) : Outcome Typing :=
  typing.stack.popOne.bind fun (found, stack) =>
    if Ty.number.accepts found then .ok { typing with stack }
    else .error (.blockOperand construct .number found)

/-- Bind names to the types on top of the stack. -/
def bind (typing : Typing) (names : List String) : Outcome Typing :=
  (typing.stack.pop names.length).map fun (types, stack) =>
    { typing with stack, bindings := typing.bindings.bind names types }

/-- The name that a cell is bound to stands for its address. -/
def cell (typing : Typing) (name : String) : Typing :=
  { typing with bindings := typing.bindings.bind [name] [.pointer] }

def unbind (typing : Typing) : Typing :=
  { typing with bindings := typing.bindings.pop }

/-- A word by its name. Two words work on types of any kind and keep them; then signatures come before
bindings. -/
def call (typing : Typing) (name : String) : Outcome Typing :=
  if name = Builtin.dup.name then
    (Stack.accepted typing.stack.dup).map fun stack => { typing with stack }
  else if name = Builtin.swap.name then typing.stack.swap.map fun stack => { typing with stack }
  else
    match typing.signatures.get? name with
    | some signature =>
      (signature.apply name typing.stack).map fun stack => { typing with stack }
    | none =>
      match typing.bindings.get? name with
      | some t => typing.push t
      | none => .error (.undefinedName name)

/-- The typing at the beginning of a function's body. Its own signature is known there, and the stack
holds its inputs alone. -/
def enter (typing : Typing) (name : String) (signature : Signature) : Outcome Typing :=
  (Stack.accepted (Stack.pushAll { label := typing.stack.label } signature.inputs)).map fun stack =>
    { typing with signatures := typing.signatures.insert name signature, stack }

/-- Does a body leave what its function declares? -/
def conclude (typing : Typing) (name : String) (signature : Signature) : Outcome Unit :=
  if Ty.acceptsAll signature.outputs typing.stack.toList then .ok ()
  else .error (.bodyLeaves name signature.outputs typing.stack.toList)

/-- The signatures that a module brings along when it is imported at the place. -/
abbrev Modules := String → Location → Workspace → Build (Dictionary Signature)

/-- A step that knows nothing of files, for the item at `place`. -/
def placed {α : Type} (outcome : Outcome α) (place : Location) (workspace : Workspace) : Build α :=
  (outcome.locate place, workspace)

mutual

/-- Check one item. A loop is checked as if its body ran once, and both branches of a choice start from
the same stack, of which the first one's is kept. -/
def check (modules : Modules) (typing : Typing) (item : Item) (workspace : Workspace) :
    Build Typing :=
  match item with
  | .number place _ => placed (typing.push .number) place workspace
  | .string place _ => placed (typing.push .string) place workspace
  | .word place name => placed (typing.call name) place workspace
  | .imports place name =>
    (modules name place workspace).andThen fun signatures after =>
      (.ok { typing with signatures := typing.signatures.merge signatures }, after)
  | .branch place body _ =>
    (placed (typing.operand "if") place workspace).andThen fun opened workspace =>
      (checkAll modules opened body workspace).andThen fun closed workspace =>
        if closed.stack.size = opened.stack.size then (.ok closed, workspace)
        else placed (.error (.depthChanged opened.stack.size closed.stack.size)) place workspace
  | .choice place consequent _ alternative _ =>
    (placed (typing.operand "if") place workspace).andThen fun opened workspace =>
      (checkAll modules opened consequent workspace).andThen fun first workspace =>
        (checkAll modules { first with stack := opened.stack } alternative workspace).andThen
          fun second workspace =>
            if first.stack.size = second.stack.size then
              (.ok { second with stack := first.stack }, workspace)
            else placed (.error (.branchesDiffer first.stack.size second.stack.size)) place workspace
  | .repeats place body _ =>
    (placed (typing.operand "repeat") place workspace).andThen fun opened workspace =>
      checkAll modules opened body workspace
  | .loop place test _ body _ =>
    (checkAll modules typing test workspace).andThen fun tested workspace =>
      if tested.stack.size = typing.stack.size + 1 then
        (placed (tested.operand "while") place workspace).andThen fun opened workspace =>
          checkAll modules opened body workspace
      else
        placed (.error (.conditionLeaves (tested.stack.size - typing.stack.size))) place workspace
  | .bind place names body _ =>
    (placed (typing.bind names) place workspace).andThen fun opened workspace =>
      (checkAll modules opened body workspace).andThen fun closed workspace =>
        (.ok closed.unbind, workspace)
  | .cell _ name body _ =>
    (checkAll modules (typing.cell name) body workspace).andThen fun closed workspace =>
      (.ok closed.unbind, workspace)
  | .define place heading body _ =>
    (placed heading.signature place workspace).andThen fun signature workspace =>
      (placed (typing.enter heading.name signature) place workspace).andThen fun opened workspace =>
        (checkAll modules opened body workspace).andThen fun closed workspace =>
          (placed (closed.conclude heading.name signature) place workspace).andThen
            fun _ workspace => (.ok { closed with stack := typing.stack }, workspace)

/-- Check items one behind the other. -/
def checkAll (modules : Modules) (typing : Typing) (items : List Item) (workspace : Workspace) :
    Build Typing :=
  match items with
  | [] => (.ok typing, workspace)
  | item :: rest =>
    (check modules typing item workspace).andThen fun next workspace =>
      checkAll modules next rest workspace

end

/-- Check a whole program, which has to leave nothing behind. -/
def checkProgram (modules : Modules) (items : List Item) (workspace : Workspace) : Build Typing :=
  (checkAll modules start items workspace).andThen fun typing workspace =>
    if typing.stack.size = 0 then (.ok typing, workspace)
    else
      (.error ⟨.leftOver typing.stack.toList, items.getLast?.map Item.last⟩, workspace)

end Typing

namespace Settings

/-- The signatures of the module `name`, those of the modules it imports included. It is checked as a
program of its own. -/
def moduleSignatures (settings : Settings) : (depth : Nat) → Typing.Modules
  | 0, name, place, workspace =>
    (.error ⟨.importCycle workspace.chain name, some place⟩, workspace)
  | depth + 1, name, place, workspace =>
    (settings.enterModule name place workspace).andThen fun items opened =>
      let (result, after) := Typing.checkProgram (settings.moduleSignatures depth) items opened
      (result.map Typing.signatures, after.close)

/-- Check a program before it runs. -/
def check (settings : Settings) (items : List Item) (workspace : Workspace) : Build Typing :=
  Typing.checkProgram (settings.moduleSignatures settings.depth) items workspace

end Settings

end TapeMachine
