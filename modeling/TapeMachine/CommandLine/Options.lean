import TapeMachine.Address

namespace TapeMachine

/-- The switches of the command line. -/
inductive Switch
  | lazyImports
  | dump
  | dumpMain
  | noCheck
  | noColor
  deriving DecidableEq, Repr

def Switch.all : List Switch :=
  [lazyImports, dump, dumpMain, noCheck, noColor]

def Switch.name : Switch → String
  | lazyImports => "lazy-imports"
  | dump => "dump"
  | dumpMain => "dump-main"
  | noCheck => "no-check"
  | noColor => "no-color"

def Switch.ofName? (name : String) : Option Switch :=
  all.find? fun switch => switch.name == name

theorem Switch.ofName?_name (switch : Switch) : ofName? switch.name = some switch := by
  cases switch <;> decide

/-- What the command line asks for. -/
structure Options where
  file : String
  /-- The directory of the library. -/
  std : Option String := none
  /-- How many slots the heap has. -/
  heap : Option Nat := none
  switches : List Switch := []

/-- Why there is nothing to run. -/
inductive Refusal
  | help
  | version
  | misuse
  deriving DecidableEq, Repr

/-- An argument by its form. A lone `-` is plain. -/
inductive Argument
  | plain (text : String)
  | short (letter : Char)
  | long (name : String) (value : Option String)
  | separator
  deriving DecidableEq

namespace Argument

/-- A long option; what follows the first `=` is its value. -/
def ofLong (text : List Char) : Argument :=
  let name := String.ofList (text.takeWhile (· ≠ '='))
  match text.dropWhile (· ≠ '=') with
  | [] => long name none
  | _ :: value => long name (some (String.ofList value))

def ofText (text : String) : Argument :=
  match text.toList with
  | ['-', '-'] => separator
  | '-' :: '-' :: rest => ofLong rest
  | '-' :: letter :: _ => short letter
  | _ => plain text

end Argument

/-- A natural number below the limit in decimal digits, perhaps after a `+`. -/
def slotCount? (text : String) : Option Nat :=
  let digits := match text.toList with
    | '+' :: rest => rest
    | whole => whole
  let count := digits.foldl (fun n c => 10 * n + (c.toNat - '0'.toNat)) 0
  if !digits.isEmpty && digits.all Char.isDigit && count < addressLimit then some count else none

/-- The options read so far. The file may still be missing. -/
structure Draft where
  file : Option String := none
  std : Option String := none
  heap : Option Nat := none
  switches : List Switch := []

namespace Draft

/-- There is one file, and no path is empty. -/
def setFile (draft : Draft) (path : String) : Except Refusal Draft :=
  if draft.file.isSome || path.isEmpty then .error .misuse
  else .ok { draft with file := some path }

/-- No option is given twice. -/
def setOption (draft : Draft) (name value : String) : Except Refusal Draft :=
  if name = "std" then
    if draft.std.isSome || value.isEmpty then .error .misuse
    else .ok { draft with std := some value }
  else
    match slotCount? value with
    | some count =>
      if draft.heap.isSome then .error .misuse else .ok { draft with heap := some count }
    | none => .error .misuse

def setSwitch (draft : Draft) (switch : Switch) : Except Refusal Draft :=
  if switch ∈ draft.switches then .error .misuse
  else .ok { draft with switches := draft.switches ++ [switch] }

/-- The options that take a value. -/
def takesValue (name : String) : Bool :=
  name ∈ ["std", "heap"]

/-- A long option that takes no value from the next argument. -/
def setLong (draft : Draft) (name : String) (value : Option String) : Except Refusal Draft :=
  match Switch.ofName? name, value with
  | some switch, none => draft.setSwitch switch
  | none, some value => if takesValue name then draft.setOption name value else .error .misuse
  | none, none =>
    if name = "help" then .error .help
    else if name = "version" then .error .version
    else .error .misuse
  | some _, some _ => .error .misuse

def setShort : (letter : Char) → Refusal
  | 'h' => .help
  | 'V' => .version
  | _ => .misuse

/-- Behind a separator every argument is a file. -/
def readFiles : Draft → List String → Except Refusal Draft
  | draft, [] => .ok draft
  | draft, path :: rest =>
    match draft.setFile path with
    | .ok next => next.readFiles rest
    | .error refusal => .error refusal

/-- Read arguments from left to right. The first one that cannot be used decides. -/
def read : Draft → List String → Except Refusal Draft
  | draft, [] => .ok draft
  | draft, text :: rest =>
    match Argument.ofText text with
    | .separator => draft.readFiles rest
    | .short letter => .error (setShort letter)
    | .plain path =>
      match draft.setFile path with
      | .ok next => next.read rest
      | .error refusal => .error refusal
    | .long name value =>
      if takesValue name && value.isNone then
        match rest with
        | [] => .error .misuse
        | following :: rest =>
          match Argument.ofText following with
          | .plain value =>
            match draft.setOption name value with
            | .ok next => next.read rest
            | .error refusal => .error refusal
          | _ => .error .misuse
      else
        match draft.setLong name value with
        | .ok next => next.read rest
        | .error refusal => .error refusal

end Draft

namespace Options

/-- The options that arguments spell. -/
def ofArguments (arguments : List String) : Except Refusal Options :=
  match Draft.read {} arguments with
  | .error refusal => .error refusal
  | .ok draft =>
    match draft.file with
    | some file => .ok { file, std := draft.std, heap := draft.heap, switches := draft.switches }
    | none => .error .misuse

def has (options : Options) (switch : Switch) : Bool :=
  switch ∈ options.switches

/-- Are diagnostics painted? -/
def coloured (options : Options) : Bool :=
  !options.has .noColor

end Options

end TapeMachine
