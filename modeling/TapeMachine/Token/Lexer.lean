import TapeMachine.Fault
import TapeMachine.Text.Blank

namespace TapeMachine

namespace Lexer

def hexDigit? (c : Char) : Option Nat :=
  if c.isDigit then some (c.toNat - '0'.toNat)
  else if 'a' ≤ c ∧ c ≤ 'f' then some (c.toNat - 'a'.toNat + 10)
  else if 'A' ≤ c ∧ c ≤ 'F' then some (c.toNat - 'A'.toNat + 10)
  else none

/-- The value of one or two hexadecimal digits. A plus sign may take the place of the first one. -/
def hexByte? : List Char → Option Nat
  | [low] => hexDigit? low
  | [high, low] =>
    if high = '+' then hexDigit? low
    else do return 16 * (← hexDigit? high) + (← hexDigit? low)
  | _ => none

/-- The character that a backslash and `c` stand for. -/
def escaped? (c : Char) : Option Char :=
  if c = 'n' then some '\n'
  else if c = 'r' then some '\r'
  else if c = 't' then some '\t'
  else if c = 'b' then some '\x08'
  else if c = '"' then some '"'
  else if c = '\\' then some '\\'
  else none

/-- Where the lexer stands in a text. Characters read so far are latest first, and offsets are those
of the token's first byte and of the backslash. -/
inductive Mode
  | blank
  | word (start : Nat) (read : List Char)
  | string (start : Nat) (read : List Char)
  | escape (start : Nat) (read : List Char) (backslash : Nat)
  | hex (start : Nat) (read : List Char) (backslash : Nat) (digits : List Char)

def wordToken (file start stop : Nat) (read : List Char) : Token :=
  ⟨Lexeme.ofWord read.reverse, ⟨file, start, stop⟩⟩

def stringToken (file start stop : Nat) (read : List Char) : Token :=
  ⟨.string (String.ofList read.reverse), ⟨file, start, stop⟩⟩

def fail {α : Type} (cause : Cause) (file start stop : Nat) : Except Failure α :=
  .error ⟨cause, some ⟨file, start, stop⟩⟩

/-- What follows from one character: the next mode, and the token that the character completes. -/
def step (file offset : Nat) (mode : Mode) (c : Char) : Except Failure (Option Token × Mode) :=
  match mode with
  | .blank =>
    if isBlank c then .ok (none, .blank)
    else if c = '"' then .ok (none, .string offset [])
    else .ok (none, .word offset [c])
  | .word start read =>
    if isBlank c then .ok (some (wordToken file start offset read), .blank)
    else .ok (none, .word start (c :: read))
  | .string start read =>
    if c = '"' then .ok (some (stringToken file start (offset + 1) read), .blank)
    else if c = '\\' then .ok (none, .escape start read offset)
    else .ok (none, .string start (c :: read))
  | .escape start read backslash =>
    if c = 'x' then .ok (none, .hex start read backslash [])
    else
      match escaped? c with
      | some meant => .ok (none, .string start (meant :: read))
      | none => fail (.unknownEscape c) file backslash (offset + c.utf8Size)
  | .hex start read backslash [] => .ok (none, .hex start read backslash [c])
  | .hex start read backslash (first :: _) =>
    match hexByte? [first, c] with
    | some byte => .ok (none, .string start (Char.ofNat byte :: read))
    | none => fail (.badHexByte [first, c]) file backslash (offset + c.utf8Size)

/-- What follows from the end of the text. -/
def finish (file offset : Nat) : Mode → Except Failure (Option Token)
  | .blank => .ok none
  | .word start read => .ok (some (wordToken file start offset read))
  | .string start _ => fail .stringNotClosed file start offset
  | .escape _ _ backslash => fail .stringNotClosed file backslash offset
  | .hex start _ backslash digits =>
    if (hexByte? digits).isSome then fail .stringNotClosed file start offset
    else fail (.badHexByte digits) file backslash offset

/-- Read on from `offset`. The tokens already found are latest first. -/
def scan (file : Nat) : (offset : Nat) → Mode → (found : List Token) → List Char →
    Except Failure (List Token)
  | offset, mode, found, [] =>
    match finish file offset mode with
    | .ok token => .ok (token.toList ++ found).reverse
    | .error failure => .error failure
  | offset, mode, found, c :: rest =>
    match step file offset mode c with
    | .ok (some token, next) => scan file (offset + c.utf8Size) next (token :: found) rest
    | .ok (none, next) => scan file (offset + c.utf8Size) next found rest
    | .error failure => .error failure

end Lexer

/-- The tokens of the text of file number `file`: words between blanks, and strings in quotes. -/
def Token.ofText (file : Nat) (text : String) : Except Failure (List Token) :=
  Lexer.scan file 0 .blank [] text.toList

end TapeMachine
