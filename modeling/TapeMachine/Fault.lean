import TapeMachine.Decimal.Printer
import TapeMachine.Token
import TapeMachine.Ty

namespace TapeMachine

/-- The kinds of failure that programs and their tools tell apart. -/
inductive Code
  | unterminatedString
  | invalidEscape
  | unmatchedEnd
  | unterminatedBlock
  | misplacedKeyword
  | malformedFunction
  | malformedBinding
  | missingImport
  | importNotImplemented
  | importCycle
  | stackImbalance
  | signatureViolation
  | unknownType
  | nonEmptyStack
  | stackUnderflow
  | typeMismatch
  | undefinedName
  | outOfMemory
  | invalidPointer
  | invalidAllocation
  | uninitializedMemory
  | divisionByZero
  | overflow
  | invalidNumber
  | interrupted
  | internalError
  deriving DecidableEq, Repr

def Code.label : Code → String
  | unterminatedString => "unterminated string"
  | invalidEscape => "invalid escape"
  | unmatchedEnd => "unmatched end"
  | unterminatedBlock => "unterminated block"
  | misplacedKeyword => "misplaced keyword"
  | malformedFunction => "malformed function"
  | malformedBinding => "malformed binding"
  | missingImport => "missing import"
  | importNotImplemented => "not implemented"
  | importCycle => "import cycle"
  | stackImbalance => "stack imbalance"
  | signatureViolation => "signature violation"
  | unknownType => "unknown type"
  | nonEmptyStack => "non-empty stack"
  | stackUnderflow => "stack underflow"
  | typeMismatch => "type mismatch"
  | undefinedName => "undefined name"
  | outOfMemory => "out of memory"
  | invalidPointer => "invalid pointer"
  | invalidAllocation => "invalid allocation"
  | uninitializedMemory => "uninitialized memory"
  | divisionByZero => "division by zero"
  | overflow => "overflow"
  | invalidNumber => "invalid number"
  | interrupted => "break"
  | internalError => "internal error"

/-- Why something failed. The texts of messages are made from a cause and nothing else. -/
inductive Cause
  | stringNotClosed
  | badHexByte (digits : List Char)
  | unknownEscape (c : Char)
  | endWithoutBlock
  | blockNotClosed (construct : String)
  | whileWithoutDo
  | elseWithoutIf
  | doWithoutWhile
  | colonOutsideSignature
  | notAFunctionName (found : Lexeme)
  | functionWithoutName
  | notATypeName (closer : Keyword) (found : Lexeme)
  | signatureNotClosed (closer : Keyword)
  | notANameToBind (found : Lexeme)
  | letWithoutDo
  | letWithoutNames
  | notAVariableName (found : Lexeme)
  | varWithoutName
  | importWithoutName
  | moduleNotLoaded (name reason : String)
  | relativeImport (name : String)
  | importCycle (chain : List String) (name : String)
  | depthChanged (before after : Nat)
  | branchesDiffer (consequent alternative : Nat)
  | conditionLeaves (count : Int)
  | bodyLeaves (function : String) (declared left : List Ty)
  | notAType (name : String)
  | leftOver (types : List Ty)
  | tooFewFor (word : String) (needed found : Nat)
  | tooFew (needed found : Nat)
  | arguments (word : String) (wanted found : List Ty)
  | blockOperand (construct : String) (wanted found : Ty)
  | operands (word : String) (wanted found : List Ty)
  | notOfType (wanted found : Ty)
  | undefinedName (name : String)
  | noFreeRegion (size : Nat)
  | notARegion (address : Nat)
  | outsideHeap (address capacity : Nat)
  | notAllocated (address : Nat)
  | notAnAddress (base : Nat) (offset : Decimal)
  | emptyRegion
  | notASize (n : Decimal)
  | neverWritten (address : Nat)
  | divisionByZero
  | stackFull (stack : String)
  | resultTooLarge (word : String)
  | tooManyTimes (n : Decimal)
  | noSquareRoot (n : Decimal)
  | notANumber (text : String)
  | interrupted
  | pastTheTape (address : Nat)
  | returnOutsideFunction
  deriving DecidableEq

namespace Cause

def code : Cause → Code
  | stringNotClosed => .unterminatedString
  | badHexByte _ | unknownEscape _ => .invalidEscape
  | endWithoutBlock => .unmatchedEnd
  | blockNotClosed _ | whileWithoutDo => .unterminatedBlock
  | elseWithoutIf | doWithoutWhile | colonOutsideSignature => .misplacedKeyword
  | notAFunctionName _ | functionWithoutName | notATypeName .. | signatureNotClosed _ =>
    .malformedFunction
  | notANameToBind _ | letWithoutDo | letWithoutNames | notAVariableName _ | varWithoutName =>
    .malformedBinding
  | importWithoutName | moduleNotLoaded .. => .missingImport
  | relativeImport _ => .importNotImplemented
  | importCycle .. => .importCycle
  | depthChanged .. | branchesDiffer .. | conditionLeaves _ => .stackImbalance
  | bodyLeaves .. => .signatureViolation
  | notAType _ => .unknownType
  | leftOver _ => .nonEmptyStack
  | tooFewFor .. | tooFew .. => .stackUnderflow
  | arguments .. | blockOperand .. | operands .. | notOfType .. => .typeMismatch
  | undefinedName _ => .undefinedName
  | noFreeRegion _ => .outOfMemory
  | notARegion _ | outsideHeap .. | notAllocated _ | notAnAddress .. => .invalidPointer
  | emptyRegion | notASize _ => .invalidAllocation
  | neverWritten _ => .uninitializedMemory
  | divisionByZero => .divisionByZero
  | stackFull _ | resultTooLarge _ | tooManyTimes _ => .overflow
  | noSquareRoot _ | notANumber _ => .invalidNumber
  | interrupted => .interrupted
  | pastTheTape _ | returnOutsideFunction => .internalError

def text : Cause → String
  | stringNotClosed => "expected end of string, found end of file"
  | badHexByte digits => "\\x" ++ String.ofList digits ++ " is not a hex byte"
  | unknownEscape c => "unknown escape \\" ++ c.toString
  | endWithoutBlock => "end without an open block"
  | blockNotClosed construct => s!"unterminated {construct}"
  | whileWithoutDo => "while has no matching do"
  | elseWithoutIf => "else without a matching if"
  | doWithoutWhile => "do without a matching while"
  | colonOutsideSignature => "`:` outside of a function signature"
  | notAFunctionName found => s!"expected a function name, found {found.text}"
  | functionWithoutName => "fn without a name"
  | notATypeName closer found => s!"expected a type name or `{closer.text}`, found {found.text}"
  | signatureNotClosed closer => s!"function signature has no `{closer.text}`"
  | notANameToBind found => s!"expected a name to bind, found {found.text}"
  | letWithoutDo => "let without do"
  | letWithoutNames => "let binds no names"
  | notAVariableName found => s!"expected a variable name, found {found.text}"
  | varWithoutName => "var without a name"
  | importWithoutName => "import needs a module name"
  | moduleNotLoaded name reason => s!"{name}: {reason}"
  | relativeImport name => s!"relative imports are not implemented: {name}"
  | importCycle chain name => " -> ".intercalate (chain ++ [name])
  | depthChanged before after =>
    s!"if without else must not change the stack depth, went from {before} to {after}"
  | branchesDiffer consequent alternative =>
    s!"branches leave different stack depths, {consequent} and {alternative}"
  | conditionLeaves count => s!"while condition must leave exactly one value, left {count}"
  | bodyLeaves function declared left =>
    s!"`{function}` declares {Ty.listText declared} but its body leaves {Ty.listText left}"
  | notAType name => s!"`{name}` is not a type"
  | leftOver types => s!"program ends with {Ty.listText types} left on the stack"
  | tooFewFor word needed found => s!"`{word}` needs {needed} value(s), found {found}"
  | tooFew needed found => s!"needed {needed} value(s), found {found}"
  | arguments word wanted found =>
    s!"`{word}` takes {Ty.listText wanted}, found {Ty.listText found}"
  | blockOperand construct wanted found =>
    s!"`{construct}` needs a {wanted.name}, found {found.name}"
  | operands word wanted found =>
    "`" ++ word ++ "` takes only " ++ " + ".intercalate (wanted.map Ty.name) ++
      ", instead got " ++ ", ".intercalate (found.map Ty.name)
  | notOfType wanted found => s!"expected {wanted.name}, found {found.name}"
  | undefinedName name => s!"no function or binding called `{name}`"
  | noFreeRegion size => s!"no free region of {size} slots"
  | notARegion address => s!"{address} is not an allocated region"
  | outsideHeap address capacity => s!"{address} is outside the heap of {capacity} slots"
  | notAllocated address => s!"{address} is not in an allocated region"
  | notAnAddress base offset => s!"{base} moved by {offset.exact} is not an address"
  | emptyRegion => "cannot allocate 0 slots"
  | notASize n => s!"cannot allocate {n.exact} slots"
  | neverWritten address => s!"slot {address} was never written"
  | divisionByZero => ""
  | stackFull stack => s!"{stack} overflow"
  | resultTooLarge word => s!"result of `{word}` does not fit"
  | tooManyTimes n => s!"cannot repeat {n.exact} times"
  | noSquareRoot n => s!"no square root of {n.exact}"
  | notANumber text => s!"{Quoted.encode text} is not a number"
  | interrupted => ""
  | pastTheTape address => s!"{address} is past the tape"
  | returnOutsideFunction => "return outside of a function"

end Cause

/-- A cause, and the place in the source where it shows once somebody knew one. -/
structure Failure where
  cause : Cause
  place : Option Location := none
  deriving DecidableEq

/-- Failures of parts that know nothing of the source. -/
abbrev Outcome := Except Cause

/-- The outcome of a part that stands for `place` in the source. -/
def Outcome.locate {α : Type} (outcome : Outcome α) (place : Location) : Except Failure α :=
  outcome.mapError fun cause => ⟨cause, some place⟩

end TapeMachine
