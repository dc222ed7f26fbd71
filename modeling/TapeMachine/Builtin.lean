import TapeMachine.Ty

namespace TapeMachine

/-- The words that are there before any definition. -/
inductive Builtin
  | add
  | subtract
  | multiply
  | divide
  | power
  | sqrt
  | floor
  | ceil
  | round
  | isInteger
  | concat
  | offset
  | equal
  | notEqual
  | greater
  | greaterEqual
  | less
  | lessEqual
  | and
  | or
  | not
  | dup
  | swap
  | drop
  | stringToNumber
  | numberToString
  | stringToCells
  | inputNumber
  | inputString
  | print
  | alloc
  | free
  | save
  | load
  | inspect
  deriving DecidableEq, Repr

/-- What a program is asked for. -/
inductive InputKind
  | number
  | string
  deriving DecidableEq, Repr

def InputKind.ty : InputKind → Ty
  | number => .number
  | string => .string

/-- What the surroundings have to do after a word. -/
inductive Effect
  | continue
  | print (text : String)
  | input (kind : InputKind) (prompt : String)
  deriving DecidableEq

namespace Builtin

def all : List Builtin :=
  [add, subtract, multiply, divide, power, sqrt, floor, ceil, round, isInteger, concat, offset, equal,
   notEqual, greater, greaterEqual, less, lessEqual, and, or, not, dup, swap, drop, stringToNumber,
   numberToString, stringToCells, inputNumber, inputString, print, alloc, free, save, load, inspect]

def name : Builtin → String
  | add => "+"
  | subtract => "-"
  | multiply => "*"
  | divide => "/"
  | power => "^"
  | sqrt => "sqrt"
  | floor => "floor"
  | ceil => "ceil"
  | round => "round"
  | isInteger => "is-integer"
  | concat => "str+"
  | offset => "ptr+"
  | equal => "=="
  | notEqual => "!="
  | greater => ">"
  | greaterEqual => ">="
  | less => "<"
  | lessEqual => "<="
  | and => "&&"
  | or => "||"
  | not => "lnot"
  | dup => "dup"
  | swap => "swap"
  | drop => "drop"
  | stringToNumber => "str2num"
  | numberToString => "num2str"
  | stringToCells => "str2countstr"
  | inputNumber => "ipn"
  | inputString => "ips"
  | print => "pr"
  | alloc => "memalloc"
  | free => "memfree"
  | save => "memsave"
  | load => "memload"
  | inspect => "???"

/-- The types of the operands, deepest first. -/
def inputs : Builtin → List Ty
  | add | subtract | multiply | divide | power => [.number, .number]
  | sqrt | floor | ceil | round | isInteger => [.number]
  | concat => [.string, .string]
  | offset => [.pointer, .number]
  | equal | notEqual => [.any, .any]
  | greater | greaterEqual | less | lessEqual | and | or => [.number, .number]
  | not => [.number]
  | dup => [.any]
  | swap => [.any, .any]
  | drop => [.any]
  | stringToNumber => [.string]
  | numberToString => [.number]
  | stringToCells => [.string]
  | inputNumber | inputString | print => [.any]
  | alloc => [.number]
  | free => [.pointer]
  | save => [.any, .pointer]
  | load => [.pointer]
  | inspect => []

/-- The types of the results, deepest first. -/
def outputs : Builtin → List Ty
  | add | subtract | multiply | divide | power => [.number]
  | sqrt | floor | ceil | round | isInteger => [.number]
  | concat => [.string]
  | offset => [.pointer]
  | equal | notEqual | greater | greaterEqual | less | lessEqual | and | or | not => [.number]
  | dup => [.any, .any]
  | swap => [.any, .any]
  | drop => []
  | stringToNumber => [.number]
  | numberToString => [.string]
  | stringToCells => [.pointer, .number]
  | inputNumber => [.number]
  | inputString => [.string]
  | print => []
  | alloc => [.pointer]
  | free => []
  | save => []
  | load => [.any]
  | inspect => []

def find? (name : String) : Option Builtin :=
  all.find? fun builtin => builtin.name == name

theorem mem_all (builtin : Builtin) : builtin ∈ all := by
  cases builtin <;> decide

theorem find?_name (builtin : Builtin) : find? builtin.name = some builtin := by
  cases builtin <;> decide

end Builtin

end TapeMachine
