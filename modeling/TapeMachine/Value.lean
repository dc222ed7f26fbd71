import TapeMachine.Fault

namespace TapeMachine

inductive Value
  | number (n : Decimal)
  | string (text : String)
  | pointer (address : Nat)
  deriving DecidableEq, Inhabited

namespace Value

/-- The type of a value; it is never `any`. -/
def ty : Value → Ty
  | number _ => .number
  | string _ => .string
  | pointer _ => .pointer

/-- Conditions are numbers: 1 for true and 0 for false. -/
def ofBool (b : Bool) : Value :=
  number (if b then .one else .zero)

/-- Values of different types are never equal, and numbers compare by value. -/
def eqv : Value → Value → Bool
  | number a, number b => a.eqv b
  | string a, string b => a == b
  | pointer a, pointer b => a == b
  | _, _ => false

def text : Value → String
  | number n => n.text
  | string text => text
  | pointer address => toString address

/-- The text of a value that is used as a prompt. -/
def prompt : Value → String
  | pointer address => s!"<ptr: {address}>"
  | value => value.text

def asNumber : Value → Outcome Decimal
  | number n => .ok n
  | value => .error (.notOfType .number value.ty)

def asString : Value → Outcome String
  | string text => .ok text
  | value => .error (.notOfType .string value.ty)

def asAddress : Value → Outcome Nat
  | pointer address => .ok address
  | value => .error (.notOfType .pointer value.ty)

end Value

end TapeMachine
