import TapeMachine.Address
import TapeMachine.Decimal.Power
import TapeMachine.Decimal.Reader
import TapeMachine.Fault
import TapeMachine.Text.Blank

namespace TapeMachine.Decimal

/-- The number that a text spells, blanks around it apart. -/
def parse (text : String) : Outcome Decimal :=
  let trimmed := trim text.toList
  match read? trimmed with
  | some d => .ok d
  | none => .error (.notANumber (String.ofList trimmed))

/-- How often a repetition by `d` runs: the integer towards zero, and never with a minus sign. -/
def toCount (d : Decimal) : Outcome Nat :=
  if d.negative then .ok 0
  else if d.trunc.mantissa < addressLimit then .ok d.trunc.mantissa
  else .error (.tooManyTimes d.trunc)

/-- How many slots an allocation asks for: the integer below. -/
def toSize (d : Decimal) : Outcome Nat :=
  if d.negative || addressLimit ≤ d.trunc.mantissa then .error (.notASize d)
  else .ok d.trunc.mantissa

/-- The address `base` moved by the integer nearest to `d`. -/
def moveAddress (d : Decimal) (base : Nat) : Outcome Nat :=
  let target := base + d.round.num
  if 0 ≤ target ∧ target < addressLimit then .ok target.toNat
  else .error (.notAnAddress base d)

end TapeMachine.Decimal
