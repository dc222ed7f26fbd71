import TapeMachine.Decimal.Arithmetic

namespace TapeMachine.Logarithm

/-- Logarithms are taken on integers that count units of `10 ^ -28`, each step rounded to a unit. -/
def unit : Int := tenTo 28

/-- `num / den` to the nearest integer, a half going to the even neighbour. -/
def rounded (num : Int) (den : Nat) : Int :=
  if num < 0 then -(Decimal.roundHalfEven num.natAbs den : Int)
  else Decimal.roundHalfEven num.natAbs den

/-- The base of the logarithm. -/
def e : Nat := 27182818284590452353602874714

def inverseE : Int := 3678794411714423215955237702

def logTen : Int := 23025850929940456840179914540

/-- Divide by the base while `x` is more than 1, which for a number below 10 is at most three times,
and count in `total` how often. -/
def shrink : (times : Nat) → (x total : Int) → Int × Int
  | 0, x, total => (x, total)
  | times + 1, x, total =>
    if unit < x then shrink times (rounded (x * inverseE) unit.toNat) (total + unit) else (x, total)

/-- `z - z ^ 2 / 2 + z ^ 3 / 3 - …` until the powers vanish: the logarithm of `1 + z`. -/
def taylor (z : Int) : (terms : Nat) → (k : Nat) → (power total : Int) → Int
  | 0, _, _, total => total
  | terms + 1, k, power, total =>
    let next := rounded (-power * z) unit.toNat
    if next = 0 then total else taylor z terms (k + 1) next (total + rounded next k)

/-- `power / k + power * square / (k + 2) + …` until the powers vanish. -/
def oddPowers (square : Int) : (terms : Nat) → (k : Nat) → (power total : Int) → Int
  | 0, _, _, total => total
  | terms + 1, k, power, total =>
    if power = 0 then total
    else
      oddPowers square terms (k + 2) (rounded (power * square) unit.toNat)
        (total + rounded power k)

/-- The logarithm of `x` through the inverse hyperbolic tangent, which is quick near 1. -/
def artanh (x : Int) : Int :=
  let z := rounded ((x - unit) * unit) (x + unit).toNat
  2 * oddPowers (rounded (z * z) unit.toNat) 200 1 z 0

/-- The logarithm of `x`, which is from 1 up to 10. -/
def ofMantissa (x : Int) : Int :=
  let (rest, total) := shrink 3 x 0
  if 9 * unit ≤ 10 * rest then total + artanh rest
  else taylor (rest - unit) 200 1 (-unit) total

/-- The natural logarithm of the absolute value of `d`, which is not zero. -/
def ofDecimal (d : Decimal) : Int :=
  let digits := (Nat.toDigits 10 d.mantissa).length
  let decades : Int := (digits : Int) - 1 - d.scale
  decades * logTen + ofMantissa (d.mantissa * tenTo (29 - digits))

end TapeMachine.Logarithm
