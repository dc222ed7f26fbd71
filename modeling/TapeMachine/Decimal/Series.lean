import TapeMachine.Decimal.Basic

namespace TapeMachine.Series

/-- Logarithm and exponential are computed on integers that count units of `1 / unit`. -/
def unit : Int := tenTo 110

/-- The sum of `power / k + power * square / (k + 2) + …`, with `terms` terms. -/
def oddPowers (square : Int) : (terms : Nat) → (k power total : Int) → Int
  | 0, _, _, total => total
  | terms + 1, k, power, total =>
    oddPowers square terms (k + 2) (power * square / unit) (total + power / k)

/-- `2 * artanh z`, which is the logarithm of `(1 + z) / (1 - z)`, for `z` between `-1/3` and `1/3`. -/
def twiceArtanh (z : Int) : Int :=
  2 * oddPowers (z * z / unit) 130 1 z 0

def logTwo : Int :=
  twiceArtanh (unit / 3)

/-- The natural logarithm of `num / den`, both positive. -/
def log (num den : Nat) : Int :=
  let shift : Int := (num.log2 : Int) - den.log2
  let top : Int := num * Nat.pow 2 (-shift).toNat
  let bottom : Int := den * Nat.pow 2 shift.toNat
  shift * logTwo + twiceArtanh ((top - bottom) * unit / (top + bottom))

/-- The sum of `term + term * x / k + term * x ^ 2 / (k * (k + 1)) + …`, with `terms` terms. -/
def factorialPowers (x : Int) : (terms : Nat) → (k term total : Int) → Int
  | 0, _, _, total => total
  | terms + 1, k, term, total =>
    factorialPowers x terms (k + 1) (term * x / (unit * k)) (total + term)

/-- The exponential of `x`, which is not negative. -/
def exp (x : Int) : Int :=
  let shift := x / logTwo
  factorialPowers (x - shift * logTwo) 100 1 unit 0 * Nat.pow 2 shift.toNat

end TapeMachine.Series
