import TapeMachine.Decimal.Arithmetic
import TapeMachine.Decimal.Logarithm
import TapeMachine.Decimal.Series

namespace TapeMachine.Decimal

/-- `product * power ^ exponent` by squaring from the low bit, each product rounded to fit. The
exponent has at most `width + 1` bits, and no square is taken beyond its highest one. -/
def powerLoop : (width exponent : Nat) → (product power : Decimal) → Option Decimal
  | 0, exponent, product, power => if exponent % 2 = 1 then mul? product power else some product
  | width + 1, exponent, product, power => do
    let product ← if exponent % 2 = 1 then mul? product power else some product
    if exponent / 2 = 0 then some product
    else powerLoop width (exponent / 2) product (← mul? power power)

/-- `e` raised to `x / Series.unit`, rounded once; powers beyond the range of decimals do not fit. -/
def exp? (negative : Bool) (x : Int) : Option Decimal :=
  if 100 * Series.unit < x then none
  else if x < -100 * Series.unit then some zero
  else if 0 ≤ x then fit negative (Series.exp x).toNat Series.unit.toNat 28
  else fit negative Series.unit.toNat (Series.exp (-x)).toNat 28

/-- The power with a natural exponent, before `normalize`. Small exponents multiply; from 1024 on the
power is taken through the logarithm of the normal form, with the sign that the parity of the exponent
gives. -/
def rawPower? (base : Decimal) (exponent : Nat) : Option Decimal :=
  if exponent < 1024 then powerLoop exponent.log2 exponent one base
  else
    let reduced := base.normalize
    exp? (base.negative && exponent % 2 = 1)
      (exponent * Series.log reduced.mantissa (tenTo reduced.scale))

/-- The power with a natural exponent. From the cube on it has no zeros at the end. -/
def powNat? (base : Decimal) (exponent : Nat) : Option Decimal :=
  if exponent ≤ 2 then rawPower? base exponent else (rawPower? base exponent).map normalize

/-- The power with an exponent that is no integer: that of the absolute value, with the sign of the
base put back. It is the power of `Logarithm.e` to the exponent times the logarithm of the base. A
negative one is the reciprocal of a positive one, which has to fit. -/
def powFraction? (base exponent : Decimal) : Option Decimal := do
  let x := exponent.num * Logarithm.ofDecimal base * Series.log Logarithm.e Logarithm.unit.toNat /
    (Logarithm.unit * tenTo exponent.scale)
  let power ← if x = 0 then some one else exp? false x.natAbs
  let power ← if x < 0 then div? one power else some power
  some { power with negative := base.negative }

/-- Integer exponents are below 2 to the 32. -/
def countLimit : Nat := 4294967296

/-- `base` raised to `exponent`. -/
def pow? (base exponent : Decimal) : Option Decimal :=
  if exponent.isZero then some one
  else if base.isZero then some zero
  else if eqv base one then some one
  else if eqv exponent one then some base
  else if exponent.hasFraction then powFraction? base exponent
  else
    let count := exponent.trunc.mantissa
    if countLimit ≤ count then none
    else do
      let power ← powNat? base count
      if !exponent.negative then some power
      else if power.isZero then none
      else div? one power

end TapeMachine.Decimal
