import TapeMachine.Decimal.Basic

namespace TapeMachine.Decimal

/-- A zero operand leaves the other one as it is, sign and scale included. -/
def add? (a b : Decimal) : Option Decimal :=
  if a.isZero then some b
  else if b.isZero then some a
  else
    let scale := max a.scale b.scale
    let sum := a.num * tenTo (scale - a.scale) + b.num * tenTo (scale - b.scale)
    fit (decide (sum < 0)) sum.natAbs (tenTo scale) scale

def sub? (a b : Decimal) : Option Decimal :=
  if b.isZero then (if a.isZero then some b else some a)
  else add? a b.neg

/-- Two to the 32: a mantissa below it fills one word. -/
def wordLimit : Nat := 4294967296

/-- The product. One that vanishes keeps its sign if a mantissa fills more than one word. -/
def mul? (a b : Decimal) : Option Decimal :=
  if a.isZero || b.isZero then some zero
  else do
    let negative := a.negative != b.negative
    let product ← fit negative (a.mantissa * b.mantissa) (tenTo (a.scale + b.scale))
      (a.scale + b.scale)
    if a.mantissa < wordLimit ∧ b.mantissa < wordLimit then some product
    else some { product with negative := negative }

/-- Division brings down nine digits at a time, starting at `scale`. This is the scale at which
`m / n` comes out even, or 28 if that takes more than `rounds` rounds or goes beyond. -/
def evenScale (m n : Nat) : (rounds : Nat) → (scale : Int) → Nat
  | 0, _ => 28
  | rounds + 1, scale =>
    if m % n = 0 then min 28 scale.toNat else evenScale (m * tenTo 9) n rounds (scale + 9)

/-- One step of `dropGroups`: eight zeros go only if the low word of the mantissa is zero. -/
def dropEight (d : Decimal) : Decimal :=
  if d.mantissa % wordLimit = 0 then d.dropZeros 8 else d

/-- `d` without the zeros at its end that go in groups of eight, four, two and one. Some may stay. -/
def dropGroups (d : Decimal) : Decimal :=
  (((d.dropEight.dropEight.dropEight).dropZeros 4).dropZeros 2).dropZeros 1

/-- The quotient by a divisor that is not zero. If the mantissas divide, the scales subtract; otherwise
the zeros of the last digits brought down go in groups. Seven rounds lead from any scale to 28. -/
def div? (a b : Decimal) : Option Decimal :=
  if a.isZero then some zero
  else do
    let quotient ← fit (a.negative != b.negative) (a.mantissa * tenTo b.scale)
      (b.mantissa * tenTo a.scale) (evenScale a.mantissa b.mantissa 7 (a.scale - b.scale))
    if a.mantissa % b.mantissa = 0 then some quotient else some quotient.dropGroups

/-- Newton's iteration from `root` until it repeats a value, for at most `steps` steps. -/
def sqrtLoop (d : Decimal) : (steps : Nat) → (last root : Decimal) → Option Decimal
  | 0, _, root => some root
  | steps + 1, last, root =>
    if eqv last root then some root
    else do
      let quotient ← div? d root
      let sum ← add? root quotient
      sqrtLoop d steps root (← div? sum two)

/-- The square root; a number with a minus sign has none, be it zero. -/
def sqrt? (d : Decimal) : Option Decimal :=
  if d.negative then none
  else if d.isZero then some zero
  else do
    let half ← div? d two
    let start := if half.isZero then d else half
    sqrtLoop d 1000 (← add? start one) start

end TapeMachine.Decimal
