import TapeMachine.Decimal.Basic

namespace TapeMachine.Decimal

/-- The digits of the mantissa, at least one of them before the point. -/
def digits (d : Decimal) : List Char :=
  (Nat.toDigits 10 d.mantissa).leftpad (d.scale + 1) '0'

/-- `d` with exactly `scale` digits after the point. -/
def exact (d : Decimal) : String :=
  let whole := d.digits.take (d.digits.length - d.scale)
  let fraction := d.digits.drop (d.digits.length - d.scale)
  String.ofList ((if d.negative then ['-'] else []) ++ whole ++
    (if d.scale = 0 then [] else '.' :: fraction))

/-- `d` as programs print it: equal numbers have one text. -/
def text (d : Decimal) : String :=
  d.normalize.exact

end TapeMachine.Decimal
