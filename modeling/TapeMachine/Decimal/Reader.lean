import TapeMachine.Decimal.Arithmetic

namespace TapeMachine.Decimal

/-- What has been read of a number without exponent. -/
structure Reading where
  mantissa : Nat := 0
  scale : Nat := 0
  anyDigit : Bool := false
  afterPoint : Bool := false

namespace Reading

def close (reading : Reading) (negative : Bool) : Option Decimal :=
  if reading.anyDigit then ofParts? negative reading.mantissa reading.scale else none

/-- The reading ends before the digit `dropped`, which alone decides whether the last digit kept goes
up. A mantissa that no longer fits gives up one more digit. -/
def closeBefore (reading : Reading) (negative : Bool) (dropped : Nat) : Option Decimal :=
  if dropped < 5 then ofParts? negative reading.mantissa reading.scale
  else if reading.mantissa + 1 < mantissaLimit then ofParts? negative (reading.mantissa + 1) reading.scale
  else if reading.scale = 0 then none
  else ofParts? negative ((reading.mantissa + 5) / 10) (reading.scale - 1)

def add (reading : Reading) (digit : Nat) : Reading where
  mantissa := reading.mantissa * 10 + digit
  scale := if reading.afterPoint then reading.scale + 1 else 0
  anyDigit := true
  afterPoint := reading.afterPoint

end Reading

/-- May `c` stand after the last digit that is kept? -/
def isTail (c : Char) : Bool :=
  c.isDigit || c == '_'

/-- Digits with at most one point, and underscores anywhere after the first digit. -/
def readDigits (negative : Bool) : Reading → List Char → Option Decimal
  | reading, [] => reading.close negative
  | reading, c :: rest =>
    if c.isDigit then
      let next := reading.add (c.toNat - '0'.toNat)
      if reading.afterPoint && (reading.scale == 28 || mantissaLimit ≤ next.mantissa) then
        if rest.all isTail then reading.closeBefore negative (c.toNat - '0'.toNat) else none
      else if mantissaLimit ≤ next.mantissa then none
      else readDigits negative next rest
    else if c = '.' && !reading.afterPoint then
      readDigits negative { reading with afterPoint := true } rest
    else if c = '_' && reading.anyDigit then
      if reading.afterPoint && reading.scale == 28 then
        if rest.all isTail then reading.close negative else none
      else readDigits negative reading rest
    else none

/-- A number without exponent. -/
def readPlain : List Char → Option Decimal
  | '-' :: rest => readDigits true {} rest
  | '+' :: rest => readDigits false {} rest
  | text => readDigits false {} text

/-- A natural number in digits alone. -/
def readNat : Nat → List Char → Option Nat
  | n, [] => some n
  | n, c :: rest => if c.isDigit then readNat (n * 10 + (c.toNat - '0'.toNat)) rest else none

/-- A natural number of at least one digit that may start with a plus sign. -/
def readUnsigned : List Char → Option Nat
  | '+' :: c :: rest => readNat 0 (c :: rest)
  | c :: rest => readNat 0 (c :: rest)
  | [] => none

/-- `d * 10 ^ exponent`. The scale takes up the exponent as far as it reaches. -/
def raise? (d : Decimal) (exponent : Nat) : Option Decimal :=
  if exponent ≤ d.scale then ofParts? d.negative d.mantissa (d.scale - exponent)
  else (mul? d (ofNat (tenTo exponent))).map normalize

/-- `d / 10 ^ exponent`. Digits beyond the largest scale are rounded off, a half going up; the sign stays
even if none are left. -/
def lower? (d : Decimal) (exponent : Nat) : Option Decimal :=
  let kept := d.roundTo (28 - exponent)
  if fits : kept.scale + exponent ≤ 28 then
    some { kept with scale := kept.scale + exponent, scale_le := fits }
  else none

/-- A number with an exponent after the first `e` or `E`. -/
def readScientific (text : List Char) : Option Decimal :=
  let isMark := fun c : Char => c == 'e' || c == 'E'
  match text.dropWhile fun c => !isMark c with
  | [] => none
  | _ :: exponent => do
    let d ← readPlain (text.takeWhile fun c => !isMark c)
    let (down, digits) := match exponent with
      | '-' :: digits => (true, digits)
      | digits => (false, digits)
    let n ← readUnsigned digits
    if 28 < n then none else if down then lower? d n else raise? d n

/-- Read a number: plain if it is one, else with an exponent. -/
def read? (text : List Char) : Option Decimal :=
  (readPlain text).or (readScientific text)

end TapeMachine.Decimal
