namespace TapeMachine

/-- Ten to the `n`. -/
def tenTo (n : Nat) : Nat :=
  Nat.pow 10 n

/-- Mantissas are below 2 to the 96. -/
def mantissaLimit : Nat := 79228162514264337593543950336

/-- The number `± mantissa / 10 ^ scale`. Equal numbers may differ in scale, and zero may carry
either sign. -/
structure Decimal where
  negative : Bool
  mantissa : Nat
  scale : Nat
  mantissa_lt : mantissa < mantissaLimit
  scale_le : scale ≤ 28
  deriving DecidableEq

namespace Decimal

/-- The decimal with these parts, if they are in range. A zero made this way is positive. -/
def ofParts? (negative : Bool) (mantissa scale : Nat) : Option Decimal :=
  if inRange : mantissa < mantissaLimit ∧ scale ≤ 28 then
    some ⟨negative && mantissa != 0, mantissa, scale, inRange.1, inRange.2⟩
  else none

/-- The natural number `n`, or the largest decimal if `n` is larger. -/
def ofNat (n : Nat) : Decimal :=
  ⟨false, min n (mantissaLimit - 1), 0, by rw [mantissaLimit]; omega, by omega⟩

def zero : Decimal := ofNat 0

def one : Decimal := ofNat 1

def two : Decimal := ofNat 2

instance : Inhabited Decimal := ⟨zero⟩

/-- The mantissa with its sign. -/
def num (d : Decimal) : Int :=
  if d.negative then -(d.mantissa : Int) else d.mantissa

def isZero (d : Decimal) : Bool :=
  d.mantissa == 0

/-- Order by value: scale and the sign of a zero do not count. -/
def compare (a b : Decimal) : Ordering :=
  Ord.compare (a.num * tenTo b.scale) (b.num * tenTo a.scale)

def eqv (a b : Decimal) : Bool := compare a b == .eq

def lt (a b : Decimal) : Bool := compare a b == .lt

def le (a b : Decimal) : Bool := compare a b != .gt

def neg (d : Decimal) : Decimal :=
  { d with negative := !d.negative }

/-- `num / den` as a natural number, a half going to the even neighbour. -/
def roundHalfEven (num den : Nat) : Nat :=
  let whole := num / den
  let rest := num % den
  if 2 * rest < den then whole
  else if den < 2 * rest then whole + 1
  else whole + whole % 2

/-- The fraction `num / den` rounded at the largest scale up to `cap` at which the mantissa is in
range. There is none if the fraction is too large for scale 0. -/
def fit (negative : Bool) (num den : Nat) : (cap : Nat) → Option Decimal
  | 0 => ofParts? negative (roundHalfEven num den) 0
  | scale + 1 =>
    (ofParts? negative (roundHalfEven (num * tenTo (scale + 1)) den) (scale + 1)).or
      (fit negative num den scale)

/-- Mantissa and scale once the zeros at the end of the fraction are gone. -/
def strip (mantissa : Nat) : (scale : Nat) → Nat × Nat
  | 0 => (mantissa, 0)
  | scale + 1 => if mantissa % 10 = 0 then strip (mantissa / 10) scale else (mantissa, scale + 1)

theorem strip_fst_le (mantissa scale : Nat) : (strip mantissa scale).1 ≤ mantissa := by
  induction scale generalizing mantissa with
  | zero => exact Nat.le_refl _
  | succ scale ih =>
    rw [strip]
    split
    · exact Nat.le_trans (ih _) (Nat.div_le_self _ _)
    · exact Nat.le_refl _

theorem strip_snd_le (mantissa scale : Nat) : (strip mantissa scale).2 ≤ scale := by
  induction scale generalizing mantissa with
  | zero => exact Nat.le_refl _
  | succ scale ih =>
    rw [strip]
    split
    · exact Nat.le_succ_of_le (ih _)
    · exact Nat.le_refl _

/-- The same sign and value without zeros at the end of the fraction. -/
def stripZeros (d : Decimal) : Decimal where
  negative := d.negative
  mantissa := (strip d.mantissa d.scale).1
  scale := (strip d.mantissa d.scale).2
  mantissa_lt := Nat.lt_of_le_of_lt (strip_fst_le _ _) d.mantissa_lt
  scale_le := Nat.le_trans (strip_snd_le _ _) d.scale_le

/-- `d` without the last `n` digits of its fraction, if they are there and all zero. -/
def dropZeros (n : Nat) (d : Decimal) : Decimal :=
  if n ≤ d.scale ∧ d.mantissa % tenTo n = 0 then
    { negative := d.negative
      mantissa := d.mantissa / tenTo n
      scale := d.scale - n
      mantissa_lt := Nat.lt_of_le_of_lt (Nat.div_le_self _ _) d.mantissa_lt
      scale_le := Nat.le_trans (Nat.sub_le _ _) d.scale_le }
  else d

/-- The digits dropped are zeros: with them put back the mantissa is that of `d`. -/
theorem mantissa_dropZeros (n : Nat) (d : Decimal) :
    (d.dropZeros n).mantissa * tenTo (d.scale - (d.dropZeros n).scale) = d.mantissa := by
  rw [dropZeros]
  split
  · rename_i zeros
    rw [Nat.sub_sub_self zeros.1]
    exact Nat.div_mul_cancel (Nat.dvd_of_mod_eq_zero zeros.2)
  · rw [Nat.sub_self]
    exact Nat.mul_one _

/-- The one decimal that stands for all those equal to `d`: no sign on zero, no zeros at the end. -/
def normalize (d : Decimal) : Decimal :=
  if d.isZero then zero else d.stripZeros

/-- Does `d` have a part after the point that is not zero? -/
def hasFraction (d : Decimal) : Bool :=
  d.mantissa % tenTo d.scale != 0

/-- `m / n` rounded up. -/
def ceilDiv (m n : Nat) : Nat :=
  (m + (n - 1)) / n

theorem ceilDiv_le (m : Nat) {n : Nat} (positive : 0 < n) : ceilDiv m n ≤ m := by
  apply Nat.le_of_lt_succ
  rw [ceilDiv, Nat.div_lt_iff_lt_mul positive]
  have grows : m * 1 ≤ m * n := Nat.mul_le_mul_left m positive
  rw [Nat.succ_mul]
  omega

theorem tenTo_pos (n : Nat) : 0 < tenTo n :=
  Nat.pow_pos (by decide)

/-- The integer towards zero. The sign stays, so a small negative number gives a negative zero. -/
def trunc (d : Decimal) : Decimal where
  negative := d.negative
  mantissa := d.mantissa / tenTo d.scale
  scale := 0
  mantissa_lt := Nat.lt_of_le_of_lt (Nat.div_le_self _ _) d.mantissa_lt
  scale_le := Nat.zero_le _

/-- The integer away from zero, with the sign of `d`. -/
def expand (d : Decimal) : Decimal where
  negative := d.negative
  mantissa := ceilDiv d.mantissa (tenTo d.scale)
  scale := 0
  mantissa_lt := Nat.lt_of_le_of_lt (ceilDiv_le _ (tenTo_pos _)) d.mantissa_lt
  scale_le := Nat.zero_le _

def floor (d : Decimal) : Decimal :=
  if d.negative then d.expand else d.trunc

def ceil (d : Decimal) : Decimal :=
  if d.negative then d.trunc else d.expand

/-- `m / n` to the nearest integer, a half going up. -/
def roundHalfUp (m n : Nat) : Nat :=
  (2 * m + n) / (2 * n)

theorem roundHalfUp_le (m : Nat) {n : Nat} (positive : 0 < n) : roundHalfUp m n ≤ m := by
  apply Nat.le_of_lt_succ
  rw [roundHalfUp, Nat.div_lt_iff_lt_mul (by omega)]
  have grows : m * 1 ≤ m * n := Nat.mul_le_mul_left m positive
  have double : m.succ * (2 * n) = 2 * (m * n) + 2 * n := by
    rw [Nat.succ_mul, Nat.mul_left_comm]
  omega

/-- `d` at a scale of at most `scale`, a half going away from zero. The sign stays. -/
def roundTo (d : Decimal) (scale : Nat) : Decimal :=
  if larger : scale < d.scale then
    have bound := roundHalfUp_le d.mantissa (tenTo_pos (d.scale - scale))
    { negative := d.negative
      mantissa := roundHalfUp d.mantissa (tenTo (d.scale - scale))
      scale := scale
      mantissa_lt := Nat.lt_of_le_of_lt bound d.mantissa_lt
      scale_le := Nat.le_trans (Nat.le_of_lt larger) d.scale_le }
  else d

/-- The nearest integer, a half going away from zero. A number that vanishes leaves its sign behind;
a zero keeps it. -/
def round (d : Decimal) : Decimal :=
  let nearest := d.roundTo 0
  if nearest.isZero && !d.isZero then zero else nearest

end Decimal

end TapeMachine
