import TapeMachine.Decimal.Arithmetic
import TapeMachine.Proofs.NormalForm

namespace TapeMachine.Decimal

variable {num den num' den' cap : Nat} {negative : Bool} {a b d : Decimal}

/-- `x` with a minus sign, or without. -/
def signed (negative : Bool) (x : ℚ) : ℚ :=
  if negative then -x else x

theorem signed_decide_abs (x : ℚ) : signed (decide (x < 0)) |x| = x := by
  by_cases below : x < 0
  · simp [signed, below, abs_of_neg]
  · simp [signed, below, abs_of_nonneg (not_lt.1 below)]

theorem decide_signed_neg {x : ℚ} (positive : 0 < x) : decide (signed negative x < 0) = negative := by
  cases negative <;> simp [signed, positive, positive.le]

theorem signed_mul (first second : Bool) (x y : ℚ) :
    signed first x * signed second y = signed (first != second) (x * y) := by
  cases first <;> cases second <;> simp [signed]

theorem signed_div (first second : Bool) (x y : ℚ) :
    signed first x / signed second y = signed (first != second) (x / y) := by
  cases first <;> cases second <;> simp [signed, neg_div, div_neg]

theorem abs_signed (negative : Bool) {x : ℚ} (positive : 0 < x) : |signed negative x| = x := by
  cases negative <;> simp [signed, positive.le]

theorem value_eq_signed (d : Decimal) : d.value = signed d.negative (d.mantissa / tenTo d.scale) := by
  rw [value, num, signed]
  split
  · push_cast
    exact neg_div _ _
  · push_cast
    rfl

theorem map_value_ofParts (negative : Bool) (mantissa scale : Nat) :
    (ofParts? negative mantissa scale).map value =
      if mantissa < mantissaLimit ∧ scale ≤ 28 then some (signed negative (mantissa / tenTo scale)) else none := by
  rw [ofParts?]
  split
  · rename_i inRange
    rw [Option.map_some, value_eq_signed]
    by_cases zero : mantissa = 0
    · simp [signed, zero]
    · rw [bne_iff_ne.2 zero, Bool.and_true]
  · rfl

theorem roundHalfEven_mul (num den : Nat) {more : Nat} (positive : 0 < more) :
    roundHalfEven (num * more) (den * more) = roundHalfEven num den := by
  have double : 2 * (num % den * more) = 2 * (num % den) * more := (Nat.mul_assoc ..).symm
  simp only [roundHalfEven, Nat.mul_div_mul_right _ _ positive, Nat.mul_mod_mul_right, double,
    Nat.mul_lt_mul_right positive]

theorem roundHalfEven_congr (positive : 0 < den) (positive' : 0 < den') (same : num * den' = num' * den) :
    roundHalfEven num den = roundHalfEven num' den' := by
  rw [← roundHalfEven_mul num den positive', same, Nat.mul_comm den, roundHalfEven_mul num' den' positive]

theorem roundHalfEven_of_dvd (positive : 0 < den) (exact : den ∣ num) : roundHalfEven num den = num / den := by
  rw [roundHalfEven, Nat.mod_eq_zero_of_dvd exact]
  exact if_pos positive

/-- How a fraction is rounded depends on nothing but its value. -/
theorem fit_congr (negative : Bool) (cap : Nat) (positive : 0 < den) (positive' : 0 < den')
    (same : num * den' = num' * den) : fit negative num den cap = fit negative num' den' cap := by
  induction cap with
  | zero => rw [fit, fit, roundHalfEven_congr positive positive' same]
  | succ cap ih =>
    have scaled : num * tenTo (cap + 1) * den' = num' * tenTo (cap + 1) * den := by
      rw [Nat.mul_right_comm, same, Nat.mul_right_comm]
    rw [fit, fit, ih, roundHalfEven_congr positive positive' scaled]

/-- What is in range at the largest scale is not rounded any further. -/
theorem fit_of_ofParts (made : ofParts? negative (roundHalfEven (num * tenTo cap) den) cap = some d) :
    fit negative num den cap = some d := by
  cases cap with
  | zero =>
    have one : num * tenTo 0 = num := Nat.mul_one num
    rwa [one] at made
  | succ cap => rw [fit, made, Option.some_or]

theorem fit_of_le (large : 28 ≤ cap) : fit negative num den cap = fit negative num den 28 := by
  induction cap, large using Nat.le_induction with
  | base => rfl
  | succ cap large ih => rw [fit, ofParts?, dif_neg (by omega), Option.none_or, ih]

/-- Where a fraction comes out even, one more digit changes nothing. -/
theorem map_value_fit_succ (positive : 0 < den) (exact : den ∣ num * tenTo cap) :
    (fit negative num den (cap + 1)).map value = (fit negative num den cap).map value := by
  obtain ⟨quotient, product⟩ := exact
  have here : roundHalfEven (num * tenTo cap) den = quotient := by
    rw [roundHalfEven_of_dvd positive ⟨_, product⟩, product, Nat.mul_div_cancel_left _ positive]
  have next : roundHalfEven (num * tenTo (cap + 1)) den = quotient * 10 := by
    have product' : num * tenTo (cap + 1) = den * (quotient * 10) := by
      rw [tenTo_add, ← Nat.mul_assoc, product, Nat.mul_assoc]
      rfl
    rw [roundHalfEven_of_dvd positive ⟨_, product'⟩, product', Nat.mul_div_cancel_left _ positive]
  have ratio : ((quotient * 10 : Nat) : ℚ) / tenTo (cap + 1) = quotient / tenTo cap := by
    rw [tenTo_add, Nat.cast_mul, Nat.cast_mul]
    exact mul_div_mul_right _ _ (by norm_num)
  rw [fit, next]
  have value_next := map_value_ofParts negative (quotient * 10) (cap + 1)
  have value_here := map_value_ofParts negative quotient cap
  cases made : ofParts? negative (quotient * 10) (cap + 1) with
  | none => rw [Option.none_or]
  | some d =>
    rw [made] at value_next
    split at value_next
    · rename_i inRange
      rw [if_pos (by omega)] at value_here
      obtain ⟨d', made', value_d'⟩ := Option.map_eq_some_iff.1 value_here
      rw [fit_of_ofParts (here ▸ made'), Option.some_or, value_next, ratio, Option.map_some, value_d']
    · cases value_next

/-- So it does not matter how many there may be, if they are as many as there can be or the fraction comes out even. -/
theorem map_value_fit (positive : 0 < den) (settled : 28 ≤ cap ∨ den ∣ num * tenTo cap) :
    (fit negative num den cap).map value = (fit negative num den 28).map value := by
  by_cases large : 28 ≤ cap
  · rw [fit_of_le large]
  · have exact := settled.resolve_left large
    obtain ⟨more, sum⟩ := Nat.exists_eq_add_of_le (Nat.le_of_not_le large)
    rw [sum]
    clear sum settled
    induction more with
    | zero => rfl
    | succ more ih =>
      rw [ih, ← Nat.add_assoc]
      refine (map_value_fit_succ positive ?_).symm
      rw [tenTo_add, ← Nat.mul_assoc]
      exact Dvd.dvd.mul_right exact _

/-- What is left of a number once it is rounded: it has the largest scale at which the mantissa is in range, a half
going to the even neighbour. There is nothing left of a number that is too large. -/
def rounded (x : ℚ) : Option ℚ :=
  (fit (decide (x < 0)) x.num.natAbs x.den 28).map value

theorem map_value_fit_eq_rounded {x : ℚ} (positive : 0 < den) (settled : 28 ≤ cap ∨ den ∣ num * tenTo cap)
    (size : |x| = num / den) (sign : negative = decide (x < 0)) :
    (fit negative num den cap).map value = rounded x := by
  have size' : |x| = x.num.natAbs / x.den := by
    nth_rewrite 1 [← x.num_div_den]
    rw [abs_div, Nat.abs_cast, ← Int.cast_abs, Int.abs_eq_natAbs, Int.cast_natCast]
  have same : num * x.den = x.num.natAbs * den := by
    have cross := size.symm.trans size'
    rw [div_eq_div_iff (Nat.cast_ne_zero.2 positive.ne') (Nat.cast_ne_zero.2 x.den_nz)] at cross
    exact_mod_cast cross
  rw [map_value_fit positive settled, rounded, sign, fit_congr _ 28 positive x.den_pos same]

/-- Decimals are not rounded. -/
theorem rounded_value (d : Decimal) : rounded d.value = some d.value := by
  rw [← map_value_fit_eq_rounded (tenTo_pos d.scale) (.inr (Dvd.intro_left _ rfl)) d.abs_value rfl]
  have same : roundHalfEven (d.mantissa * tenTo d.scale) (tenTo d.scale) = d.mantissa := by
    rw [roundHalfEven_of_dvd (tenTo_pos _) (Dvd.intro_left _ rfl), Nat.mul_div_cancel _ (tenTo_pos _)]
  have made := map_value_ofParts (decide (d.value < 0)) d.mantissa d.scale
  rw [if_pos ⟨d.mantissa_lt, d.scale_le⟩] at made
  obtain ⟨d', made', value_d'⟩ := Option.map_eq_some_iff.1 made
  rw [fit_of_ofParts (same ▸ made'), Option.map_some, value_d', ← abs_value, signed_decide_abs]

/-- A fraction with its sign. -/
theorem map_value_fit_signed (negative : Bool) (some : 0 < num) (positive : 0 < den)
    (settled : 28 ≤ cap ∨ den ∣ num * tenTo cap) :
    (fit negative num den cap).map value = rounded (signed negative (num / den)) := by
  have above : (0 : ℚ) < num / den := div_pos (Nat.cast_pos.2 some) (Nat.cast_pos.2 positive)
  exact map_value_fit_eq_rounded positive settled (abs_signed negative above) (decide_signed_neg above).symm

theorem fit_negative (made : fit negative num den cap = some d) : d.negative = (negative && d.mantissa != 0) := by
  have parts : ∀ {mantissa scale}, ofParts? negative mantissa scale = some d →
      d.negative = (negative && d.mantissa != 0) := by
    intro mantissa scale made
    rw [ofParts?] at made
    split at made <;> cases made
    rfl
  induction cap with
  | zero => exact parts made
  | succ cap ih =>
    rw [fit, Option.or_eq_some_iff] at made
    rcases made with first | ⟨-, later⟩
    · exact parts first
    · exact ih later

/-- What is left of a fraction may take the sign back that it lost with its digits. -/
theorem value_with_sign (made : fit negative num den cap = some d) : value { d with negative } = d.value := by
  rw [value_eq_signed, value_eq_signed, fit_negative made]
  by_cases zero : d.mantissa = 0
  · simp [signed, zero]
  · rw [bne_iff_ne.2 zero, Bool.and_true]

theorem map_value_bind {outcome : Option Decimal} {next : Decimal → Option Decimal}
    (keeps : ∀ d, outcome = some d → (next d).map value = some d.value) :
    (outcome.bind next).map value = outcome.map value := by
  cases outcome with
  | none => rfl
  | some d => exact keeps d rfl

theorem value_neg (d : Decimal) : d.neg.value = -d.value := by
  rw [value_eq_signed, value_eq_signed, neg]
  cases d.negative <;> simp [signed]

theorem num_mul_tenTo {scale : Nat} (small : d.scale ≤ scale) :
    (d.num : ℚ) * tenTo (scale - d.scale) = d.value * tenTo scale := by
  have split : tenTo scale = tenTo (scale - d.scale) * tenTo d.scale := by
    rw [← tenTo_add, Nat.sub_add_cancel small]
  have positive := tenTo_pos_rat d.scale
  rw [value, split, Nat.cast_mul]
  field_simp

/-- Sums are rounded once. -/
theorem value_add (a b : Decimal) : (a.add? b).map value = rounded (a.value + b.value) := by
  rw [add?]
  split
  · rename_i zero
    rw [value_of_isZero zero, zero_add, rounded_value]
    rfl
  · split
    · rename_i zero
      rw [value_of_isZero zero, add_zero, rounded_value]
      rfl
    · generalize scales : max a.scale b.scale = scale
      dsimp only
      generalize total : a.num * tenTo (scale - a.scale) + b.num * tenTo (scale - b.scale) = sum
      have positive := tenTo_pos_rat scale
      have sum_value : (sum : ℚ) = (a.value + b.value) * tenTo scale := by
        rw [← total, add_mul, ← num_mul_tenTo (by omega), ← num_mul_tenTo (by omega)]
        push_cast
        rfl
      refine map_value_fit_eq_rounded (tenTo_pos _) (.inr (Dvd.intro_left _ rfl)) ?_ ?_
      · rw [eq_div_iff positive.ne', Nat.cast_natAbs, Int.cast_abs, sum_value, abs_mul, abs_of_pos positive]
      · have below : sum < 0 ↔ a.value + b.value < 0 := by
          rw [← Int.cast_lt_zero (R := ℚ), sum_value]
          simp [mul_neg_iff, positive, positive.not_gt]
        simp only [below]

theorem value_sub (a b : Decimal) : (a.sub? b).map value = rounded (a.value - b.value) := by
  rw [sub?]
  split
  · rename_i zero
    rw [value_of_isZero zero, sub_zero, rounded_value]
    split
    · rename_i zero'
      rw [Option.map_some, value_of_isZero zero, value_of_isZero zero']
    · rfl
  · rw [value_add, value_neg, sub_eq_add_neg]

theorem value_zero : zero.value = 0 :=
  value_eq_zero_iff.2 rfl

theorem rounded_zero : rounded 0 = some 0 := by
  rw [← value_zero, rounded_value]

theorem mantissa_pos (some : ¬d.isZero = true) : 0 < d.mantissa :=
  Nat.pos_of_ne_zero fun zero => some (beq_iff_eq.2 zero)

/-- Products are rounded once. -/
theorem value_mul (a b : Decimal) : (a.mul? b).map value = rounded (a.value * b.value) := by
  rw [mul?]
  split
  · rename_i zero
    have product : a.value * b.value = 0 := by
      rw [mul_eq_zero, ← isZero_iff_value, ← isZero_iff_value]
      simpa using zero
    rw [product, rounded_zero, Option.map_some, value_zero]
  · rename_i nonzero
    simp only [Bool.or_eq_true, not_or] at nonzero
    have mantissas : 0 < a.mantissa * b.mantissa := Nat.mul_pos (mantissa_pos nonzero.1) (mantissa_pos nonzero.2)
    have product : a.value * b.value =
        signed (a.negative != b.negative) ((a.mantissa * b.mantissa : Nat) / tenTo (a.scale + b.scale)) := by
      rw [value_eq_signed a, value_eq_signed b, signed_mul, tenTo_add, div_mul_div_comm]
      push_cast
      rfl
    rw [product, ← map_value_fit_signed _ mantissas (tenTo_pos _) (.inr (Dvd.intro_left _ rfl))]
    refine map_value_bind fun d made => ?_
    split
    · rfl
    · exact congrArg some (value_with_sign made)

/-- The scale at which a division stops is the largest one, or the quotient comes out even there. -/
theorem evenScale_settled (m n scale scale' : Nat) (rounds more : Nat) :
    28 ≤ evenScale (m * tenTo more) n rounds (scale - scale' + more) ∨
      n * tenTo scale ∣
        m * tenTo scale' * tenTo (evenScale (m * tenTo more) n rounds (scale - scale' + more)) := by
  induction rounds generalizing more with
  | zero => exact .inl (Nat.le_refl 28)
  | succ rounds ih =>
    rw [evenScale]
    split
    · rename_i even
      by_cases large : 28 ≤ ((scale : Int) - scale' + more).toNat
      · exact .inl (Nat.le_min.2 ⟨Nat.le_refl 28, large⟩)
      · rw [Nat.min_eq_right (by omega)]
        right
        obtain ⟨rest, sum⟩ : ∃ rest, scale' + ((scale : Int) - scale' + more).toNat = more + (scale + rest) :=
          ⟨scale' + ((scale : Int) - scale' + more).toNat - more - scale, by omega⟩
        rw [Nat.mul_assoc, ← tenTo_add, sum, tenTo_add, tenTo_add, ← Nat.mul_assoc, ← Nat.mul_assoc]
        exact Dvd.dvd.mul_right (Nat.mul_dvd_mul_right (Nat.dvd_of_mod_eq_zero even) _) _
    · have later := ih (more + 9)
      rwa [tenTo_add, ← Nat.mul_assoc, Nat.cast_add, ← add_assoc] at later

theorem value_dropZeros (n : Nat) (d : Decimal) : (d.dropZeros n).value = d.value := by
  have back := mantissa_dropZeros n d
  have sign : (d.dropZeros n).negative = d.negative := by
    unfold dropZeros
    split <;> rfl
  have small : (d.dropZeros n).scale ≤ d.scale := by
    unfold dropZeros
    split
    · exact Nat.sub_le _ _
    · exact Nat.le_refl _
  refine value_eq_of_mantissa sign ?_
  rw [← back, Nat.mul_assoc, ← tenTo_add, Nat.sub_add_cancel small]

theorem value_dropEight (d : Decimal) : d.dropEight.value = d.value := by
  rw [dropEight]
  split
  · exact d.value_dropZeros 8
  · rfl

theorem value_dropGroups (d : Decimal) : d.dropGroups.value = d.value := by
  simp only [dropGroups, value_dropZeros, value_dropEight]

/-- Quotients are rounded once. -/
theorem value_div (a : Decimal) (nonzero : ¬b.isZero = true) :
    (a.div? b).map value = rounded (a.value / b.value) := by
  rw [div?]
  split
  · rename_i zero
    rw [value_of_isZero zero, zero_div, rounded_zero, Option.map_some, value_zero]
  · rename_i some
    have above : 0 < a.mantissa * tenTo b.scale := Nat.mul_pos (mantissa_pos some) (tenTo_pos _)
    have below : 0 < b.mantissa * tenTo a.scale := Nat.mul_pos (mantissa_pos nonzero) (tenTo_pos _)
    have settled := evenScale_settled a.mantissa b.mantissa a.scale b.scale 7 0
    have start : a.mantissa * tenTo 0 = a.mantissa := Nat.mul_one _
    rw [start, Nat.cast_zero, add_zero] at settled
    have quotient : a.value / b.value =
        signed (a.negative != b.negative)
          ((a.mantissa * tenTo b.scale : Nat) / (b.mantissa * tenTo a.scale : Nat)) := by
      rw [value_eq_signed a, value_eq_signed b, signed_div, div_div_div_eq, mul_comm (tenTo a.scale : ℚ)]
      push_cast
      rfl
    rw [quotient, ← map_value_fit_signed _ above below settled]
    refine map_value_bind fun d _ => ?_
    split
    · rfl
    · exact congrArg Option.some d.value_dropGroups

end TapeMachine.Decimal
