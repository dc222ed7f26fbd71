import TapeMachine.Decimal.Power
import TapeMachine.Proofs.Rounding

namespace TapeMachine.Decimal

variable {a b c d base base' : Decimal}

theorem value_eq_signed_abs (d : Decimal) : d.value = signed d.negative |d.value| := by
  rw [abs_value, ← value_eq_signed]

theorem isZero_congr (same : a.value = b.value) : a.isZero = b.isZero := by
  rw [Bool.eq_iff_iff, isZero_iff_value, isZero_iff_value, same]

/-- The comparison of two numbers looks at their values. -/
theorem compare_congr (first : a.value = c.value) (second : b.value = d.value) : a.compare b = c.compare d := by
  rw [compare_eq_compare_value, compare_eq_compare_value, first, second]

section Integers

theorem mantissa_trunc (d : Decimal) : d.trunc.mantissa = ⌊|d.value|⌋₊ := by
  rw [abs_value, Nat.floor_div_eq_div]
  rfl

/-- The quotient rounded up is the least natural number that is at least the fraction. -/
theorem ceilDiv_eq_ceil (m : Nat) {n : Nat} (positive : 0 < n) : ceilDiv m n = ⌈(m : ℚ) / n⌉₊ := by
  refine eq_of_forall_ge_iff fun k => ?_
  rw [Nat.ceil_le, div_le_iff₀ (Nat.cast_pos.2 positive), ceilDiv, Nat.div_le_iff_le_mul positive, ← Nat.cast_mul,
    Nat.cast_le]
  omega

theorem mantissa_expand (d : Decimal) : d.expand.mantissa = ⌈|d.value|⌉₊ := by
  rw [abs_value]
  exact ceilDiv_eq_ceil d.mantissa (tenTo_pos d.scale)

theorem value_of_integer (integer : d.scale = 0) : d.value = signed d.negative d.mantissa := by
  have one : (tenTo 0 : ℚ) = 1 := Nat.cast_one
  rw [value_eq_signed, integer, one, div_one]

theorem value_ofNat {n : Nat} (small : n < mantissaLimit) : (ofNat n).value = n := by
  have same : (ofNat n).mantissa = n := Nat.min_eq_left (by omega)
  have integer : (ofNat n).value = signed false (ofNat n).mantissa := value_of_integer rfl
  rw [integer, same]
  rfl

/-- Natural numbers that are in range are not rounded. -/
theorem rounded_natCast {n : Nat} (small : n < mantissaLimit) : rounded n = some (n : ℚ) := by
  rw [← value_ofNat small, rounded_value]

/-- A natural number is in range. -/
theorem natural_lt {n : Nat} (natural : d.value = n) : n < mantissaLimit := by
  have size := d.abs_value
  rw [natural, Nat.abs_cast, eq_div_iff (tenTo_pos_rat d.scale).ne', ← Nat.cast_mul, Nat.cast_inj] at size
  have grows : n * 1 ≤ n * tenTo d.scale := Nat.mul_le_mul_left _ (tenTo_pos d.scale)
  have bound := d.mantissa_lt
  omega

theorem value_trunc (d : Decimal) : d.trunc.value = signed d.negative ⌊|d.value|⌋ := by
  have integer : d.trunc.value = signed d.trunc.negative d.trunc.mantissa := value_of_integer rfl
  rw [integer, mantissa_trunc, natCast_floor_eq_intCast_floor (abs_nonneg _)]
  rfl

theorem value_expand (d : Decimal) : d.expand.value = signed d.negative ⌈|d.value|⌉ := by
  have integer : d.expand.value = signed d.expand.negative d.expand.mantissa := value_of_integer rfl
  rw [integer, mantissa_expand, natCast_ceil_eq_intCast_ceil (abs_nonneg _)]
  rfl

/-- The floor of a number is the greatest integer that is not above it: for negative numbers that is the magnitude
rounded up. -/
theorem value_floor (d : Decimal) : d.floor.value = ⌊d.value⌋ := by
  rw [d.value_eq_signed_abs, floor]
  cases sign : d.negative with
  | true => simp [value_expand, sign, signed, Int.floor_neg]
  | false => simp [value_trunc, sign, signed]

/-- The ceiling is the least integer that is not below it. -/
theorem value_ceil (d : Decimal) : d.ceil.value = ⌈d.value⌉ := by
  rw [d.value_eq_signed_abs, ceil]
  cases sign : d.negative with
  | true => simp [value_trunc, sign, signed, Int.ceil_neg]
  | false => simp [value_expand, sign, signed]

theorem mantissa_roundTo (d : Decimal) : (d.roundTo 0).mantissa = ⌊|d.value| + 1 / 2⌋₊ := by
  have half : |d.value| + 1 / 2 = ((2 * d.mantissa + tenTo d.scale : Nat) : ℚ) / (2 * tenTo d.scale : Nat) := by
    have positive := tenTo_pos_rat d.scale
    rw [abs_value]
    push_cast
    field_simp
  rw [half, Nat.floor_div_eq_div, roundTo]
  split
  · rfl
  · rename_i integer
    have none : d.scale = 0 := by omega
    have one : tenTo 0 = 1 := rfl
    rw [none, one]
    omega

theorem scale_round (d : Decimal) : d.round.scale = 0 := by
  have integer : (d.roundTo 0).scale = 0 := by
    rw [roundTo]
    split
    · rfl
    · omega
  rw [round]
  split
  · rfl
  · exact integer

/-- Rounding goes to the nearest integer, and halves away from zero. -/
theorem value_round (d : Decimal) : d.round.value = signed (decide (d.value < 0)) ⌊|d.value| + 1 / 2⌋₊ := by
  rw [value_of_integer d.scale_round, ← mantissa_roundTo]
  by_cases vanishes : (d.roundTo 0).mantissa = 0
  · have none : d.round.mantissa = 0 := by
      rw [round]
      split
      · rfl
      · exact vanishes
    rw [none, vanishes]
    simp [signed]
  · have same : d.round = d.roundTo 0 := by
      rw [round]
      simp [isZero, vanishes]
    have some : d.mantissa ≠ 0 := by
      intro zero
      rw [mantissa_roundTo, value_eq_zero_iff.2 zero] at vanishes
      norm_num at vanishes
    have sign : (d.roundTo 0).negative = d.negative := by
      rw [roundTo]
      split <;> rfl
    have sign' : d.negative = decide (d.value < 0) := by
      rw [Bool.eq_iff_iff, decide_eq_true_iff, negative_iff_value_neg some]
    rw [same, sign, sign']

/-- Only integers have no part after the point. -/
theorem hasFraction_eq_false_iff : d.hasFraction = false ↔ ∃ n : Nat, |d.value| = n := by
  have positive := tenTo_pos d.scale
  rw [hasFraction, bne_eq_false_iff_eq, ← Nat.dvd_iff_mod_eq_zero, abs_value]
  constructor
  · rintro ⟨n, multiple⟩
    exact ⟨n, by rw [multiple, Nat.cast_mul, mul_div_cancel_left₀ _ (Nat.cast_ne_zero.2 positive.ne')]⟩
  · rintro ⟨n, same⟩
    rw [div_eq_iff (Nat.cast_ne_zero.2 positive.ne')] at same
    exact ⟨n, by rw [Nat.mul_comm]; exact_mod_cast same⟩

theorem hasFraction_congr (same : a.value = b.value) : a.hasFraction = b.hasFraction := by
  rw [← Bool.not_inj_iff, Bool.eq_iff_iff, Bool.not_eq_true', Bool.not_eq_true', hasFraction_eq_false_iff,
    hasFraction_eq_false_iff, same]

end Integers

section Roots

/-- Equal numbers without a minus sign. Of zero there are two otherwise, between which a division by it would tell. -/
structure Twins (a b : Decimal) : Prop where
  same : a.value = b.value
  first : a.negative = false
  second : b.negative = false

/-- Results that agree in value and are not negative are twins, where there are results. -/
theorem rel_twins {x y : Option Decimal} (same : x.map value = y.map value)
    (first : ∀ d, x = some d → d.negative = false) (second : ∀ d, y = some d → d.negative = false) :
    Option.Rel Twins x y := by
  cases x with
  | none =>
    cases y with
    | none => exact .none
    | some => cases same
  | some d =>
    cases y with
    | none => cases same
    | some d' => exact .some ⟨Option.some.inj same, first d rfl, second d' rfl⟩

theorem rel_bind {R : Decimal → Decimal → Prop} {x y : Option Decimal} {f g : Decimal → Option Decimal}
    (related : Option.Rel R x y) (later : ∀ d d', R d d' → Option.Rel R (f d) (g d')) :
    Option.Rel R (x.bind f) (y.bind g) := by
  cases related with
  | none => exact .none
  | some same => exact later _ _ same

theorem num_nonneg (plain : d.negative = false) : 0 ≤ d.num := by
  rw [num, plain]
  exact Int.natCast_nonneg _

theorem negative_add (first : a.negative = false) (second : b.negative = false) (made : a.add? b = some d) :
    d.negative = false := by
  rw [add?] at made
  split at made
  · cases made
    exact second
  · split at made
    · cases made
      exact first
    · rw [fit_negative made, decide_eq_false, Bool.false_and]
      have above := num_nonneg first
      have above' := num_nonneg second
      rw [Int.not_lt]
      positivity

theorem negative_dropZeros (n : Nat) (d : Decimal) : (d.dropZeros n).negative = d.negative := by
  rw [dropZeros]
  split <;> rfl

theorem negative_dropEight (d : Decimal) : d.dropEight.negative = d.negative := by
  rw [dropEight]
  split
  · exact d.negative_dropZeros 8
  · rfl

theorem negative_dropGroups (d : Decimal) : d.dropGroups.negative = d.negative := by
  simp only [dropGroups, negative_dropZeros, negative_dropEight]

/-- A quotient of numbers without a sign has none. -/
theorem negative_div (first : a.negative = false) (second : b.negative = false) (made : a.div? b = some d) :
    d.negative = false := by
  rw [div?, first, second] at made
  split at made
  · cases made
    rfl
  · obtain ⟨quotient, found, rest⟩ := Option.bind_eq_some_iff.1 made
    have plain : quotient.negative = false := fit_negative found
    split at rest <;> cases rest
    · exact plain
    · rw [negative_dropGroups, plain]

theorem evenScale_zero {m : Nat} (some : m ≠ 0) (rounds : Nat) (scale : Int) : evenScale m 0 rounds scale = 28 := by
  induction rounds generalizing m scale with
  | zero => rfl
  | succ rounds ih =>
    rw [evenScale, Nat.mod_zero, if_neg some]
    exact ih (Nat.mul_ne_zero some (tenTo_pos 9).ne') _

theorem fit_zero {num : Nat} (some : num ≠ 0) (negative : Bool) (cap : Nat) :
    fit negative num 0 cap = fit negative 1 0 cap := by
  have one : ∀ n, n ≠ 0 → roundHalfEven n 0 = 1 := by
    intro n some
    simp [roundHalfEven, Nat.pos_of_ne_zero some]
  induction cap with
  | zero => rw [fit, fit, one num some, one 1 (by omega)]
  | succ cap ih =>
    have positive := tenTo_pos (cap + 1)
    rw [fit, fit, ih, one _ (Nat.mul_ne_zero some positive.ne'), one _ (Nat.mul_ne_zero (by omega) positive.ne')]

/-- A division by zero, which no word gets to, would look at nothing but the signs. -/
theorem div_of_isZero (some : ¬a.isZero = true) (zero : b.isZero = true) :
    a.div? b = (fit (a.negative != b.negative) 1 0 28).map dropGroups := by
  have none : b.mantissa = 0 := beq_iff_eq.1 zero
  have mantissa := (mantissa_pos some).ne'
  have above : a.mantissa * tenTo b.scale ≠ 0 := Nat.mul_ne_zero mantissa (tenTo_pos _).ne'
  simp only [div?, if_neg some, none, Nat.zero_mul, evenScale_zero mantissa, fit_zero above, Nat.mod_zero,
    if_neg mantissa]
  rfl

theorem Twins.add (left : Twins a b) (right : Twins c d) : Option.Rel Twins (a.add? c) (b.add? d) := by
  refine rel_twins ?_ (fun _ => negative_add left.first right.first) (fun _ => negative_add left.second right.second)
  rw [value_add, value_add, left.same, right.same]

theorem Twins.div (left : Twins a b) (right : Twins c d) : Option.Rel Twins (a.div? c) (b.div? d) := by
  refine rel_twins ?_ (fun _ => negative_div left.first right.first) (fun _ => negative_div left.second right.second)
  by_cases zero : c.isZero = true
  · have zero' : d.isZero = true := isZero_congr right.same ▸ zero
    by_cases none : a.isZero = true
    · rw [div?, div?, if_pos none, if_pos (isZero_congr left.same ▸ none)]
    · rw [div_of_isZero none zero, div_of_isZero (isZero_congr left.same ▸ none) zero', left.first, left.second,
        right.first, right.second]
  · have nonzero : ¬d.isZero = true := isZero_congr right.same ▸ zero
    rw [value_div a zero, value_div b nonzero, left.same, right.same]

/-- Newton's steps for two twins stay twins, as the loop adds and divides only and stops by a comparison. -/
theorem Twins.sqrtLoop {last last' root root' : Decimal} (twins : Twins a b) (lasts : last.value = last'.value)
    (roots : Twins root root') (steps : Nat) :
    Option.Rel Twins (sqrtLoop a steps last root) (sqrtLoop b steps last' root') := by
  induction steps generalizing last last' root root' with
  | zero => exact .some roots
  | succ steps ih =>
    rw [Decimal.sqrtLoop, Decimal.sqrtLoop, eqv, eqv, compare_congr lasts roots.same]
    split
    · exact .some roots
    · refine rel_bind (twins.div roots) fun quotient quotient' quotients => ?_
      refine rel_bind (roots.add quotients) fun sum sum' sums => ?_
      exact rel_bind (sums.div ⟨rfl, rfl, rfl⟩) fun next next' nexts => ih roots.same nexts

theorem map_value_of_rel {x y : Option Decimal} (related : Option.Rel Twins x y) : x.map value = y.map value := by
  cases related with
  | none => rfl
  | some twins => exact congrArg some twins.same

/-- Equal numbers have equal roots, if they are not zeros with different signs. -/
theorem sqrt_congr (same : a.value = b.value) (signs : a.isZero = true → a.negative = b.negative) :
    (a.sqrt?).map value = (b.sqrt?).map value := by
  have sign : a.negative = b.negative := by
    by_cases zero : a.isZero = true
    · exact signs zero
    · exact negative_of_value_eq same (mantissa_pos zero).ne'
  rw [sqrt?, sqrt?, ← sign, ← isZero_congr same]
  split
  · rfl
  · rename_i plain
    have first : a.negative = false := Bool.eq_false_iff.2 plain
    have twins : Twins a b := ⟨same, first, sign ▸ first⟩
    split
    · rfl
    · refine map_value_of_rel (rel_bind (twins.div ⟨rfl, rfl, rfl⟩) fun half half' halves => ?_)
      have starts : Twins (if half.isZero then a else half) (if half'.isZero then b else half') := by
        rw [isZero_congr halves.same]
        split
        · exact twins
        · exact halves
      exact rel_bind (starts.add ⟨rfl, rfl, rfl⟩) fun last last' lasts => twins.sqrtLoop lasts.same starts 1000

end Roots

section Powers

/-- A sequence of operations is congruent where its parts are. -/
theorem map_value_bind_congr {x y : Option Decimal} {f g : Decimal → Option Decimal} (same : x.map value = y.map value)
    (later : ∀ d d', d.value = d'.value → (f d).map value = (g d').map value) :
    (x.bind f).map value = (y.bind g).map value := by
  cases x with
  | none =>
    cases y with
    | none => rfl
    | some => cases same
  | some d =>
    cases y with
    | none => cases same
    | some d' => exact later d d' (Option.some.inj same)

theorem mul_congr (first : a.value = c.value) (second : b.value = d.value) :
    (a.mul? b).map value = (c.mul? d).map value := by
  rw [value_mul, value_mul, first, second]

/-- Repeated squaring multiplies only, and products agree where their factors do. -/
theorem powerLoop_congr (width exponent : Nat) {product product' power power' : Decimal}
    (products : product.value = product'.value) (powers : power.value = power'.value) :
    (powerLoop width exponent product power).map value = (powerLoop width exponent product' power').map value := by
  induction width generalizing exponent product product' power power' with
  | zero =>
    rw [powerLoop, powerLoop]
    split
    · exact mul_congr products powers
    · exact congrArg some products
  | succ width ih =>
    have rest (product product' : Decimal) (products : product.value = product'.value) :
        (if exponent / 2 = 0 then some product
          else (power.mul? power).bind (powerLoop width (exponent / 2) product)).map value =
        (if exponent / 2 = 0 then some product'
          else (power'.mul? power').bind (powerLoop width (exponent / 2) product')).map value := by
      split
      · exact congrArg some products
      · exact map_value_bind_congr (mul_congr powers powers) fun square square' squares => ih _ products squares
    rw [powerLoop, powerLoop]
    split
    · exact map_value_bind_congr (mul_congr products powers) rest
    · exact rest product product' products

theorem rawPower_congr (same : base.value = base'.value) (some : ¬base.isZero = true) (exponent : Nat) :
    (rawPower? base exponent).map value = (rawPower? base' exponent).map value := by
  rw [rawPower?, rawPower?]
  split
  · exact powerLoop_congr _ _ rfl same
  · rw [normalize_eq_iff_value_eq.2 same, negative_of_value_eq same (mantissa_pos some).ne']

theorem map_value_normalize (x : Option Decimal) : (x.map normalize).map value = x.map value := by
  rw [Option.map_map]
  exact congrArg (Option.map · x) (funext value_normalize)

theorem powNat_congr (same : base.value = base'.value) (some : ¬base.isZero = true) (exponent : Nat) :
    (powNat? base exponent).map value = (powNat? base' exponent).map value := by
  rw [powNat?, powNat?]
  split
  · exact rawPower_congr same some exponent
  · rw [map_value_normalize, map_value_normalize]
    exact rawPower_congr same some exponent

/-- Zeros at the end of a numeral are digits. -/
theorem length_toDigits_mul_tenTo {n : Nat} (positive : 0 < n) (more : Nat) :
    (Nat.toDigits 10 (n * tenTo more)).length = (Nat.toDigits 10 n).length + more := by
  induction more with
  | zero =>
    have one : n * tenTo 0 = n := Nat.mul_one n
    rw [one]
    rfl
  | succ more ih =>
    have next : n * tenTo (more + 1) = 10 * (n * tenTo more) + 0 := by
      have ten : tenTo 1 = 10 := rfl
      rw [tenTo_add, ten]
      ring
    rw [next, ← Nat.toDigits_append_toDigits (by omega) (Nat.mul_pos positive (tenTo_pos _)) (by omega),
      List.length_append, ih, Nat.toDigits_zero]
    rfl

/-- Of two equal numbers the one with the larger scale has as many more zeros at its end. -/
theorem mantissa_eq_mul (same : a.value = b.value) (small : a.scale ≤ b.scale) :
    b.mantissa = a.mantissa * tenTo (b.scale - a.scale) := by
  refine Nat.eq_of_mul_eq_mul_right (tenTo_pos a.scale) ?_
  rw [← mantissa_mul_of_abs_eq (congrArg abs same), Nat.mul_assoc, ← tenTo_add, Nat.sub_add_cancel small]

/-- The logarithm starts from the digits of the mantissa and from their number; the zeros by which two equal numbers
differ move the point and nothing else. -/
theorem log_congr_of_le (same : a.value = b.value) (some : ¬a.isZero = true) (small : a.scale ≤ b.scale) :
    Logarithm.ofDecimal a = Logarithm.ofDecimal b := by
  have mantissa := mantissa_eq_mul same small
  have digits := length_toDigits_mul_tenTo (mantissa_pos some) (b.scale - a.scale)
  rw [← mantissa] at digits
  have short : (Nat.toDigits 10 b.mantissa).length ≤ 29 := by
    rw [Nat.length_toDigits_le_iff (by omega) (by omega)]
    exact Nat.lt_of_lt_of_le b.mantissa_lt (by rw [mantissaLimit]; norm_num)
  have room : b.scale - a.scale + (29 - (Nat.toDigits 10 b.mantissa).length) =
      29 - (Nat.toDigits 10 a.mantissa).length := by omega
  have decades : ((Nat.toDigits 10 a.mantissa).length : Int) - 1 - a.scale =
      (Nat.toDigits 10 b.mantissa).length - 1 - b.scale := by omega
  have leading : (a.mantissa * tenTo (29 - (Nat.toDigits 10 a.mantissa).length) : Int) =
      b.mantissa * tenTo (29 - (Nat.toDigits 10 b.mantissa).length) := by
    rw [← room, tenTo_add]
    nth_rewrite 2 [mantissa]
    push_cast
    ring
  rw [Logarithm.ofDecimal, Logarithm.ofDecimal, decades, leading]

theorem log_congr (same : a.value = b.value) (some : ¬a.isZero = true) :
    Logarithm.ofDecimal a = Logarithm.ofDecimal b := by
  rcases Nat.le_total a.scale b.scale with small | large
  · exact log_congr_of_le same some small
  · exact (log_congr_of_le same.symm (isZero_congr same ▸ some) large).symm

theorem ediv_congr {m n m' n' : Int} (positive : 0 < n) (positive' : 0 < n') (same : m * n' = m' * n) :
    m / n = m' / n' := by
  rw [← Int.mul_ediv_mul_of_pos_left m n positive', same, Int.mul_comm n, Int.mul_ediv_mul_of_pos_left m' n' positive]

theorem num_mul_of_value_eq (same : a.value = b.value) : a.num * tenTo b.scale = b.num * tenTo a.scale := by
  rw [value, value, div_eq_div_iff (tenTo_pos_rat _).ne' (tenTo_pos_rat _).ne'] at same
  exact_mod_cast same

/-- A fractional power is rounded from the logarithm of the base and the exponent as a fraction, and neither looks at
the scale. -/
theorem powFraction_congr {exponent exponent' : Decimal} (same : base.value = base'.value)
    (some : ¬base.isZero = true) (exponents : exponent.value = exponent'.value) :
    powFraction? base exponent = powFraction? base' exponent' := by
  have unit : (0 : Int) < Logarithm.unit := Int.natCast_pos.2 (tenTo_pos 28)
  have positive (scale : Nat) : 0 < Logarithm.unit * tenTo scale :=
    Int.mul_pos unit (Int.natCast_pos.2 (tenTo_pos scale))
  have x (log more : Int) : exponent.num * log * more / (Logarithm.unit * tenTo exponent.scale) =
      exponent'.num * log * more / (Logarithm.unit * tenTo exponent'.scale) := by
    refine ediv_congr (positive _) (positive _) ?_
    linear_combination log * more * Logarithm.unit * num_mul_of_value_eq exponents
  simp only [powFraction?, log_congr same some, negative_of_value_eq same (mantissa_pos some).ne', x]

/-- Equal numbers have equal powers. -/
theorem pow_congr {exponent exponent' : Decimal} (same : base.value = base'.value)
    (exponents : exponent.value = exponent'.value) :
    (base.pow? exponent).map value = (base'.pow? exponent').map value := by
  rw [pow?, pow?, ← isZero_congr exponents, ← isZero_congr same, eqv, eqv, eqv, eqv, ← compare_congr same rfl,
    ← compare_congr exponents rfl, ← hasFraction_congr exponents, mantissa_trunc, mantissa_trunc, ← exponents]
  split
  · rfl
  · rename_i moved
    split
    · rfl
    · rename_i some
      split
      · rfl
      · split
        · exact congrArg Option.some same
        · split
          · rw [powFraction_congr same some exponents]
          · dsimp only
            split
            · rfl
            · refine map_value_bind_congr (powNat_congr same some _) fun power power' powers => ?_
              rw [← negative_of_value_eq exponents (mantissa_pos moved).ne', ← isZero_congr powers]
              split
              · exact congrArg Option.some powers
              · split
                · rfl
                · rename_i nonzero
                  rw [value_div one nonzero, value_div one (isZero_congr powers ▸ nonzero), powers]

end Powers

end TapeMachine.Decimal
