import Mathlib
import TapeMachine.Decimal.Basic

namespace TapeMachine

theorem tenTo_add (m n : Nat) : tenTo (m + n) = tenTo m * tenTo n :=
  Nat.pow_add 10 m n

namespace Decimal

variable {a b : Decimal}

/-- The number that a decimal stands for. -/
def value (d : Decimal) : ℚ :=
  d.num / tenTo d.scale

theorem tenTo_pos_rat (n : Nat) : (0 : ℚ) < tenTo n :=
  Nat.cast_pos.2 (tenTo_pos n)

theorem compare_eq_compare_value (a b : Decimal) : a.compare b = Ord.compare a.value b.value := by
  have scaled : ∀ c d : Decimal, c.num * tenTo d.scale < d.num * tenTo c.scale ↔ c.value < d.value := by
    intro c d
    rw [value, value, div_lt_div_iff₀ (tenTo_pos_rat _) (tenTo_pos_rat _)]
    exact_mod_cast Iff.rfl
  rcases lt_trichotomy a.value b.value with less | same | more
  · rw [compare_lt_iff_lt.2 less]
    exact compare_lt_iff_lt.2 ((scaled a b).2 less)
  · rw [compare_eq_iff_eq.2 same]
    have least := (scaled a b).not.2 same.not_lt
    have most := (scaled b a).not.2 same.not_gt
    exact compare_eq_iff_eq.2 (le_antisymm (not_lt.1 most) (not_lt.1 least))
  · rw [compare_gt_iff_gt.2 more]
    exact compare_gt_iff_gt.2 ((scaled b a).2 more)

theorem eqv_iff_value_eq : a.eqv b = true ↔ a.value = b.value := by
  rw [eqv, compare_eq_compare_value, beq_iff_eq, compare_eq_iff_eq]

theorem abs_value (d : Decimal) : |d.value| = d.mantissa / tenTo d.scale := by
  rw [value, abs_div, abs_of_pos (tenTo_pos_rat _), num]
  split <;> simp

theorem value_eq_zero_iff {d : Decimal} : d.value = 0 ↔ d.mantissa = 0 := by
  rw [← abs_eq_zero, abs_value, div_eq_zero_iff]
  have positive := tenTo_pos_rat d.scale
  simp [positive.ne']

theorem isZero_iff_value {d : Decimal} : d.isZero = true ↔ d.value = 0 := by
  rw [value_eq_zero_iff, isZero, beq_iff_eq]

theorem value_of_isZero {d : Decimal} (zero : d.isZero = true) : d.value = 0 :=
  isZero_iff_value.1 zero

/-- The values are the same up to the sign. -/
theorem mantissa_mul_of_abs_eq (same : |a.value| = |b.value|) :
    a.mantissa * tenTo b.scale = b.mantissa * tenTo a.scale := by
  rw [abs_value, abs_value, div_eq_div_iff (tenTo_pos_rat _).ne' (tenTo_pos_rat _).ne'] at same
  exact_mod_cast same

theorem negative_iff_value_neg {d : Decimal} (some : d.mantissa ≠ 0) : d.negative = true ↔ d.value < 0 := by
  have positive : (0 : ℚ) < d.mantissa := Nat.cast_pos.2 (Nat.pos_of_ne_zero some)
  rw [value, div_lt_iff₀ (tenTo_pos_rat _), zero_mul, num]
  split <;> rename_i sign
  · simp [sign, positive]
  · simp [sign]

theorem negative_of_value_eq (same : a.value = b.value) (some : a.mantissa ≠ 0) : a.negative = b.negative := by
  have some' : b.mantissa ≠ 0 := fun zero => some (value_eq_zero_iff.1 (same.trans (value_eq_zero_iff.2 zero)))
  rw [Bool.eq_iff_iff, negative_iff_value_neg some, negative_iff_value_neg some', same]

theorem value_eq_of_mantissa (sign : a.negative = b.negative)
    (same : a.mantissa * tenTo b.scale = b.mantissa * tenTo a.scale) : a.value = b.value := by
  have ratio : (a.mantissa : ℚ) / tenTo a.scale = b.mantissa / tenTo b.scale := by
    rw [div_eq_div_iff (tenTo_pos_rat _).ne' (tenTo_pos_rat _).ne']
    exact_mod_cast same
  rw [value, value, num, num, sign]
  split
  · push_cast
    rw [neg_div, neg_div, ratio]
  · push_cast
    exact ratio

/-- What is stripped are zeros: with them put back the mantissa is what it was. -/
theorem strip_fst_mul (mantissa scale : Nat) :
    (strip mantissa scale).1 * tenTo (scale - (strip mantissa scale).2) = mantissa := by
  induction scale generalizing mantissa with
  | zero => exact Nat.mul_one _
  | succ scale ih =>
    rw [strip]
    split
    · rename_i last
      have below := strip_snd_le (mantissa / 10) scale
      have more : scale + 1 - (strip (mantissa / 10) scale).2 = scale - (strip (mantissa / 10) scale).2 + 1 := by omega
      rw [more, tenTo_add, ← Nat.mul_assoc, ih]
      exact Nat.div_mul_cancel (Nat.dvd_of_mod_eq_zero last)
    · rw [Nat.sub_self]
      exact Nat.mul_one _

/-- None are left at the end. -/
theorem strip_last (mantissa scale : Nat) :
    (strip mantissa scale).2 = 0 ∨ (strip mantissa scale).1 % 10 ≠ 0 := by
  induction scale generalizing mantissa with
  | zero => exact .inl rfl
  | succ scale ih =>
    rw [strip]
    split
    · exact ih _
    · rename_i last
      exact .inr last

theorem value_stripZeros (d : Decimal) : d.stripZeros.value = d.value := by
  refine value_eq_of_mantissa rfl ?_
  have back := strip_fst_mul d.mantissa d.scale
  have below := strip_snd_le d.mantissa d.scale
  calc (strip d.mantissa d.scale).1 * tenTo d.scale
      = (strip d.mantissa d.scale).1 * tenTo (d.scale - (strip d.mantissa d.scale).2) *
          tenTo (strip d.mantissa d.scale).2 := by
        rw [Nat.mul_assoc, ← tenTo_add, Nat.sub_add_cancel below]
    _ = d.mantissa * tenTo (strip d.mantissa d.scale).2 := by rw [back]

theorem value_normalize (d : Decimal) : d.normalize.value = d.value := by
  rw [normalize]
  split
  · rename_i zero
    rw [value_of_isZero zero]
    exact value_eq_zero_iff.2 rfl
  · exact d.value_stripZeros

/-- No zeros at the end of the fraction, and no sign on zero. -/
structure Reduced (d : Decimal) : Prop where
  stripped : d.scale = 0 ∨ d.mantissa % 10 ≠ 0
  plain : d.mantissa = 0 → d.negative = false

theorem reduced_normalize (d : Decimal) : d.normalize.Reduced := by
  rw [normalize]
  split
  · exact ⟨.inl rfl, fun _ => rfl⟩
  · rename_i some
    refine ⟨strip_last _ _, fun zero => ?_⟩
    have gone : d.value = 0 := by rw [← d.value_stripZeros]; exact value_eq_zero_iff.2 zero
    exact absurd (isZero_iff_value.2 gone) some

/-- Where one scale is larger, the mantissa that goes with it ends in a zero. -/
theorem Reduced.scale_le_of_value_eq (reduced : b.Reduced) (same : a.value = b.value) : b.scale ≤ a.scale := by
  by_contra larger
  have cross := mantissa_mul_of_abs_eq (congrArg abs same)
  obtain ⟨more, scales⟩ : ∃ more, b.scale = a.scale + 1 + more := ⟨b.scale - (a.scale + 1), by omega⟩
  have mantissas : a.mantissa * tenTo more * 10 = b.mantissa := by
    refine Nat.eq_of_mul_eq_mul_right (tenTo_pos a.scale) ?_
    rw [← cross, scales, tenTo_add, tenTo_add]
    show _ = a.mantissa * (tenTo a.scale * 10 * tenTo more)
    ring
  rcases reduced.stripped with none | last
  · omega
  · exact last (by rw [← mantissas]; exact Nat.mul_mod_left _ _)

/-- Reduced decimals are told apart by their values. -/
theorem Reduced.eq_of_value_eq (first : a.Reduced) (second : b.Reduced) (same : a.value = b.value) : a = b := by
  have scales : a.scale = b.scale :=
    Nat.le_antisymm (first.scale_le_of_value_eq same.symm) (second.scale_le_of_value_eq same)
  have mantissas : a.mantissa = b.mantissa := by
    have cross := mantissa_mul_of_abs_eq (congrArg abs same)
    rw [scales] at cross
    exact Nat.eq_of_mul_eq_mul_right (tenTo_pos _) cross
  have signs : a.negative = b.negative := by
    by_cases zero : a.mantissa = 0
    · rw [first.plain zero, second.plain (mantissas ▸ zero)]
    · exact negative_of_value_eq same zero
  cases a
  cases b
  cases scales
  cases mantissas
  cases signs
  rfl

/-- The normal form stands for all decimals of a value. -/
theorem normalize_eq_iff_value_eq : a.normalize = b.normalize ↔ a.value = b.value := by
  constructor
  · intro same
    rw [← a.value_normalize, same, b.value_normalize]
  · intro same
    refine a.reduced_normalize.eq_of_value_eq b.reduced_normalize ?_
    rw [value_normalize, value_normalize, same]

end Decimal

end TapeMachine
