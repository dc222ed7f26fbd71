import TapeMachine.Proofs.Congruence
import TapeMachine.Proofs.Operands
import TapeMachine.Proofs.Passage

namespace TapeMachine

namespace Decimal

variable {num den cap m n : Nat} {negative : Bool} {d : Decimal}

theorem le_roundHalfEven (num den : Nat) : num / den ≤ roundHalfEven num den := by
  unfold roundHalfEven
  dsimp only
  split
  · exact Nat.le_refl _
  · split
    · exact Nat.le_succ _
    · exact Nat.le_add_right _ _

/-- It is rounded up by one at most, and only if at least half of it is left. -/
theorem roundHalfEven_cases (num den : Nat) :
    roundHalfEven num den = num / den ∨ roundHalfEven num den = num / den + 1 ∧ den ≤ 2 * (num % den) := by
  unfold roundHalfEven
  dsimp only
  split
  · exact .inl rfl
  · rename_i half
    split
    · exact .inr ⟨rfl, by omega⟩
    · rcases Nat.mod_two_eq_zero_or_one (num / den) with even | odd
      · exact .inl (by omega)
      · exact .inr ⟨by omega, by omega⟩

theorem roundHalfEven_le_self (positive : 0 < den) (num : Nat) : roundHalfEven num den ≤ num := by
  have whole := Nat.div_add_mod num den
  have least : num / den ≤ den * (num / den) := Nat.le_mul_of_pos_left _ positive
  rcases roundHalfEven_cases num den with same | ⟨more, half⟩
  · omega
  · omega

/-- A fraction is rounded at some scale, and at the next one it would be out of range. -/
theorem fit_eq_some (made : fit negative num den cap = some d) :
    ∃ scale ≤ cap, ofParts? negative (roundHalfEven (num * tenTo scale) den) scale = some d ∧
      (scale < cap → ofParts? negative (roundHalfEven (num * tenTo (scale + 1)) den) (scale + 1) = none) := by
  induction cap with
  | zero => exact ⟨0, Nat.le_refl 0, by rwa [show num * tenTo 0 = num from Nat.mul_one num], nofun⟩
  | succ cap ih =>
    rw [fit, Option.or_eq_some_iff] at made
    rcases made with first | ⟨out, later⟩
    · exact ⟨cap + 1, Nat.le_refl _, first, fun less => (Nat.lt_irrefl _ less).elim⟩
    · obtain ⟨scale, le, here, next⟩ := ih later
      refine ⟨scale, Nat.le_succ_of_le le, here, fun less => ?_⟩
      rcases Nat.lt_succ_iff_lt_or_eq.1 less with below | rfl
      · exact next below
      · exact out

theorem exists_fit (small : roundHalfEven num den < mantissaLimit) : ∃ d, fit negative num den cap = some d := by
  induction cap with
  | zero => exact ⟨_, dif_pos ⟨small, by omega⟩⟩
  | succ cap ih =>
    rw [fit]
    cases ofParts? negative (roundHalfEven (num * tenTo (cap + 1)) den) (cap + 1) with
    | none => exact ih
    | some d => exact ⟨d, rfl⟩

/-- A quotient of natural numbers has a mantissa at some scale, and at the next one it would be too large. -/
theorem rounded_div (positive : 0 < n) (small : m < mantissaLimit) :
    ∃ scale ≤ 28, rounded (m / n) = some ((roundHalfEven (m * tenTo scale) n : ℚ) / tenTo scale) ∧
      (scale < 28 → mantissaLimit ≤ roundHalfEven (m * tenTo (scale + 1)) n) := by
  have nonneg : (0 : ℚ) ≤ m / n := div_nonneg (Nat.cast_nonneg m) (Nat.cast_nonneg n)
  have same : (fit false m n 28).map value = rounded (m / n) :=
    map_value_fit_eq_rounded positive (.inl (Nat.le_refl 28)) (abs_of_nonneg nonneg) (by simp [nonneg])
  obtain ⟨d, made⟩ := @exists_fit m n 28 false (Nat.lt_of_le_of_lt (roundHalfEven_le_self positive m) small)
  obtain ⟨scale, le, here, next⟩ := fit_eq_some made
  have parts := map_value_ofParts false (roundHalfEven (m * tenTo scale) n) scale
  rw [here] at parts
  refine ⟨scale, le, ?_, fun less => ?_⟩
  · rw [← same, made, parts]
    split at parts
    · rw [if_pos (by assumption)]
      rfl
    · cases parts
  · have out := map_value_ofParts false (roundHalfEven (m * tenTo (scale + 1)) n) (scale + 1)
    rw [next less] at out
    by_contra inside
    rw [if_pos ⟨by omega, by omega⟩] at out
    cases out

/-- The quotient is so close to the next integer that it is rounded to it. -/
def RoundsUp (m n : Nat) : Prop :=
  rounded (m / n) = some ((m / n + 1 : Nat) : ℚ)

/-- A rounded quotient lies between the integers around the quotient. -/
theorem rounded_div_between (positive : 0 < n) (small : m < mantissaLimit) :
    ∃ q, rounded (m / n) = some q ∧ (m / n : Nat) ≤ q ∧ q ≤ (m / n + 1 : Nat) := by
  obtain ⟨scale, -, same, -⟩ := rounded_div positive small
  have unit := tenTo_pos_rat scale
  refine ⟨_, same, ?_, ?_⟩
  · rw [le_div_iff₀ unit]
    have least : m / n * tenTo scale ≤ roundHalfEven (m * tenTo scale) n := by
      refine Nat.le_trans ?_ (le_roundHalfEven ..)
      rw [Nat.le_div_iff_mul_le positive, Nat.mul_right_comm]
      exact Nat.mul_le_mul_right _ (Nat.div_mul_le_self m n)
    exact_mod_cast least
  · rw [div_le_iff₀ unit]
    have most : roundHalfEven (m * tenTo scale) n ≤ (m / n + 1) * tenTo scale := by
      have below : m * tenTo scale / n < (m / n + 1) * tenTo scale := by
        rw [Nat.div_lt_iff_lt_mul positive, Nat.mul_right_comm]
        exact Nat.mul_lt_mul_of_pos_right (Nat.lt_mul_of_div_lt (Nat.lt_succ_self _) positive) (tenTo_pos scale)
      rcases roundHalfEven_cases (m * tenTo scale) n with same | ⟨same, -⟩
      · omega
      · omega
    exact_mod_cast most

/-- What is left of a quotient's fraction, if anything, is cut off. -/
theorem floor_rounded_div (positive : 0 < n) (small : m < mantissaLimit) :
    ∃ q, rounded (m / n) = some q ∧ (RoundsUp m n ∧ ⌊q⌋ = (m / n + 1 : Nat) ∨ ¬RoundsUp m n ∧ ⌊q⌋ = (m / n : Nat)) := by
  obtain ⟨q, same, least, most⟩ := rounded_div_between positive small
  refine ⟨q, same, ?_⟩
  rcases most.lt_or_eq with below | rfl
  · refine .inr ⟨fun up => ?_, ?_⟩
    · have reached : q = (m / n + 1 : Nat) := Option.some.inj (same.symm.trans up)
      exact below.ne reached
    · refine Int.floor_eq_iff.2 ⟨by exact_mod_cast least, ?_⟩
      exact_mod_cast below
  · exact .inl ⟨same, Int.floor_natCast _⟩

/-- What is rounded to the next integer is at most half a unit of the last place away from it. -/
theorem close_of_roundHalfEven (positive : 0 < n) {scale : Nat}
    (reached : roundHalfEven (m * tenTo scale) n = (m / n + 1) * tenTo scale) :
    2 * (tenTo scale * (n - m % n)) ≤ n := by
  have rest := Nat.mod_lt m positive
  have whole := Nat.div_add_mod m n
  have whole' := Nat.div_add_mod (m * tenTo scale) n
  have next : n * ((m / n + 1) * tenTo scale) = m * tenTo scale + tenTo scale * (n - m % n) := by
    have sum : n * (m / n + 1) = m + (n - m % n) := by
      rw [Nat.mul_succ]
      omega
    rw [← Nat.mul_assoc, sum, Nat.add_mul, Nat.mul_comm (n - m % n)]
  rcases roundHalfEven_cases (m * tenTo scale) n with same | ⟨same, half⟩
  · rw [← reached, same] at next
    have some : 0 < tenTo scale * (n - m % n) := Nat.mul_pos (tenTo_pos scale) (by omega)
    omega
  · rw [← reached, same, Nat.mul_succ] at next
    omega

/-- Below 10 to the 28 no quotient is that close to the next integer. -/
theorem not_roundsUp (positive : 0 < n) (small : m < tenTo 28) : ¬RoundsUp m n := by
  intro up
  have limits : 5 * tenTo 28 < mantissaLimit - 1 := by decide
  obtain ⟨scale, le, same, next⟩ := rounded_div positive (show m < mantissaLimit by omega)
  have reached : roundHalfEven (m * tenTo scale) n = (m / n + 1) * tenTo scale := by
    have ratio := Option.some.inj (same.symm.trans up)
    rw [div_eq_iff (tenTo_pos_rat scale).ne'] at ratio
    exact_mod_cast ratio
  have close := close_of_roundHalfEven positive reached
  have rest := Nat.mod_lt m positive
  rcases le.lt_or_eq with finer | rfl
  · -- One more place would have been in range.
    have least : tenTo scale * 1 ≤ tenTo scale * (n - m % n) := Nat.mul_le_mul_left _ (by omega)
    have large : (mantissaLimit - 1) * n ≤ m * tenTo (scale + 1) := by
      rw [← Nat.le_div_iff_mul_le positive]
      have out := next finer
      rcases roundHalfEven_cases (m * tenTo (scale + 1)) n with same | ⟨same, -⟩
      · omega
      · omega
    have ten : m * tenTo (scale + 1) = 10 * m * tenTo scale := by
      rw [tenTo_add, Nat.mul_comm (tenTo scale), ← Nat.mul_assoc, Nat.mul_comm m]
      rfl
    have double : (mantissaLimit - 1) * (2 * tenTo scale) ≤ 10 * m * tenTo scale :=
      (Nat.mul_le_mul_left _ (by omega)).trans (ten ▸ large)
    rw [← Nat.mul_assoc] at double
    have most := Nat.le_of_mul_le_mul_right double (tenTo_pos scale)
    omega
  · -- The divisor would be more than twice the number divided, and so far away as well.
    have least : tenTo 28 * 1 ≤ tenTo 28 * (n - m % n) := Nat.mul_le_mul_left _ (by omega)
    have large : 2 * tenTo 28 ≤ n := by omega
    rw [Nat.mod_eq_of_lt (by omega)] at close
    have far : tenTo 28 * n ≤ tenTo 28 * (2 * (n - m)) := Nat.mul_le_mul_left _ (by omega)
    have many : 2 * n ≤ tenTo 28 * n := Nat.mul_le_mul_right _ (by decide)
    rw [Nat.mul_left_comm] at far
    omega

theorem rounded_neg_natCast (small : m < mantissaLimit) : rounded (-m) = some (-m : ℚ) := by
  rw [← value_ofNat small, ← value_neg, rounded_value]

/-- Natural numbers out of range are too large to be rounded. -/
theorem rounded_natCast_large (large : mantissaLimit ≤ m) : rounded m = none := by
  have nonneg : (0 : ℚ) ≤ m := Nat.cast_nonneg m
  have same : (fit false m 1 28).map value = rounded m := by
    refine map_value_fit_eq_rounded Nat.one_pos (.inl (Nat.le_refl 28)) ?_ (by simp)
    rw [Nat.cast_one, div_one, abs_of_nonneg nonneg]
  rw [← same, Option.map_eq_none_iff, Option.eq_none_iff_forall_ne_some]
  intro d made
  obtain ⟨scale, -, here, -⟩ := fit_eq_some made
  rw [roundHalfEven_of_dvd Nat.one_pos (one_dvd _), Nat.div_one, ofParts?] at here
  split at here
  · rename_i inRange
    have grows : m * 1 ≤ m * tenTo scale := Nat.mul_le_mul_left _ (tenTo_pos scale)
    omega
  · cases here

variable {a b q r : Decimal}

/-- The quotient rounded down is the whole part of the exact one, unless that has been rounded up. -/
theorem exists_floor_div (dividend : a.value = m) (divisor : b.value = n) (positive : 0 < n) :
    b.isZero = false ∧ ∃ q, a.div? b = some q ∧
      (RoundsUp m n ∧ q.floor.value = (m / n + 1 : Nat) ∨ ¬RoundsUp m n ∧ q.floor.value = (m / n : Nat)) := by
  have nonzero : ¬b.isZero = true := by
    rw [isZero_iff_value, divisor, Nat.cast_eq_zero]
    omega
  refine ⟨by simpa using nonzero, ?_⟩
  obtain ⟨x, same, cases⟩ := floor_rounded_div positive (natural_lt dividend)
  have quotient := value_div a nonzero
  rw [dividend, divisor, same] at quotient
  obtain ⟨q, made, rfl⟩ := Option.map_eq_some_iff.1 quotient
  refine ⟨q, made, ?_⟩
  rw [value_floor]
  rcases cases with ⟨up, whole⟩ | ⟨down, whole⟩
  · exact .inl ⟨up, by rw [whole, Int.cast_natCast]⟩
  · exact .inr ⟨down, by rw [whole, Int.cast_natCast]⟩

/-- A remainder: no less than 0, less than the divisor, and a multiple of the divisor away from the dividend. -/
structure IsRemainder (a b r : Decimal) : Prop where
  nonneg : 0 ≤ r.value
  below : r.value < b.value
  multiple : ∃ k : ℤ, a.value - r.value = k * b.value

/-- A whole part that is exact leaves a remainder. -/
theorem exists_remainder (dividend : a.value = m) (divisor : b.value = n) (positive : 0 < n)
    (whole : q.value = (m / n : Nat)) :
    ∃ p r, q.mul? b = some p ∧ a.sub? p = some r ∧ IsRemainder a b r := by
  have bound := natural_lt dividend
  have parts := Nat.div_add_mod m n
  have product := value_mul q b
  rw [whole, divisor, ← Nat.cast_mul, rounded_natCast (by rw [Nat.mul_comm]; omega)] at product
  obtain ⟨p, made, value_p⟩ := Option.map_eq_some_iff.1 product
  have difference := value_sub a p
  have rest : (m : ℚ) - (m / n * n : Nat) = (m % n : Nat) := by
    rw [sub_eq_iff_eq_add', ← Nat.cast_add, Nat.mul_comm, parts]
  rw [dividend, value_p, rest, rounded_natCast (by omega)] at difference
  obtain ⟨r, made', value_r⟩ := Option.map_eq_some_iff.1 difference
  refine ⟨p, r, made, made', ?_, ?_, (m / n : Nat), ?_⟩
  · rw [value_r]
    exact Nat.cast_nonneg _
  · rw [value_r, divisor, Nat.cast_lt]
    exact Nat.mod_lt m positive
  · rw [dividend, value_r, divisor, Int.cast_natCast, ← Nat.cast_mul, ← rest, sub_sub_cancel]

/-- A whole part that is one more leaves less than nothing, if the product is not out of range. -/
theorem negative_difference (dividend : a.value = m) (divisor : b.value = n) (positive : 0 < n)
    (whole : q.value = (m / n + 1 : Nat)) :
    q.mul? b = none ∨ ∃ p r, q.mul? b = some p ∧ a.sub? p = some r ∧ r.value < 0 := by
  have parts := Nat.div_add_mod m n
  have rest := Nat.mod_lt m positive
  have product := value_mul q b
  rw [whole, divisor, ← Nat.cast_mul] at product
  by_cases large : mantissaLimit ≤ (m / n + 1) * n
  · rw [rounded_natCast_large large] at product
    exact .inl (Option.map_eq_none_iff.1 product)
  · rw [rounded_natCast (by omega)] at product
    obtain ⟨p, made, value_p⟩ := Option.map_eq_some_iff.1 product
    have difference := value_sub a p
    have lacks : (m / n + 1) * n = m + (n - m % n) := by
      rw [Nat.succ_mul, Nat.mul_comm]
      omega
    rw [dividend, value_p, lacks, Nat.cast_add, sub_add_cancel_left, rounded_neg_natCast (by omega)] at difference
    obtain ⟨r, made', value_r⟩ := Option.map_eq_some_iff.1 difference
    refine .inr ⟨p, r, made, made', ?_⟩
    rw [value_r, neg_lt_zero, Nat.cast_pos]
    omega

end Decimal

/-- What `mod` does with its operands once they have names, in the file of this number. -/
def modBlock (file : Nat) : List Item :=
  let here (start stop : Nat) : Location := ⟨file, start, stop⟩
  [.word (here 270 271) "a", .word (here 272 273) "a", .word (here 274 275) "b",
    .word (here 276 277) Builtin.divide.name, .word (here 278 283) Builtin.floor.name, .word (here 284 285) "b",
    .word (here 286 287) Builtin.multiply.name, .word (here 288 289) Builtin.subtract.name]

def modBody (file : Nat) : List Item :=
  [.bind ⟨file, 259, 262⟩ ["a", "b"] (modBlock file) ⟨file, 290, 293⟩]

set_option maxRecDepth 10000 in
theorem definitionOf_mod (file : Nat) :
    (Assembly.keptProgram file Library.bundledMath).bind (definitionOf "mod") =
      some (⟨file, 237, 239⟩, modBody file) := by
  rw [show Library.bundledMath = String.ofList _ from rfl, Assembly.keptProgram_ofList]
  cbv

section

variable {functions : Dictionary Callable} {file : Nat} {below : Stack Value} {bindings : Scope Value} {heap : Heap}
  {a b q : Decimal} {outcome : Except Failure Store}

theorem modBlock_bound (bindings : Scope Value) (a b : Decimal) :
    (bindings.bind ["a", "b"] [.number a, .number b]).get? "a" = some (.number a) ∧
      (bindings.bind ["a", "b"] [.number a, .number b]).get? "b" = some (.number b) := by
  rw [Scope.get?_bind, Scope.get?_bind]
  exact ⟨rfl, rfl⟩

/-- Where `b` is wanted for the first time there is one value more than the operands. -/
theorem modBody_overflows (free : ∀ name ∈ ["a", "b"], functions.get? name = none)
    (full : below.size + 2 = Stack.limit) :
    Does functions (modBody file) ⟨below.storeAll [.number a, .number b], bindings, heap⟩
      (.error ⟨.stackFull below.label, some ⟨file, 274, 275⟩⟩) := by
  obtain ⟨boundA, boundB⟩ := modBlock_bound bindings a b
  have absentA := free "a" (by decide)
  have absentB := free "b" (by decide)
  have inside : Does functions (modBlock file) ⟨below, bindings.bind ["a", "b"] [.number a, .number b], heap⟩
      (.error ⟨.stackFull below.label, some ⟨file, 274, 275⟩⟩) := by
    refine .fetches absentA boundA (by omega) ?_
    refine .fetches absentA boundA (show below.size + 1 < _ by omega) ?_
    exact .overflows absentB boundB (show Stack.limit ≤ below.size + 1 + 1 by omega)
  exact .bind (Store.bind_storeAll _ _ _ _ rfl) inside

/-- Once the quotient is rounded down, it is multiplied by the divisor, and the product is subtracted. -/
theorem modBody_does (builtins : ∀ word : Builtin, functions.get? word.name = some (.builtin word))
    (free : ∀ name ∈ ["a", "b"], functions.get? name = none) (room : below.size + 3 ≤ Stack.limit)
    (nonzero : b.isZero = false) (divided : a.div? b = some q)
    (rest : Does functions
      [.word ⟨file, 286, 287⟩ Builtin.multiply.name, .word ⟨file, 288, 289⟩ Builtin.subtract.name]
      ⟨below.storeAll [.number a, .number q.floor, .number b], bindings.bind ["a", "b"] [.number a, .number b], heap⟩
      outcome) :
    Does functions (modBody file) ⟨below.storeAll [.number a, .number b], bindings, heap⟩
      (outcome.map Store.unbind) := by
  obtain ⟨boundA, boundB⟩ := modBlock_bound bindings a b
  have absentA := free "a" (by decide)
  have absentB := free "b" (by decide)
  have divides : Builtin.divide.perform [.number a, .number b] heap = .ok { results := [.number q], heap } := by
    simp only [Builtin.perform, nonzero, divided]
    rfl
  have inside : Does functions (modBlock file) ⟨below, bindings.bind ["a", "b"] [.number a, .number b], heap⟩
      outcome := by
    refine .fetches absentA boundA (by omega) ?_
    refine .fetches absentA boundA (show below.size + 1 < _ by omega) ?_
    refine .fetches absentB boundB (show below.size + 1 + 1 < _ by omega) ?_
    refine .performs (below.storeAll [.number a]) [.number a, .number b] (builtins .divide) (by decide) rfl divides rfl
      (show below.size + 1 + 1 ≤ _ by omega) ?_
    refine .performs (below.storeAll [.number a]) [.number q] (builtins .floor) (by decide) rfl rfl rfl
      (show below.size + 1 + 1 ≤ _ by omega) ?_
    exact .fetches absentB boundB (show below.size + 1 + 1 < _ by omega) rest
  exact .bind (Store.bind_storeAll _ _ _ _ rfl) inside

theorem modBody_leaves (builtins : ∀ word : Builtin, functions.get? word.name = some (.builtin word))
    (free : ∀ name ∈ ["a", "b"], functions.get? name = none) (room : below.size + 3 ≤ Stack.limit)
    (nonzero : b.isZero = false) (divided : a.div? b = some q) {p r : Decimal} (multiplied : q.floor.mul? b = some p)
    (subtracted : a.sub? p = some r) :
    Does functions (modBody file) ⟨below.storeAll [.number a, .number b], bindings, heap⟩
      (.ok ⟨below.storeAll [.number r], bindings, heap⟩) := by
  have multiplies : Builtin.multiply.perform [.number q.floor, .number b] heap =
      .ok { results := [.number p], heap } := by
    simp only [Builtin.perform, multiplied]
    rfl
  have subtracts : Builtin.subtract.perform [.number a, .number p] heap = .ok { results := [.number r], heap } := by
    simp only [Builtin.perform, subtracted]
    rfl
  have rest : Does functions
      [.word ⟨file, 286, 287⟩ Builtin.multiply.name, .word ⟨file, 288, 289⟩ Builtin.subtract.name]
      ⟨below.storeAll [.number a, .number q.floor, .number b], bindings.bind ["a", "b"] [.number a, .number b], heap⟩
      (.ok ⟨below.storeAll [.number r], bindings.bind ["a", "b"] [.number a, .number b], heap⟩) := by
    refine .performs (below.storeAll [.number a]) [.number q.floor, .number b] (builtins .multiply) (by decide) rfl
      multiplies rfl (show below.size + 1 + 1 ≤ _ by omega) ?_
    exact .performs below [.number a, .number p] (builtins .subtract) (by decide) rfl subtracts rfl
      (show below.size + 1 ≤ _ by omega) .nil
  exact modBody_does builtins free room nonzero divided rest

theorem modBody_refuses (builtins : ∀ word : Builtin, functions.get? word.name = some (.builtin word))
    (free : ∀ name ∈ ["a", "b"], functions.get? name = none) (room : below.size + 3 ≤ Stack.limit)
    (nonzero : b.isZero = false) (divided : a.div? b = some q) (multiplied : q.floor.mul? b = none) :
    Does functions (modBody file) ⟨below.storeAll [.number a, .number b], bindings, heap⟩
      (.error ⟨.resultTooLarge Builtin.multiply.name, some ⟨file, 286, 287⟩⟩) := by
  have refuses : Builtin.multiply.perform [.number q.floor, .number b] heap =
      .error (.resultTooLarge Builtin.multiply.name) := by
    simp only [Builtin.perform, multiplied]
    rfl
  have rest : Does functions
      [.word ⟨file, 286, 287⟩ Builtin.multiply.name, .word ⟨file, 288, 289⟩ Builtin.subtract.name]
      ⟨below.storeAll [.number a, .number q.floor, .number b], bindings.bind ["a", "b"] [.number a, .number b], heap⟩
      (.error ⟨.resultTooLarge Builtin.multiply.name, some ⟨file, 286, 287⟩⟩) :=
    .refuses (below.storeAll [.number a]) [.number q.floor, .number b] (builtins .multiply) (by decide) rfl refuses
  exact modBody_does builtins free room nonzero divided rest

end

/-- A call of `mod` does what the body does with the operands. -/
theorem Stocks.mod_called {machine here : Machine} {place : Location} {below : Stack Value} {a b : Decimal}
    (stocks : Stocks here.functions Library.bundledMath "mod") (calls : machine.Calls here "mod" place)
    (operands : here.operands = below.storeAll [.number a, .number b]) :
    ∃ file, (∀ name ∈ ["a", "b"], here.functions.get? name = none) ∧
      ∀ outcome, Does here.functions (modBody file) ⟨below.storeAll [.number a, .number b], here.bindings, here.heap⟩
        outcome → machine.Yields (outcome.map fun after => { here.withStore after with ip := here.ip + 1 }) := by
  obtain ⟨file, start, body, tape, definition, defined, found, holds, absent⟩ := stocks.function
  rw [definitionOf_mod] at defined
  cases defined
  refine ⟨file, absent, fun outcome does => calls.yields found holds ?_⟩
  rw [Machine.store, operands]
  exact does

/-- The word `mod` leaves a remainder unless the quotient of its operands is rounded up to an integer. Wherever a
natural number and a positive divisor are on top of the stack and `mod` is called, in a machine whose functions are the
builtins and those of the module, the call returns with one number in their place and nothing else changed; the number
is a remainder if and only if the quotient has not been rounded up. A call fails if there is no room for one value more,
or if the quotient has been rounded up and the divisor times that is out of range. Below 10 to the 28 no quotient is
rounded up. -/
theorem mod_leaves_remainder_unless_rounded_up {machine here : Machine} {place : Location} {below : Stack Value}
    {a b : Decimal} {m n : Nat} (calls : machine.Calls here "mod" place)
    (stocks : Stocks here.functions Library.bundledMath "mod")
    (operands : here.operands = below.storeAll [.number a, .number b]) (fits : here.operands.size ≤ Stack.limit)
    (dividend : a.value = m) (divisor : b.value = n) (positive : 0 < n) :
    ((∃ r, machine.Yields (.ok { here with operands := below.storeAll [.number r], ip := here.ip + 1 }) ∧
        (Decimal.IsRemainder a b r ↔ ¬Decimal.RoundsUp m n)) ∨
      ∃ failure, machine.Yields (.error failure) ∧
        (failure.cause = .stackFull below.label ∧ here.operands.size = Stack.limit ∨
          failure.cause = .resultTooLarge Builtin.multiply.name ∧ Decimal.RoundsUp m n)) ∧
    (m < tenTo 28 → ¬Decimal.RoundsUp m n) := by
  refine ⟨?_, Decimal.not_roundsUp positive⟩
  obtain ⟨file, free, calling⟩ := stocks.mod_called calls operands
  have size : here.operands.size = below.size + 2 := by rw [operands]; rfl
  by_cases full : here.operands.size = Stack.limit
  · exact .inr ⟨_, calling _ (modBody_overflows free (by omega)), .inl ⟨rfl, full⟩⟩
  · have room : below.size + 3 ≤ Stack.limit := by omega
    obtain ⟨nonzero, q, divided, ⟨up, whole⟩ | ⟨down, whole⟩⟩ := Decimal.exists_floor_div dividend divisor positive
    · rcases Decimal.negative_difference dividend divisor positive whole with
        large | ⟨p, r, multiplied, subtracted, negative⟩
      · exact .inr ⟨_, calling _ (modBody_refuses stocks.builtins free room nonzero divided large), .inr ⟨rfl, up⟩⟩
      · refine .inl ⟨r, calling _ (modBody_leaves stocks.builtins free room nonzero divided multiplied subtracted), ?_⟩
        exact ⟨fun remainder => absurd remainder.nonneg negative.not_ge, fun down => absurd up down⟩
    · obtain ⟨p, r, multiplied, subtracted, remainder⟩ := Decimal.exists_remainder dividend divisor positive whole
      refine .inl ⟨r, calling _ (modBody_leaves stocks.builtins free room nonzero divided multiplied subtracted), ?_⟩
      exact ⟨fun _ => down, fun _ => remainder⟩

/-- A program that defines `mod` as the module does, and calls it. -/
def modProgram (a b : Decimal) : List Item :=
  [.define ⟨1, 237, 239⟩ ⟨"mod", ["n", "n"], ["n"]⟩ (modBody 1) ⟨1, 294, 297⟩, .number ⟨0, 12, 13⟩ a,
    .number ⟨0, 14, 15⟩ b, .word ⟨0, 16, 19⟩ "mod"]

/-- The machine that has come to the call. -/
def modCaller (a b : Decimal) : Machine :=
  (Run.execute ⟨.bundled, true, 1⟩ 5 (.start ⟨.bundled, true, 1⟩ (.ofItems (modProgram a b))) {}).2.1.machine

theorem modCaller_eq (a b : Decimal) :
    modCaller a b = { Machine.start 1 (.ofItems (modProgram a b)) with
      ip := 19
      operands := (Machine.start 1 #[]).operands.storeAll [.number a, .number b]
      functions := (Machine.start 1 #[]).functions.insert "mod"
        (.user (.ofItems (modProgram a b)) ⟨⟨"mod", ["n", "n"], ["n"]⟩, 1, 14⟩) } := by
  cbv

theorem modCaller_calls (a b : Decimal) : (modCaller a b).Calls (modCaller a b) "mod" ⟨0, 16, 19⟩ := by
  rw [modCaller_eq]
  exact ⟨⟨⟨rfl, rfl, rfl⟩, rfl⟩, Machine.settle_of_settled rfl, rfl⟩

theorem modCaller_stocks (a b : Decimal) : Stocks (modCaller a b).functions Library.bundledMath "mod" := by
  rw [modCaller_eq]
  refine Stocks.of_define (.start 1 (.ofItems (modProgram a b)))
    (fun word => ⟨Machine.start_builtins .., by cases word <;> decide⟩) (Tape.carries_ofItems (modProgram a b))
    (definitionOf_mod 1) ?_
  intro name member
  have listed : name ∈ ["a", "b"] := member
  fin_cases listed
  all_goals exact ⟨rfl, by decide⟩

/-- The word leaves a remainder of 7 by 3. -/
theorem seven_mod_three_called :
    ((modCaller (.ofNat 7) (.ofNat 3)).Calls (modCaller (.ofNat 7) (.ofNat 3)) "mod" ⟨0, 16, 19⟩ ∧
      Stocks (modCaller (.ofNat 7) (.ofNat 3)).functions Library.bundledMath "mod" ∧
      (modCaller (.ofNat 7) (.ofNat 3)).operands.size ≤ Stack.limit ∧
      (Decimal.ofNat 7).value = (7 : Nat) ∧ (Decimal.ofNat 3).value = (3 : Nat)) ∧
    ∃ r, (modCaller (.ofNat 7) (.ofNat 3)).Yields (.ok { modCaller (.ofNat 7) (.ofNat 3) with
        operands := (Machine.start 1 #[]).operands.storeAll [.number r], ip := 20 }) ∧
      Decimal.IsRemainder (.ofNat 7) (.ofNat 3) r := by
  have operands : (modCaller (.ofNat 7) (.ofNat 3)).operands =
      (Machine.start 1 #[]).operands.storeAll [.number (.ofNat 7), .number (.ofNat 3)] := by rw [modCaller_eq]
  have ip : (modCaller (.ofNat 7) (.ofNat 3)).ip + 1 = 20 := by rw [modCaller_eq]
  have size : (modCaller (.ofNat 7) (.ofNat 3)).operands.size = 2 := by rw [operands]; rfl
  have seven : (Decimal.ofNat 7).value = (7 : Nat) := Decimal.value_ofNat (by decide)
  have three : (Decimal.ofNat 3).value = (3 : Nat) := Decimal.value_ofNat (by decide)
  refine ⟨⟨modCaller_calls .., modCaller_stocks .., by rw [size]; decide, seven, three⟩, ?_⟩
  obtain ⟨outcomes, small⟩ := mod_leaves_remainder_unless_rounded_up (modCaller_calls _ _) (modCaller_stocks _ _)
    operands (by rw [size]; decide) seven three (by decide)
  have down := small (by decide)
  rcases outcomes with ⟨r, yields, remainder⟩ | ⟨failure, -, ⟨-, full⟩ | ⟨-, up⟩⟩
  · exact ⟨r, ip ▸ yields, remainder.2 down⟩
  · rw [size] at full
    exact absurd full (by decide)
  · exact absurd up down

/-- The quotient of these two numbers is rounded up to 1, and what is left is less than nothing. -/
theorem rounded_up_mod_called :
    ∃ a b r : Decimal, a.value = (39999999999999999999999999999 : Nat) ∧
      b.value = (40000000000000000000000000000 : Nat) ∧
      (modCaller a b).Calls (modCaller a b) "mod" ⟨0, 16, 19⟩ ∧
      Stocks (modCaller a b).functions Library.bundledMath "mod" ∧
      (modCaller a b).operands = (Machine.start 1 #[]).operands.storeAll [.number a, .number b] ∧
      (modCaller a b).Yields (.ok { modCaller a b with
        operands := (Machine.start 1 #[]).operands.storeAll [.number r], ip := 20 }) ∧
      r.value = -1 ∧ ¬Decimal.IsRemainder a b r := by
  let a := Decimal.ofNat 39999999999999999999999999999
  let b := Decimal.ofNat 40000000000000000000000000000
  let q : Decimal := ⟨false, 1000000000000000000000, 21, by decide, by decide⟩
  have divided : a.div? b = some q := by decide +kernel
  have multiplied : q.floor.mul? b = some b := by decide +kernel
  have subtracted : a.sub? b = some Decimal.one.neg := by decide +kernel
  have value : Decimal.one.neg.value = -1 := by
    rw [Decimal.value_neg, Decimal.one, Decimal.value_ofNat (by decide), Nat.cast_one]
  have operands : (modCaller a b).operands = (Machine.start 1 #[]).operands.storeAll [.number a, .number b] := by
    rw [modCaller_eq]
  have ip : (modCaller a b).ip + 1 = 20 := by rw [modCaller_eq]
  have stocks := modCaller_stocks a b
  obtain ⟨file, free, calling⟩ := stocks.mod_called (modCaller_calls a b) operands
  have yields := calling _
    (modBody_leaves stocks.builtins free (by decide) (by decide +kernel) divided multiplied subtracted)
  refine ⟨a, b, Decimal.one.neg, Decimal.value_ofNat (by decide), Decimal.value_ofNat (by decide), modCaller_calls a b,
    stocks, operands, ip ▸ yields, value, fun remainder => ?_⟩
  have nonneg := remainder.nonneg
  rw [value] at nonneg
  exact absurd nonneg (by norm_num)

end TapeMachine
