import TapeMachine.Proofs.Congruence
import TapeMachine.Proofs.Operands

namespace TapeMachine

/-- No integer is nearer to `x` than `r`, and of those that are as near none is farther from zero. -/
structure IsNearest (x : ℚ) (r : ℤ) : Prop where
  near : ∀ other : ℤ, |x - r| ≤ |x - other|
  away : ∀ other : ℤ, |x - other| = |x - r| → |other| ≤ |r|

namespace IsNearest

variable {x : ℚ} {r s : ℤ}

theorem neg (nearest : IsNearest x r) : IsNearest (-x) (-r) := by
  have flip : ∀ n : ℤ, |-x - n| = |x - (-n : ℤ)| := by
    intro n
    rw [← abs_neg, Int.cast_neg]
    congr 1
    ring
  refine ⟨fun other => ?_, fun other same => ?_⟩
  · rw [flip, flip, neg_neg]
    exact nearest.near (-other)
  · rw [flip, flip, neg_neg] at same
    rw [abs_neg, ← abs_neg other]
    exact nearest.away (-other) same

theorem unique (first : IsNearest x r) (second : IsNearest x s) : r = s := by
  have even : |x - r| = |x - s| := le_antisymm (first.near s) (second.near r)
  have size : |r| = |s| := le_antisymm (second.away r even) (first.away s even.symm)
  rcases abs_eq_abs.1 size with same | opposite
  · exact same
  · -- Two integers of opposite signs are as near to zero only, where zero itself is nearer than both.
    have middle : x = 0 ∨ s = 0 := by
      rw [opposite, Int.cast_neg, sub_neg_eq_add, abs_eq_abs] at even
      rcases even with right | left
      · exact .inr (by exact_mod_cast (by linarith : (s : ℚ) = 0))
      · exact .inl (by linarith)
    rcases middle with zero | zero
    · have nothing := second.near 0
      rw [zero, Int.cast_zero, sub_zero, abs_zero, zero_sub, abs_neg, abs_nonpos_iff, Int.cast_eq_zero] at nothing
      rw [opposite, nothing, neg_zero]
    · rw [opposite, zero, neg_zero]

/-- Half of one is added, and what is behind the point cut off. -/
theorem of_nonneg (nonneg : 0 ≤ x) : IsNearest x ⌊x + 1 / 2⌋₊ := by
  have low : ((⌊x + 1 / 2⌋₊ : ℤ) : ℚ) ≤ x + 1 / 2 := by exact_mod_cast Nat.floor_le (by linarith)
  have high : x + 1 / 2 < ((⌊x + 1 / 2⌋₊ : ℤ) : ℚ) + 1 := by exact_mod_cast Nat.lt_floor_add_one (x + 1 / 2)
  have whole : (0 : ℤ) ≤ ⌊x + 1 / 2⌋₊ := Int.natCast_nonneg _
  generalize ((⌊x + 1 / 2⌋₊ : Nat) : ℤ) = n at low high whole ⊢
  have close : |x - n| ≤ 1 / 2 := abs_le.2 ⟨by linarith, by linarith⟩
  have above : ∀ {other : ℤ}, n < other → 1 / 2 < |x - other| := by
    intro other more
    have next : (n : ℚ) + 1 ≤ other := by exact_mod_cast Int.add_one_le_of_lt more
    have far := neg_le_abs (x - other)
    linarith
  have below : ∀ {other : ℤ}, other < n → 1 / 2 ≤ |x - other| := by
    intro other less
    have next : (other : ℚ) + 1 ≤ n := by exact_mod_cast Int.add_one_le_of_lt less
    have far := le_abs_self (x - other)
    linarith
  refine ⟨fun other => ?_, fun other same => ?_⟩
  · rcases lt_trichotomy other n with less | rfl | more
    · exact close.trans (below less)
    · exact le_refl _
    · exact close.trans (above more).le
  · have least : -1 < other := by
      have far := le_abs_self (x - other)
      exact_mod_cast (by linarith : (-1 : ℚ) < other)
    have most : other ≤ n := by
      by_contra more
      linarith [above (not_le.1 more)]
    rw [abs_of_nonneg (by omega), abs_of_nonneg whole]
    exact most

end IsNearest

namespace Decimal

variable {d : Decimal}

theorem value_of_scale (integer : d.scale = 0) : d.value = d.num := by
  have one : (tenTo 0 : ℚ) = 1 := Nat.cast_one
  rw [value, integer, one, div_one]

/-- A number is rounded to the nearest integer. -/
theorem isNearest_round (d : Decimal) : IsNearest d.value d.round.num := by
  have rounds : (d.round.num : ℚ) = signed (decide (d.value < 0)) ⌊|d.value| + 1 / 2⌋₊ := by
    rw [← value_of_scale d.scale_round, value_round]
  have nearest := IsNearest.of_nonneg (abs_nonneg d.value)
  by_cases below : d.value < 0
  · rw [decide_eq_true below, signed, if_pos rfl] at rounds
    have same : d.round.num = -(⌊|d.value| + 1 / 2⌋₊ : ℤ) := by exact_mod_cast rounds
    have back := nearest.neg
    rwa [abs_of_neg below, neg_neg, ← abs_of_neg below, ← same] at back
  · rw [decide_eq_false below, signed, if_neg Bool.false_ne_true] at rounds
    have same : d.round.num = (⌊|d.value| + 1 / 2⌋₊ : ℤ) := by exact_mod_cast rounds
    rwa [← same, abs_of_nonneg (not_lt.1 below)] at nearest

theorem round_of_integer {n : ℤ} (integer : d.value = n) : d.round.num = n := by
  refine d.isNearest_round.unique ⟨fun other => ?_, fun other same => ?_⟩
  · rw [integer, sub_self, abs_zero]
    exact abs_nonneg _
  · rw [integer, sub_self, abs_zero, abs_eq_zero, sub_eq_zero, Int.cast_inj] at same
    rw [same]

theorem moveAddress_of_inside {base : Nat} (inside : 0 ≤ base + d.round.num ∧ base + d.round.num < addressLimit) :
    d.moveAddress base = .ok (base + d.round.num).toNat := by
  rw [moveAddress, if_pos inside]

theorem moveAddress_of_outside {base : Nat} (outside : ¬(0 ≤ base + d.round.num ∧ base + d.round.num < addressLimit)) :
    d.moveAddress base = .error (.notAnAddress base d) := by
  rw [moveAddress, if_neg outside]

/-- Moving by a natural number. -/
theorem moveAddress_of_natural {base n : Nat} (natural : d.value = n) (inside : base + n < addressLimit) :
    d.moveAddress base = .ok (base + n) := by
  have integer : d.round.num = n := round_of_integer (by rw [natural]; rfl)
  rw [moveAddress_of_inside (by rw [integer]; omega), integer]
  rfl

end Decimal

theorem Builtin.perform_offset {d : Decimal} {base target : Nat} (moved : d.moveAddress base = .ok target)
    (heap : Heap) :
    Builtin.offset.perform [.pointer base, .number d] heap = .ok { results := [.pointer target], heap } := by
  rw [Builtin.perform, moved]
  rfl

/-- `ptr+` takes the pointer to `start` and the number `d` off the stack, and leaves the pointer to `target`. -/
def Moves (d : Decimal) (start target : Nat) : Prop :=
  ∀ (below : Stack Value) (heap : Heap), below.size < Stack.limit →
    Builtin.offset.call (below.storeAll [.pointer start, .number d]) heap =
      (.ok .continue, below.storeAll [.pointer target], heap)

/-- `ptr+` takes both off the stack and says that there is no such address. -/
def Strays (d : Decimal) (start : Nat) : Prop :=
  ∀ (below : Stack Value) (heap : Heap), ∃ cause, cause.code = .invalidPointer ∧
    Builtin.offset.call (below.storeAll [.pointer start, .number d]) heap = (.error cause, below, heap)

section

variable {d : Decimal} {start target : Nat}

theorem moves_of_inside (inside : 0 ≤ start + d.round.num ∧ start + d.round.num < addressLimit) :
    Moves d start (start + d.round.num).toNat := by
  intro below heap room
  have performed := Builtin.perform_offset (Decimal.moveAddress_of_inside inside) heap
  exact Builtin.call_of_performed (by decide) rfl performed room

theorem strays_of_outside (outside : ¬(0 ≤ start + d.round.num ∧ start + d.round.num < addressLimit)) :
    Strays d start := by
  intro below heap
  have performed : Builtin.offset.perform [.pointer start, .number d] heap = .error (.notAnAddress start d) := by
    rw [Builtin.perform, Decimal.moveAddress_of_outside outside]
    rfl
  exact ⟨_, rfl, Builtin.call_of_refused (by decide) rfl performed below⟩

/-- There is one place at most to move to. -/
theorem Moves.unique {other : Nat} (moves : Moves d start target) (also : Moves d start other) : target = other := by
  have same := (moves { label := "" } (.new 0) (by decide)).symm.trans (also { label := "" } (.new 0) (by decide))
  have entries : [Value.pointer target] = [.pointer other] := congrArg (fun result => result.2.1.entries) same
  simpa using entries

theorem Moves.not_strays (moves : Moves d start target) : ¬Strays d start := by
  intro strays
  obtain ⟨cause, -, failed⟩ := strays { label := "" } (.new 0)
  cases (moves { label := "" } (.new 0) (by decide)).symm.trans failed

theorem moves_iff : Moves d start target ↔ (target : ℤ) = start + d.round.num ∧ target < addressLimit := by
  constructor
  · intro moves
    by_cases inside : 0 ≤ start + d.round.num ∧ start + d.round.num < addressLimit
    · have same := moves.unique (moves_of_inside inside)
      omega
    · exact (moves.not_strays (strays_of_outside inside)).elim
  · rintro ⟨there, below⟩
    have moves := @moves_of_inside d start (by omega)
    rwa [← there, Int.toNat_natCast] at moves

end

/-- Pointers move exactly. Moving by a number is moving by the integer nearest to it, of which there is one: it leads to
the sum, if that is an address, and fails otherwise. So it is the same to move by one integer and then by another one as
to move by their sum, whenever there is a number for the sum; and this number is what the addition gives. -/
theorem pointers_move_exactly :
    (∀ (d : Decimal) (r : ℤ) (start : Nat), IsNearest d.value r → start < addressLimit →
      (∀ target, Moves d start target ↔ (target : ℤ) = start + r ∧ target < addressLimit) ∧
      (¬(0 ≤ start + r ∧ start + r < addressLimit) → Strays d start)) ∧
    (∀ d : Decimal, ∃! r, IsNearest d.value r) ∧
    ∀ (first second sum : Decimal) (m n : ℤ) (start middle target : Nat), first.value = m → second.value = n →
      sum.value = first.value + second.value → Moves first start middle → Moves second middle target →
      Moves sum start target ∧ (first.add? second).map Decimal.value = some sum.value := by
  refine ⟨fun d r start nearest inside => ?_, fun d => ?_, ?_⟩
  · rw [nearest.unique d.isNearest_round]
    exact ⟨fun target => moves_iff, strays_of_outside⟩
  · exact ⟨d.round.num, d.isNearest_round, fun r nearest => nearest.unique d.isNearest_round⟩
  · intro first second sum m n start middle target integer integer' total moves moves'
    have whole : sum.value = (m + n : ℤ) := by rw [total, integer, integer', Int.cast_add]
    rw [moves_iff, Decimal.round_of_integer integer] at moves
    rw [moves_iff, Decimal.round_of_integer integer'] at moves'
    refine ⟨moves_iff.2 ⟨?_, moves'.2⟩, ?_⟩
    · rw [Decimal.round_of_integer whole, moves'.1, moves.1]
      ring
    · rw [Decimal.value_add, ← total, Decimal.rounded_value]

/-- The number -2.5. -/
def minusTwoAndHalf : Decimal :=
  ⟨true, 25, 1, by decide, by decide⟩

/-- From 4 it leads to 1, and from 2 nowhere. -/
theorem minusTwoAndHalf_moves : Moves minusTwoAndHalf 4 1 ∧ Strays minusTwoAndHalf 2 := by
  have nearest : IsNearest minusTwoAndHalf.value (-3) := minusTwoAndHalf.isNearest_round
  exact ⟨((pointers_move_exactly.1 _ _ 4 nearest (by decide)).1 1).2 ⟨by decide, by decide⟩,
    (pointers_move_exactly.1 _ _ 2 nearest (by decide)).2 (by decide)⟩

end TapeMachine
