import Mathlib
import TapeMachine.Text.Quoted

namespace TapeMachine

/-- A list is cut at the first of its separators in one way only. -/
theorem cut_inj {α : Type} [DecidableEq α] {separator : α} {first second rest other : List α}
    (here : separator ∉ first) (there : separator ∉ second)
    (same : first ++ separator :: rest = second ++ separator :: other) :
    first = second ∧ rest = other := by
  have pieces := congrArg (List.splitOn separator) same
  rw [List.splitOn_append_cons_self_of_not_mem here, List.splitOn_append_cons_self_of_not_mem there] at pieces
  obtain ⟨firsts, others⟩ := List.cons.inj pieces
  refine ⟨firsts, ?_⟩
  calc rest = [separator].intercalate (rest.splitOn separator) := (List.intercalate_splitOn separator).symm
    _ = [separator].intercalate (other.splitOn separator) := by rw [others]
    _ = other := List.intercalate_splitOn separator

namespace Quoted

theorem exists_digitChar_of_mem_toDigits {n : Nat} {c : Char} (member : c ∈ Nat.toDigits 16 n) :
    ∃ digit < 16, c = digit.digitChar := by
  induction n using Nat.strong_induction_on with
  | _ n ih =>
    rw [Nat.toDigits_eq_if (by decide)] at member
    split at member
    · rename_i small
      exact ⟨n, small, List.mem_singleton.1 member⟩
    · rcases List.mem_append.1 member with front | last
      · exact ih (n / 16) (by omega) front
      · exact ⟨n % 16, Nat.mod_lt n (by decide), List.mem_singleton.1 last⟩

theorem digitChar_inj : ∀ digit < 16, ∀ other < 16, digit.digitChar = other.digitChar → digit = other := by
  decide

theorem toDigits_ne_of_lt {n m : Nat} (small : n < 16) (large : 16 ≤ m) : Nat.toDigits 16 n ≠ Nat.toDigits 16 m := by
  intro same
  have length := congrArg List.length same
  rw [Nat.toDigits_of_lt_base small, Nat.toDigits_of_base_le (by decide) large, List.length_append] at length
  have some : 0 < (Nat.toDigits 16 (m / 16)).length := Nat.length_toDigits_pos
  simp only [List.length_singleton] at length
  omega

/-- A number is known by its hexadecimal digits. -/
theorem toDigits_inj {n m : Nat} (same : Nat.toDigits 16 n = Nat.toDigits 16 m) : n = m := by
  induction n using Nat.strong_induction_on generalizing m with
  | _ n ih =>
    rcases Nat.lt_or_ge n 16 with small | large <;> rcases Nat.lt_or_ge m 16 with small' | large'
    · rw [Nat.toDigits_of_lt_base small, Nat.toDigits_of_lt_base small'] at same
      exact digitChar_inj n small m small' (List.singleton_inj.1 same)
    · exact absurd same (toDigits_ne_of_lt small large')
    · exact absurd same.symm (toDigits_ne_of_lt small' large)
    · rw [Nat.toDigits_of_base_le (by decide) large, Nat.toDigits_of_base_le (by decide) large'] at same
      obtain ⟨front, last⟩ := List.append_inj' same rfl
      have quotient := ih (n / 16) (Nat.div_lt_self (by omega) (by decide)) front
      have rest := digitChar_inj (n % 16) (Nat.mod_lt n (by decide)) (m % 16) (Nat.mod_lt m (by decide))
        (List.singleton_inj.1 last)
      omega

/-- The characters behind a backslash, and what they stand for. -/
def shorthands : List (Char × Char) :=
  [('"', '"'), ('\\', '\\'), ('n', '\n'), ('t', '\t'), ('r', '\r'), ('0', '\x00')]

/-- A character is written as it is, by a shorthand, or by its number. -/
theorem escape_cases (hidden : Char → Bool) (c : Char) :
    (escape hidden c = [c] ∧ c ≠ '\\' ∧ c ≠ '\n') ∨
    (∃ shorthand, (shorthand, c) ∈ shorthands ∧ escape hidden c = ['\\', shorthand]) ∨
    escape hidden c = '\\' :: 'u' :: '\x7b' :: (Nat.toDigits 16 c.toNat ++ ['\x7d']) := by
  by_cases quote : c = '"'
  · exact .inr (.inl ⟨'"', by simp [shorthands, quote], by simp [escape, quote]⟩)
  by_cases backslash : c = '\\'
  · exact .inr (.inl ⟨'\\', by simp [shorthands, backslash], by simp [escape, backslash]⟩)
  by_cases newline : c = '\n'
  · exact .inr (.inl ⟨'n', by simp [shorthands, newline], by simp [escape, newline]⟩)
  by_cases tab : c = '\t'
  · exact .inr (.inl ⟨'t', by simp [shorthands, tab], by simp [escape, tab]⟩)
  by_cases carriage : c = '\r'
  · exact .inr (.inl ⟨'r', by simp [shorthands, carriage], by simp [escape, carriage]⟩)
  by_cases zero : c = '\x00'
  · exact .inr (.inl ⟨'0', by simp [shorthands, zero], by simp [escape, zero]⟩)
  by_cases listed : hidden c = true
  · exact .inr (.inr (by simp [escape, quote, backslash, newline, tab, carriage, zero, listed]))
  · exact .inl ⟨by simp [escape, quote, backslash, newline, tab, carriage, zero, listed], backslash, newline⟩

variable {hidden : Char → Bool}

theorem shorthand_inj : ∀ p ∈ shorthands, ∀ q ∈ shorthands, p.1 = q.1 → p.2 = q.2 := by
  decide

theorem shorthand_ne : ∀ p ∈ shorthands, p.1 ≠ 'u' ∧ p.1 ≠ '\n' := by
  decide

theorem not_mem_toDigits {c : Char} (other : ∀ digit < 16, c ≠ Nat.digitChar digit) (n : Nat) :
    c ∉ Nat.toDigits 16 n := by
  intro member
  obtain ⟨digit, small, same⟩ := exists_digitChar_of_mem_toDigits member
  exact other digit small same

/-- What stands for a character is not the beginning of what stands for another. -/
theorem escape_append_inj {c d : Char} {rest other : List Char}
    (same : escape hidden c ++ rest = escape hidden d ++ other) : c = d ∧ rest = other := by
  rcases escape_cases hidden c with ⟨plain, slash, -⟩ | ⟨shorthand, meant, short⟩ | long <;>
    rcases escape_cases hidden d with ⟨plain', slash', -⟩ | ⟨shorthand', meant', short'⟩ | long'
  · rw [plain, plain'] at same
    exact List.cons.inj same
  · rw [plain, short'] at same
    exact absurd (List.cons.inj same).1 slash
  · rw [plain, long'] at same
    exact absurd (List.cons.inj same).1 slash
  · rw [short, plain'] at same
    exact absurd (List.cons.inj same).1.symm slash'
  · rw [short, short'] at same
    obtain ⟨letter, rests⟩ := List.cons.inj (List.cons.inj same).2
    exact ⟨shorthand_inj _ meant _ meant' letter, rests⟩
  · rw [short, long'] at same
    exact absurd (List.cons.inj (List.cons.inj same).2).1 (shorthand_ne _ meant).1
  · rw [long, plain'] at same
    exact absurd (List.cons.inj same).1.symm slash'
  · rw [long, short'] at same
    exact absurd (List.cons.inj (List.cons.inj same).2).1.symm (shorthand_ne _ meant').1
  · rw [long, long'] at same
    simp only [List.cons_append, List.append_assoc, List.cons.injEq, true_and, List.nil_append] at same
    have brace : ∀ n, '\x7d' ∉ Nat.toDigits 16 n := not_mem_toDigits (by decide)
    obtain ⟨digits, rests⟩ := cut_inj (brace _) (brace _) same
    exact ⟨Char.toNat_inj.1 (toDigits_inj digits), rests⟩

theorem escape_ne_nil (hidden : Char → Bool) (c : Char) : escape hidden c ≠ [] := by
  rcases escape_cases hidden c with ⟨plain, -⟩ | ⟨_, -, short⟩ | long
  · simp [plain]
  · simp [short]
  · simp [long]

theorem flatMap_escape_inj {text other : List Char}
    (same : text.flatMap (escape hidden) = other.flatMap (escape hidden)) : text = other := by
  induction text generalizing other with
  | nil =>
    cases other with
    | nil => rfl
    | cons d other =>
      rw [List.flatMap_nil, List.flatMap_cons] at same
      exact absurd (List.append_eq_nil_iff.1 same.symm).1 (escape_ne_nil hidden d)
  | cons c text ih =>
    cases other with
    | nil =>
      rw [List.flatMap_nil, List.flatMap_cons] at same
      exact absurd (List.append_eq_nil_iff.1 same).1 (escape_ne_nil hidden c)
    | cons d other =>
      rw [List.flatMap_cons, List.flatMap_cons] at same
      obtain ⟨first, rest⟩ := escape_append_inj same
      rw [first, ih rest]

/-- A string is known by how it is quoted, whatever characters are hidden. -/
theorem encodeBy_inj {text other : String} (same : encodeBy hidden text = encodeBy hidden other) : text = other := by
  rw [encodeBy, encodeBy, String.ofList_inj, List.cons_append, List.cons_append, List.cons.injEq] at same
  exact String.toList_inj.1 (flatMap_escape_inj (List.append_cancel_right same.2))

/-- A string is quoted on one line, whatever characters are hidden. -/
theorem newline_not_mem_encodeBy (hidden : Char → Bool) (text : String) : '\n' ∉ (encodeBy hidden text).toList := by
  rw [encodeBy, String.toList_ofList, List.cons_append, List.mem_cons, List.mem_append, List.mem_flatMap]
  rintro (quote | ⟨c, -, member⟩ | quote)
  · exact absurd quote (by decide)
  · rcases escape_cases hidden c with ⟨plain, -, other⟩ | ⟨shorthand, meant, short⟩ | long
    · rw [plain] at member
      exact other (List.mem_singleton.1 member).symm
    · rw [short] at member
      simp [(shorthand_ne _ meant).2.symm] at member
    · rw [long] at member
      simp [not_mem_toDigits (by decide : ∀ digit < 16, '\n' ≠ Nat.digitChar digit)] at member
  · exact absurd (List.mem_singleton.1 quote) (by decide)

end Quoted

end TapeMachine
