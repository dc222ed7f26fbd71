import TapeMachine.Builtin.Call
import TapeMachine.Decimal.Printer
import TapeMachine.Proofs.NormalForm

namespace TapeMachine

variable {skip : Char → Bool} {before word after rest : List Char}

theorem dropEndWhile_append (all : ∀ c ∈ after, skip c = true) :
    dropEndWhile skip (word ++ after) = dropEndWhile skip word := by
  rw [dropEndWhile, List.reverse_append, List.dropWhile_append_of_pos fun c member => all c (List.mem_reverse.1 member),
    dropEndWhile]

/-- Nothing but the blanks around it is taken from a word that has none. -/
theorem trim_surrounded (blanks : ∀ c ∈ before ++ after, isBlank c = true)
    (solid : ∀ c ∈ word, isBlank c = false) : trim (before ++ word ++ after) = word := by
  have first : ∀ c ∈ before, isBlank c = true := fun c member => blanks c (List.mem_append_left _ member)
  have last : ∀ c ∈ after, isBlank c = true := fun c member => blanks c (List.mem_append_right _ member)
  rw [trim, List.append_assoc, List.dropWhile_append_of_pos first]
  cases word with
  | nil =>
    rw [List.nil_append, List.dropWhile_eq_nil_iff.2 last]
    rfl
  | cons c word =>
    have keep := solid c (by simp)
    rw [List.cons_append, List.dropWhile_cons_of_neg (by simp [keep]), ← List.cons_append, dropEndWhile_append last]
    exact dropEndWhile_eq_self fun c ends => solid c (List.mem_of_getLast? ends)

theorem solid_of_isDigit {c : Char} (digit : c.isDigit = true) : isBlank c = false := by
  simp only [Char.isDigit, Bool.and_eq_true, decide_eq_true_eq] at digit
  obtain ⟨low, high⟩ := digit
  have low' : 48 ≤ c.toNat := low
  have high' : c.toNat ≤ 57 := high
  simp only [isBlank, Bool.or_eq_false_iff, Bool.and_eq_false_iff, beq_eq_false_iff_ne, decide_eq_false_iff_not]
  omega

namespace Decimal

variable {negative : Bool} {reading : Reading}

/-- What digits make of what has been read before them. -/
def Reading.addAll (reading : Reading) (word : List Char) : Reading :=
  word.foldl (fun reading c => reading.add (c.toNat - '0'.toNat)) reading

/-- Before the point digits do not count towards the scale. -/
theorem Reading.addAll_whole (mantissa : Nat) (any : Bool) (word : List Char) :
    Reading.addAll ⟨mantissa, 0, any, false⟩ word =
      ⟨Nat.ofDigitChars 10 word mantissa, 0, any || !word.isEmpty, false⟩ := by
  induction word generalizing mantissa any with
  | nil => simp [addAll]
  | cons c word ih =>
    rw [Nat.ofDigitChars_cons, Nat.mul_comm]
    refine (ih _ true).trans ?_
    simp

/-- Behind the point they all do. -/
theorem Reading.addAll_fraction (mantissa scale : Nat) (word : List Char) :
    Reading.addAll ⟨mantissa, scale, true, true⟩ word =
      ⟨Nat.ofDigitChars 10 word mantissa, scale + word.length, true, true⟩ := by
  induction word generalizing mantissa scale with
  | nil => rfl
  | cons c word ih =>
    rw [Nat.ofDigitChars_cons, Nat.mul_comm, List.length_cons, Nat.add_comm word.length, ← Nat.add_assoc]
    exact ih _ _

theorem le_ofDigitChars (word : List Char) (start : Nat) : start ≤ Nat.ofDigitChars 10 word start := by
  rw [Nat.ofDigitChars_eq_ofDigitChars_zero]
  exact Nat.le_add_right_of_le (Nat.le_mul_of_pos_left start (Nat.pow_pos (by decide)))

/-- As long as the mantissa and the scale are in range, digits are read one by one. -/
theorem readDigits_append (digits : ∀ c ∈ word, c.isDigit = true)
    (fits : Nat.ofDigitChars 10 word reading.mantissa < mantissaLimit)
    (room : reading.afterPoint = true → reading.scale + word.length ≤ 28) :
    readDigits negative reading (word ++ rest) = readDigits negative (reading.addAll word) rest := by
  induction word generalizing reading with
  | nil => rfl
  | cons c word ih =>
    have digit := digits c (by simp)
    rw [Nat.ofDigitChars_cons, Nat.mul_comm] at fits
    have below : (reading.add (c.toNat - '0'.toNat)).mantissa < mantissaLimit :=
      Nat.lt_of_le_of_lt (le_ofDigitChars word _) fits
    have short : ¬(reading.afterPoint && (reading.scale == 28 ||
        mantissaLimit ≤ (reading.add (c.toNat - '0'.toNat)).mantissa)) = true := by
      intro long
      simp only [Bool.and_eq_true, Bool.or_eq_true, beq_iff_eq, decide_eq_true_eq] at long
      have room' := room long.1
      rw [List.length_cons] at room'
      omega
    rw [List.cons_append, readDigits, if_pos digit]
    dsimp only
    rw [if_neg short, if_neg (by omega)]
    refine ih (fun d member => digits d (List.mem_cons_of_mem c member)) fits fun point => ?_
    have room' := room point
    rw [List.length_cons] at room'
    have scale : (reading.add (c.toNat - '0'.toNat)).scale = reading.scale + 1 := if_pos point
    omega

variable (d : Decimal)

theorem isDigit_of_mem_digits {c : Char} (member : c ∈ d.digits) : c.isDigit = true := by
  rw [digits, List.leftpad, List.mem_append] at member
  rcases member with pad | digit
  · rw [(List.mem_replicate.1 pad).2]
    rfl
  · exact Nat.isDigit_of_mem_toDigits (by decide) (by decide) digit

theorem scale_lt_length_digits : d.scale < d.digits.length := by
  rw [digits, List.length_leftpad]
  omega

theorem ofDigitChars_digits : Nat.ofDigitChars 10 d.digits 0 = d.mantissa := by
  rw [digits, List.leftpad, Nat.ofDigitChars_append, Nat.ofDigitChars_replicate_zero, Nat.mul_zero,
    Nat.ofDigitChars_ten_toDigits]

/-- The digits before the point. -/
def whole : List Char :=
  d.digits.take (d.digits.length - d.scale)

/-- The digits behind it. -/
def fraction : List Char :=
  d.digits.drop (d.digits.length - d.scale)

/-- What is printed apart from the sign. -/
def unsigned : List Char :=
  d.whole ++ if d.scale = 0 then [] else '.' :: d.fraction

theorem toList_exact : d.exact.toList = (if d.negative then ['-'] else []) ++ d.unsigned := by
  rw [exact, String.toList_ofList, List.append_assoc]
  rfl

theorem whole_append_fraction : d.whole ++ d.fraction = d.digits :=
  List.take_append_drop ..

theorem length_fraction : d.fraction.length = d.scale := by
  have longer := d.scale_lt_length_digits
  rw [fraction, List.length_drop]
  omega

theorem whole_ne_nil : d.whole ≠ [] := by
  have longer := d.scale_lt_length_digits
  rw [← List.length_pos_iff, whole, List.length_take]
  omega

theorem isDigit_of_mem_whole {c : Char} (member : c ∈ d.whole) : c.isDigit = true :=
  d.isDigit_of_mem_digits (List.mem_of_mem_take member)

theorem isDigit_of_mem_fraction {c : Char} (member : c ∈ d.fraction) : c.isDigit = true :=
  d.isDigit_of_mem_digits (List.mem_of_mem_drop member)

/-- What is printed without its sign is read digit for digit. -/
theorem readDigits_unsigned : readDigits negative {} d.unsigned = ofParts? negative d.mantissa d.scale := by
  have whole_lt : Nat.ofDigitChars 10 d.whole 0 < mantissaLimit := by
    have grows := le_ofDigitChars d.fraction (Nat.ofDigitChars 10 d.whole 0)
    rw [← Nat.ofDigitChars_append, whole_append_fraction, ofDigitChars_digits] at grows
    exact Nat.lt_of_le_of_lt grows d.mantissa_lt
  have digits : ∀ c ∈ d.whole, c.isDigit = true := fun c => d.isDigit_of_mem_whole
  have some : d.whole.isEmpty = false := List.isEmpty_eq_false_iff.2 d.whole_ne_nil
  have first : Reading.addAll {} d.whole = ⟨Nat.ofDigitChars 10 d.whole 0, 0, true, false⟩ := by
    rw [Reading.addAll_whole, some]
    rfl
  have all : Nat.ofDigitChars 10 d.fraction (Nat.ofDigitChars 10 d.whole 0) = d.mantissa := by
    rw [← Nat.ofDigitChars_append, whole_append_fraction, ofDigitChars_digits]
  rw [unsigned, readDigits_append digits whole_lt (absurd · Bool.false_ne_true), first]
  split
  · rename_i none
    have nothing : d.fraction = [] := List.length_eq_zero_iff.1 (d.length_fraction.trans none)
    rw [nothing] at all
    rw [none, ← all]
    rfl
  · have point (reading : Reading) (before : reading.afterPoint = false) :
        readDigits negative reading ('.' :: d.fraction) =
          readDigits negative { reading with afterPoint := true } (d.fraction ++ []) := by
      have dot : '.'.isDigit = false := by decide
      simp [readDigits, dot, before]
    have room : 0 + d.fraction.length ≤ 28 := by
      rw [Nat.zero_add, length_fraction]
      exact d.scale_le
    rw [point _ rfl, readDigits_append (fun c => d.isDigit_of_mem_fraction) (all.symm ▸ d.mantissa_lt) fun _ => room,
      Reading.addAll_fraction, all, length_fraction, Nat.zero_add]
    rfl

theorem readPlain_of_digit {c : Char} (digit : c.isDigit = true) :
    readPlain (c :: rest) = readDigits false {} (c :: rest) := by
  unfold readPlain
  split
  · rename_i minus
    cases minus
    cases digit
  · rename_i plus
    cases plus
    cases digit
  · rfl

/-- A number is read as it is printed, without the sign of a zero. -/
theorem readPlain_exact : readPlain d.exact.toList = ofParts? d.negative d.mantissa d.scale := by
  rw [toList_exact, ← readDigits_unsigned]
  cases d.negative with
  | true => rfl
  | false =>
    obtain ⟨first, more, starts⟩ := List.exists_cons_of_ne_nil d.whole_ne_nil
    have digit := d.isDigit_of_mem_whole (c := first) (by simp [starts])
    rw [unsigned, starts]
    exact readPlain_of_digit digit

theorem solid_exact : ∀ c ∈ d.exact.toList, isBlank c = false := by
  intro c member
  rw [toList_exact, unsigned] at member
  simp only [List.mem_append] at member
  rcases member with sign | whole | fraction
  · split at sign <;> simp at sign
    rw [sign]
    rfl
  · exact solid_of_isDigit (d.isDigit_of_mem_whole whole)
  · split at fraction
    · cases fraction
    · rcases List.mem_cons.1 fraction with rfl | digit
      · rfl
      · exact solid_of_isDigit (d.isDigit_of_mem_fraction digit)

/-- The text of a number, blanks around it apart, is read as its normal form. -/
theorem parse_text {before after : String} (blanks : ∀ c ∈ before.toList ++ after.toList, isBlank c = true) :
    parse (before ++ d.text ++ after) = .ok d.normalize := by
  have sign : (d.normalize.negative && d.normalize.mantissa != 0) = d.normalize.negative := by
    by_cases zero : d.normalize.mantissa = 0
    · simp [zero, d.reduced_normalize.plain zero]
    · simp [zero]
  have reads : read? d.text.toList = some d.normalize := by
    rw [read?, text, readPlain_exact, ofParts?, dif_pos ⟨d.normalize.mantissa_lt, d.normalize.scale_le⟩,
      Option.some_or]
    simp only [sign]
  have solid : ∀ c ∈ d.text.toList, isBlank c = false := d.normalize.solid_exact
  rw [parse, String.toList_append, String.toList_append, trim_surrounded blanks solid, reads]

/-- Texts tell numbers apart exactly where their values differ. -/
theorem text_eq_iff_value_eq (a b : Decimal) : a.text = b.text ↔ a.value = b.value := by
  rw [← normalize_eq_iff_value_eq]
  constructor
  · intro same
    have first := @parse_text a "" "" (by simp)
    rw [same, b.parse_text (by simp)] at first
    exact (Except.ok.inj first).symm
  · intro same
    rw [text, text, same]

end Decimal

/-- The text of a number is faithful: every number has one, which is read as an equal number, whatever blanks are around
it, and two numbers have the same text exactly where they are equal. -/
theorem number_text_is_faithful (a b : Decimal) (heap : Heap) :
    ∃ text text', Builtin.numberToString.perform [.number a] heap = .ok { results := [.string text], heap } ∧
      Builtin.numberToString.perform [.number b] heap = .ok { results := [.string text'], heap } ∧
      (text = text' ↔ a.eqv b = true) ∧
      ∀ before after : String, (∀ c ∈ before.toList ++ after.toList, isBlank c = true) →
        ∃ read, Builtin.stringToNumber.perform [.string (before ++ text ++ after)] heap =
            .ok { results := [.number read], heap } ∧
          read.eqv a = true := by
  refine ⟨a.text, b.text, rfl, rfl, ?_, fun before after blanks => ⟨a.normalize, ?_, ?_⟩⟩
  · rw [Decimal.eqv_iff_value_eq, Decimal.text_eq_iff_value_eq]
  · show (Decimal.parse (before ++ a.text ++ after)).map _ = _
    rw [a.parse_text blanks]
    rfl
  · exact Decimal.eqv_iff_value_eq.2 a.value_normalize

/-- The least number that has all digits behind the point which there can be. -/
def leastFine : Decimal :=
  ⟨true, mantissaLimit - 1, 28, by rw [mantissaLimit]; omega, by omega⟩

/-- Between line ends its text is read as an equal number. -/
theorem leastFine_text_read :
    ∃ read, Builtin.stringToNumber.perform [.string ("\n" ++ leastFine.text ++ "\r\n")] (.new 4) =
        .ok { results := [.number read], heap := .new 4 } ∧
      read.eqv leastFine = true := by
  obtain ⟨text, _, prints, -, -, reads⟩ := number_text_is_faithful leastFine .zero (.new 4)
  cases prints
  exact reads "\n" "\r\n" (by simp [isBlank])

end TapeMachine
