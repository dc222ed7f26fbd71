namespace TapeMachine

/-- The characters with the Unicode property `White_Space`. They alone separate words, and they are
what trimming removes. -/
def isBlank (c : Char) : Bool :=
  (0x09 ≤ c.toNat && c.toNat ≤ 0x0d) || c.toNat == 0x20 || c.toNat == 0x85 || c.toNat == 0xa0 ||
  c.toNat == 0x1680 || (0x2000 ≤ c.toNat && c.toNat ≤ 0x200a) || c.toNat == 0x2028 ||
  c.toNat == 0x2029 || c.toNat == 0x202f || c.toNat == 0x205f || c.toNat == 0x3000

/-- `text` without the characters at its end that satisfy `skip`. -/
def dropEndWhile (skip : Char → Bool) (text : List Char) : List Char :=
  (text.reverse.dropWhile skip).reverse

/-- `text` without the blanks at both ends. -/
def trim (text : List Char) : List Char :=
  dropEndWhile isBlank (text.dropWhile isBlank)

/-- The characters that may end a line. -/
def isLineEnd (c : Char) : Bool :=
  c == '\n' || c == '\r'

/-- A line without the carriage returns and newlines at its end. -/
def chomp (line : List Char) : List Char :=
  dropEndWhile isLineEnd line

theorem dropEndWhile_eq_self {skip : Char → Bool} {text : List Char}
    (keeps : ∀ c ∈ text.getLast?, skip c = false) : dropEndWhile skip text = text := by
  cases reversed : text.reverse with
  | nil => simp [dropEndWhile, List.reverse_eq_nil_iff.1 reversed]
  | cons c rest =>
    have last : text.getLast? = some c := by rw [← List.head?_reverse, reversed]; rfl
    have keep := keeps c (by simp [last])
    rw [dropEndWhile, reversed, List.dropWhile_cons, if_neg (by simp [keep]), ← reversed,
      List.reverse_reverse]

end TapeMachine
