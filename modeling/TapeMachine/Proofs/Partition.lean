import Mathlib
import TapeMachine.Proofs.Spelling

namespace TapeMachine

open String (utf8Len)

namespace Lexeme

def isString : Lexeme → Bool
  | string _ => true
  | _ => false

/-- Digits, and behind them perhaps a point and more digits. -/
def Numeral (text : List Char) : Prop :=
  ∃ whole, whole ≠ [] ∧ (∀ c ∈ whole, c.isDigit = true) ∧
    (text = whole ∨ ∃ fraction, fraction ≠ [] ∧ (∀ c ∈ fraction, c.isDigit = true) ∧ text = whole ++ '.' :: fraction)

/-- The words that have a meaning in the grammar. -/
def reserved : List String :=
  ["if", "else", "end", "repeat", "while", "let", "do", "fn", ":", "var", "import"]

variable {text : List Char}

theorem numeral_of_isNumber (number : isNumber text = true) : Numeral text := by
  obtain ⟨some, rest⟩ := Bool.and_eq_true_iff.1 number
  have split : text = text.takeWhile Char.isDigit ++ text.dropWhile Char.isDigit :=
    List.takeWhile_append_dropWhile.symm
  refine ⟨text.takeWhile Char.isDigit, by simpa using some, fun c member => List.mem_takeWhile_imp member, ?_⟩
  generalize text.dropWhile Char.isDigit = behind at rest split
  cases behind with
  | nil => exact .inl (by simpa using split)
  | cons c fraction =>
    simp only [Bool.and_eq_true, beq_iff_eq, Bool.not_eq_true', List.isEmpty_eq_false_iff, List.all_eq_true] at rest
    obtain ⟨⟨rfl, more⟩, digits⟩ := rest
    exact .inr ⟨fraction, more, digits, split⟩

theorem isNumber_of_numeral (numeral : Numeral text) : isNumber text = true := by
  obtain ⟨whole, some, digits, rfl | ⟨fraction, more, others, rfl⟩⟩ := numeral
  · have taken : text.takeWhile Char.isDigit = text := List.takeWhile_eq_self_iff.2 digits
    have dropped : text.dropWhile Char.isDigit = [] := List.dropWhile_eq_nil_iff.2 digits
    simp [isNumber, taken, dropped, some]
  · have point : ('.' : Char).isDigit = false := by decide
    simp [isNumber, List.takeWhile_append_of_pos digits, List.dropWhile_append_of_pos digits, point, some, more]
    exact others

theorem isNumber_iff : isNumber text = true ↔ Numeral text :=
  ⟨numeral_of_isNumber, isNumber_of_numeral⟩

theorem isSome_ofText?_iff {text : String} : (Keyword.ofText? text).isSome = true ↔ text ∈ reserved := by
  constructor
  · intro found
    obtain ⟨keyword, found⟩ := Option.isSome_iff_exists.1 found
    rw [← Keyword.text_of_ofText? found]
    cases keyword <;> decide
  · revert text
    decide

/-- No number is a keyword. -/
theorem not_numeral_of_reserved {text : List Char} (keyword : String.ofList text ∈ reserved) : ¬Numeral text := by
  have none : ∀ text ∈ reserved, isNumber text.toList = false := by decide
  have plain := none _ keyword
  rw [String.toList_ofList] at plain
  rw [← isNumber_iff, plain]
  simp

theorem contents_ofWord (text : List Char) : (ofWord text).contents = String.ofList text := by
  rw [ofWord]
  split
  · rfl
  · split
    · rename_i found
      exact Keyword.text_of_ofText? found
    · rfl

theorem isString_ofWord (text : List Char) : (ofWord text).isString = false := by
  rw [ofWord]
  split
  · rfl
  · split <;> rfl

/-- What kind of token a text without blanks is. -/
structure Classifies (lexeme : Lexeme) (text : List Char) : Prop where
  number : (∃ digits, lexeme = .number digits) ↔ Numeral text
  keyword : (∃ keyword, lexeme = .keyword keyword) ↔ String.ofList text ∈ reserved
  word : (∃ name, lexeme = .word name) ↔ ¬Numeral text ∧ String.ofList text ∉ reserved

theorem classifies_ofWord (text : List Char) : (ofWord text).Classifies text := by
  by_cases number : isNumber text = true
  · have numeral := isNumber_iff.1 number
    have plain : String.ofList text ∉ reserved := fun keyword => not_numeral_of_reserved keyword numeral
    rw [ofWord, if_pos number]
    exact ⟨by simp [numeral], by simp [plain], by simp [numeral]⟩
  · have other : ¬Numeral text := fun numeral => number (isNumber_iff.2 numeral)
    rw [ofWord, if_neg number]
    cases found : Keyword.ofText? (String.ofList text) with
    | none =>
      have plain : String.ofList text ∉ reserved := by rw [← isSome_ofText?_iff, found]; simp
      exact ⟨by simp [other], by simp [plain], by simp [other, plain]⟩
    | some keyword =>
      have meant : String.ofList text ∈ reserved := by rw [← isSome_ofText?_iff, found]; rfl
      exact ⟨by simp [other], by simp [meant], by simp [meant]⟩

end Lexeme

namespace Lexer

/-- What a text is made of: a blank, a word or a literal. `rest` is the text behind it. -/
inductive Segment (file offset : Nat) : (first rest : List Char) → List Token → Prop
  | blank {c : Char} {rest : List Char} : isBlank c = true → Segment file offset [c] rest []
  | word {word rest : List Char} : word ≠ [] → word.head? ≠ some '"' → (∀ c ∈ word, isBlank c = false) →
      (∀ c ∈ rest.head?, isBlank c = true) →
      Segment file offset word rest [⟨Lexeme.ofWord word, ⟨file, offset, offset + utf8Len word⟩⟩]
  | string {spelling contents rest : List Char} : Spells spelling contents →
      Segment file offset ('"' :: spelling ++ ['"']) rest
        [⟨.string (String.ofList contents), ⟨file, offset, offset + utf8Len ('"' :: spelling ++ ['"'])⟩⟩]

/-- A text that begins at `offset` falls into segments, and these are its tokens. -/
inductive Segments (file : Nat) : (offset : Nat) → (text : List Char) → List Token → Prop
  | nil {offset : Nat} : Segments file offset [] []
  | cons {offset : Nat} {first rest : List Char} {now later : List Token} : Segment file offset first rest now →
      Segments file (offset + utf8Len first) rest later → Segments file offset (first ++ rest) (now ++ later)

variable {file offset : Nat} {text first rest : List Char} {tokens now : List Token} {token : Token}

theorem Reads.segments {outcome : Except Failure (List Token)} (reads : Reads file offset text outcome)
    (ok : outcome = .ok tokens) : Segments file offset text tokens := by
  induction reads generalizing tokens with
  | nil =>
    cases ok
    exact .nil
  | @blank offset c rest outcome blank _ ih =>
    have later := ih ok
    rw [← utf8Len_singleton c] at later
    exact .cons (.blank blank) later
  | @word offset word rest outcome some quoted unbroken ends _ ih =>
    cases outcome with
    | error => cases ok
    | ok later =>
      cases ok
      exact .cons (.word some quoted unbroken ends) (ih rfl)
  | @string offset spelling contents rest outcome spells _ ih =>
    cases outcome with
    | error => cases ok
    | ok later =>
      cases ok
      have split : '"' :: spelling ++ '"' :: rest = ('"' :: spelling ++ ['"']) ++ rest := by simp
      have behind := ih rfl
      rw [Nat.add_assoc, ← utf8Len_quoted] at behind
      rw [Nat.add_assoc, ← utf8Len_quoted, split]
      exact .cons (.string spells) behind
  | astray => cases ok

theorem segments_ofText {text : String} (read : Token.ofText file text = .ok tokens) :
    Segments file 0 text.toList tokens :=
  (reads_ofText file text).segments read

theorem Segment.ne_nil (segment : Segment file offset first rest now) : first ≠ [] := by
  cases segment with
  | blank => simp
  | word some => exact some
  | string => simp

/-- The place of a token is the whole segment. -/
theorem Segment.place (segment : Segment file offset first rest now) (member : token ∈ now) :
    token.place = ⟨file, offset, offset + utf8Len first⟩ := by
  cases segment with
  | blank => cases member
  | word => rw [List.mem_singleton.1 member]
  | string => rw [List.mem_singleton.1 member]

/-- Only a blank has no token. -/
theorem Segment.blank_or_token (segment : Segment file offset first rest now) :
    (∃ c, first = [c] ∧ isBlank c = true ∧ now = []) ∨ ∃ token, now = [token] := by
  cases segment with
  | @blank c rest blank => exact .inl ⟨c, rfl, blank, rfl⟩
  | word => exact .inr ⟨_, rfl⟩
  | string => exact .inr ⟨_, rfl⟩

/-- No token begins with a blank. -/
theorem Segment.head?_not_blank (segment : Segment file offset first rest [token]) :
    ∀ c ∈ first.head?, isBlank c = false := by
  cases segment with
  | word _ _ unbroken => exact fun c head => unbroken c (List.mem_of_head? head)
  | string =>
    intro c head
    cases head
    decide

/-- A character of a text in two parts stands in the second part or in the first. -/
theorem split_at_character {before after : List Char} {c : Char} (whole : first ++ rest = before ++ c :: after) :
    (∃ more, before = first ++ more ∧ rest = more ++ c :: after) ∨ ∃ more, first = before ++ c :: more := by
  rcases List.append_eq_append_iff.1 whole with behind | ⟨more, inside, behind⟩
  · exact .inl behind
  · cases more with
    | nil => exact .inl ⟨[], by simpa using inside.symm, behind.symm⟩
    | cons d more =>
      obtain ⟨same, -⟩ := List.cons.inj behind
      exact .inr ⟨more, by rw [inside, same]⟩

/-- No token of a text that begins at `offset` begins before. -/
theorem Segments.start_le (segments : Segments file offset text tokens) (member : token ∈ tokens) :
    offset ≤ token.place.start := by
  induction segments with
  | nil => cases member
  | cons segment _ ih =>
    rcases List.mem_append.1 member with here | there
    · rw [segment.place here]
    · have behind := ih there
      omega

/-- One token ends before the next one begins. -/
theorem Segments.ordered (segments : Segments file offset text tokens) :
    tokens.Pairwise fun a b => a.place.stop ≤ b.place.start := by
  induction segments with
  | nil => exact .nil
  | @cons offset first rest now later segment segments ih =>
    have single : now.Pairwise fun a b => a.place.stop ≤ b.place.start := by
      rcases segment.blank_or_token with ⟨-, -, -, rfl⟩ | ⟨token, rfl⟩
      · exact .nil
      · exact List.pairwise_singleton ..
    refine List.pairwise_append.2 ⟨single, ih, fun a here b there => ?_⟩
    rw [segment.place here]
    exact segments.start_le there

/-- A character that lies in no token is a blank. -/
theorem Segments.blank_outside (segments : Segments file offset text tokens) {before after : List Char} {c : Char}
    (whole : text = before ++ c :: after)
    (outside : ∀ token ∈ tokens, token.place.contains (offset + utf8Len before) = false) : isBlank c = true := by
  induction segments generalizing before with
  | nil => simp at whole
  | @cons offset first rest now later segment _ ih =>
    rcases split_at_character whole with ⟨more, rfl, behind⟩ | ⟨more, rfl⟩
    · refine ih behind fun token member => ?_
      have apart := outside token (List.mem_append_right now member)
      rwa [String.utf8Len_append, ← Nat.add_assoc] at apart
    · rcases segment.blank_or_token with ⟨d, single, blank, -⟩ | ⟨token, rfl⟩
      · obtain ⟨-, same⟩ : before = [] ∧ c = d := by
          cases before with
          | nil => exact ⟨rfl, (List.cons.inj single).1⟩
          | cons => simp at single
        rwa [same]
      · have apart := outside token (by simp)
        have size : 0 < utf8Len (c :: more) := by
          rw [String.utf8Len_cons]
          have := c.utf8Size_pos
          omega
        rw [segment.place (List.mem_singleton_self token), String.utf8Len_append] at apart
        simp only [Location.contains, Bool.and_eq_false_iff, decide_eq_false_iff_not] at apart
        omega

/-- Every token has its segment in the text. Before it comes a blank or a literal, or nothing. -/
theorem Segments.segment_of_mem (segments : Segments file offset text tokens) (member : token ∈ tokens) :
    ∃ before inside after, text = before ++ inside ++ after ∧
      Segment file (offset + utf8Len before) inside after [token] ∧
      (token.lexeme.isString = false → (∀ c ∈ before.getLast?, isBlank c = true) ∨
        ∃ other ∈ tokens, other.lexeme.isString = true ∧ other.place.stop = token.place.start) := by
  induction segments with
  | nil => cases member
  | @cons offset first rest now later segment segments ih =>
    rcases List.mem_append.1 member with here | there
    · have same : now = [token] := by
        rcases segment.blank_or_token with ⟨-, -, -, rfl⟩ | ⟨other, rfl⟩
        · cases here
        · rw [List.mem_singleton.1 here]
      subst same
      exact ⟨[], first, rest, rfl, segment, fun _ => .inl (by simp)⟩
    · obtain ⟨before, inside, after, rfl, inner, preceded⟩ := ih there
      refine ⟨first ++ before, inside, after, by simp, ?_, fun plain => ?_⟩
      · rwa [String.utf8Len_append, ← Nat.add_assoc]
      · rcases preceded plain with blank | ⟨other, known, literal, stop⟩
        · cases before with
          | cons c before => exact .inl (by simpa using blank)
          | nil =>
            have start : token.place.start = offset + utf8Len first := by
              rw [inner.place (List.mem_singleton_self token)]
              rfl
            cases segment with
            | blank blank => exact .inl (by simpa using blank)
            | word _ _ _ ends =>
              obtain ⟨c, more, rfl⟩ := List.exists_cons_of_ne_nil inner.ne_nil
              have blank := ends c (by simp)
              rw [inner.head?_not_blank c (by simp)] at blank
              cases blank
            | @string spelling contents rest spells =>
              exact .inr ⟨_, List.mem_append_left later (List.mem_singleton_self _), rfl, start.symm⟩
        · exact .inr ⟨other, List.mem_append_right now known, literal, stop⟩

end Lexer

/-- A place divides a text into what comes before it, what stands there and what comes after. -/
structure Location.Divides (place : Location) (text : String) (before inside after : List Char) : Prop where
  whole : text.toList = before ++ inside ++ after
  start : place.start = utf8Len before
  stop : place.stop = place.start + utf8Len inside

/-- A token is a word: what stands there, as far as it goes without a blank. Only a literal may come right before it. -/
structure Token.IsWord (token : Token) (tokens : List Token) (before inside after : List Char) : Prop where
  contents : token.lexeme.contents = String.ofList inside
  unbroken : ∀ c ∈ inside, isBlank c = false
  followed : ∀ c ∈ after.head?, isBlank c = true
  preceded : (∀ c ∈ before.getLast?, isBlank c = true) ∨
    ∃ other ∈ tokens, other.lexeme.isString = true ∧ other.place.stop = token.place.start
  classified : token.lexeme.Classifies inside

/-- The tokens of a file and the blanks between them are its text. -/
structure Token.Partition (file : Nat) (text : String) (tokens : List Token) : Prop where
  spans : ∀ token ∈ tokens, token.place.file = file ∧ token.place.start < token.place.stop ∧
    token.place.stop ≤ text.utf8ByteSize ∧ String.Pos.Raw.IsValid text ⟨token.place.start⟩ ∧
    String.Pos.Raw.IsValid text ⟨token.place.stop⟩
  ordered : tokens.Pairwise fun a b => a.place.stop ≤ b.place.start
  blanks : ∀ before c after, text.toList = before ++ c :: after →
    (∀ token ∈ tokens, token.place.contains (utf8Len before) = false) → isBlank c = true
  literals : ∀ token ∈ tokens, token.lexeme.isString = true →
    ∃ before spelling after, token.place.Divides text before ('"' :: spelling ++ ['"']) after
  words : ∀ token ∈ tokens, token.lexeme.isString = false →
    ∃ before inside after, token.place.Divides text before inside after ∧ token.IsWord tokens before inside after

/-- If a text has tokens, they partition it. -/
theorem tokens_partition_text {file : Nat} {text : String} {tokens : List Token}
    (read : Token.ofText file text = .ok tokens) : Token.Partition file text tokens := by
  have segments := Lexer.segments_ofText read
  have divides : ∀ token ∈ tokens, ∃ before inside after, token.place.Divides text before inside after ∧
      Lexer.Segment file (0 + utf8Len before) inside after [token] ∧
      (token.lexeme.isString = false → (∀ c ∈ before.getLast?, isBlank c = true) ∨
        ∃ other ∈ tokens, other.lexeme.isString = true ∧ other.place.stop = token.place.start) := by
    intro token member
    obtain ⟨before, inside, after, whole, segment, preceded⟩ := segments.segment_of_mem member
    have place := segment.place (List.mem_singleton_self token)
    refine ⟨before, inside, after, ⟨whole, ?_, ?_⟩, segment, preceded⟩
    · rw [place, Nat.zero_add]
    · rw [place]
  refine ⟨fun token member => ?_, segments.ordered, fun before c after whole outside => ?_,
    fun token member literal => ?_, fun token member plain => ?_⟩
  · obtain ⟨here, covers⟩ := (Lexer.reads_ofText file text).covers read member
    exact ⟨here, covers.spans⟩
  · refine segments.blank_outside whole ?_
    rwa [Nat.zero_add]
  · obtain ⟨before, inside, after, divided, segment, -⟩ := divides token member
    cases segment with
    | word =>
      rw [Lexeme.isString_ofWord] at literal
      cases literal
    | @string spelling contents rest spells => exact ⟨before, spelling, after, divided⟩
  · obtain ⟨before, inside, after, divided, segment, preceded⟩ := divides token member
    cases segment with
    | string => cases plain
    | word some quoted unbroken ends =>
      exact ⟨before, inside, after, divided, Lexeme.contents_ofWord inside, unbroken, ends, preceded plain,
        Lexeme.classifies_ofWord inside⟩

/-- The tokens of a text with a literal right before a word, and a word with quotes in it. -/
def gluedTokens : List Token :=
  [⟨.string "a\"é", ⟨0, 0, 7⟩⟩, ⟨.word "b", ⟨0, 7, 8⟩⟩, ⟨.number "1.5", ⟨0, 9, 12⟩⟩, ⟨.keyword .if_, ⟨0, 13, 15⟩⟩,
    ⟨.word "x\"y\"", ⟨0, 16, 20⟩⟩]

theorem gluedTokens_partition :
    Token.ofText 0 "\"a\\\"é\"b 1.5 if x\"y\"" = .ok gluedTokens ∧
    Token.Partition 0 "\"a\\\"é\"b 1.5 if x\"y\"" gluedTokens := by
  have read : Token.ofText 0 "\"a\\\"é\"b 1.5 if x\"y\"" = .ok gluedTokens := by cbv
  exact ⟨read, tokens_partition_text read⟩

end TapeMachine
