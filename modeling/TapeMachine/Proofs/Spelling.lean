import Mathlib.Data.String.Basic
import TapeMachine.Token.Lexer

namespace TapeMachine

open String (utf8Len)

namespace Lexer

/-- What stands between the quotes of a literal, and the characters that it spells. -/
inductive Spells : List Char → List Char → Prop
  | nil : Spells [] []
  | plain {c : Char} {spelling contents : List Char} : c ≠ '"' → c ≠ '\\' → Spells spelling contents →
      Spells (c :: spelling) (c :: contents)
  | escape {c meant : Char} {spelling contents : List Char} : escaped? c = some meant → Spells spelling contents →
      Spells ('\\' :: c :: spelling) (meant :: contents)
  | hex {high low : Char} {byte : Nat} {spelling contents : List Char} : hexByte? [high, low] = some byte →
      Spells spelling contents → Spells ('\\' :: 'x' :: high :: low :: spelling) (Char.ofNat byte :: contents)

/-- How a literal goes wrong that begins at `start`: `rest` is the text from `offset` on, which lies inside the literal.
Either the text has ended, and the literal with it, or else an escape begins here that is none. -/
inductive Astray (file start offset : Nat) : (rest : List Char) → Failure → Prop
  | unclosed : Astray file start offset [] ⟨.stringNotClosed, some ⟨file, start, offset⟩⟩
  | unclosedHex {digit : Char} : (hexByte? [digit]).isSome →
      Astray file start offset ['\\', 'x', digit]
        ⟨.stringNotClosed, some ⟨file, start, offset + utf8Len ['\\', 'x', digit]⟩⟩
  | backslash : Astray file start offset ['\\'] ⟨.stringNotClosed, some ⟨file, offset, offset + utf8Len ['\\']⟩⟩
  | shortHex {digits : List Char} : digits.length < 2 → hexByte? digits = none →
      Astray file start offset ('\\' :: 'x' :: digits)
        ⟨.badHexByte digits, some ⟨file, offset, offset + utf8Len ('\\' :: 'x' :: digits)⟩⟩
  | unknown {c : Char} {rest : List Char} : c ≠ 'x' → escaped? c = none →
      Astray file start offset ('\\' :: c :: rest)
        ⟨.unknownEscape c, some ⟨file, offset, offset + utf8Len ['\\', c]⟩⟩
  | badHex {high low : Char} {rest : List Char} : hexByte? [high, low] = none →
      Astray file start offset ('\\' :: 'x' :: high :: low :: rest)
        ⟨.badHexByte [high, low], some ⟨file, offset, offset + utf8Len ['\\', 'x', high, low]⟩⟩

/-- The tokens of a text that begins at `offset`, or why it has none: blanks divide words, which go as far as they can,
and a quote that begins no word begins a literal. -/
inductive Reads (file : Nat) : (offset : Nat) → (text : List Char) → Except Failure (List Token) → Prop
  | nil {offset : Nat} : Reads file offset [] (.ok [])
  | blank {offset : Nat} {c : Char} {rest : List Char} {outcome : Except Failure (List Token)} : isBlank c = true →
      Reads file (offset + c.utf8Size) rest outcome → Reads file offset (c :: rest) outcome
  | word {offset : Nat} {word rest : List Char} {outcome : Except Failure (List Token)} : word ≠ [] →
      word.head? ≠ some '"' → (∀ c ∈ word, isBlank c = false) → (∀ c ∈ rest.head?, isBlank c = true) →
      Reads file (offset + utf8Len word) rest outcome →
      Reads file offset (word ++ rest)
        (outcome.map (⟨Lexeme.ofWord word, ⟨file, offset, offset + utf8Len word⟩⟩ :: ·))
  | string {offset : Nat} {spelling contents rest : List Char} {outcome : Except Failure (List Token)} :
      Spells spelling contents → Reads file (offset + utf8Len spelling + 2) rest outcome →
      Reads file offset ('"' :: spelling ++ '"' :: rest)
        (outcome.map (⟨.string (String.ofList contents), ⟨file, offset, offset + utf8Len spelling + 2⟩⟩ :: ·))
  | astray {offset : Nat} {spelling contents rest : List Char} {failure : Failure} : Spells spelling contents →
      Astray file offset (offset + 1 + utf8Len spelling) rest failure →
      Reads file offset ('"' :: spelling ++ rest) (.error failure)

section

variable {file offset start : Nat} {read : List Char} {found : List Token}

/-- A word goes on to the next blank, and the text behind it is read on. -/
theorem scan_word (file offset start : Nat) (read : List Char) (found : List Token) (text : List Char) :
    ∃ word rest, text = word ++ rest ∧ (∀ c ∈ word, isBlank c = false) ∧ (∀ c ∈ rest.head?, isBlank c = true) ∧
      scan file offset (.word start read) found text =
        scan file (offset + utf8Len word) .blank
          (wordToken file start (offset + utf8Len word) (word.reverse ++ read) :: found) rest := by
  induction text generalizing offset read with
  | nil => exact ⟨[], [], rfl, by simp, by simp, rfl⟩
  | cons c rest ih =>
    by_cases blank : isBlank c = true
    · exact ⟨[], c :: rest, rfl, by simp, by simpa using blank, by simp [scan, step, blank]⟩
    · obtain ⟨word, behind, rfl, unbroken, ends, reads⟩ := ih (offset + c.utf8Size) (c :: read)
      have size : offset + c.utf8Size + utf8Len word = offset + utf8Len (c :: word) := by
        rw [String.utf8Len_cons]
        omega
      refine ⟨c :: word, behind, rfl, by simpa [blank] using unbroken, ends, ?_⟩
      rw [size] at reads
      simpa [scan, step, blank] using reads

theorem scan_plain {c : Char} {rest : List Char} (quote : c ≠ '"') (backslash : c ≠ '\\') :
    scan file offset (.string start read) found ([c] ++ rest) =
      scan file (offset + utf8Len [c]) (.string start (c :: read)) found rest := by
  simp [scan, step, quote, backslash]

theorem add_utf8Len_escape (offset : Nat) (c : Char) :
    offset + utf8Len ['\\', c] = offset + '\\'.utf8Size + c.utf8Size := by
  simp only [String.utf8Len_cons, String.utf8Len_nil]
  omega

theorem add_utf8Len_hex (offset : Nat) (high low : Char) :
    offset + utf8Len ['\\', 'x', high, low] =
      offset + '\\'.utf8Size + 'x'.utf8Size + high.utf8Size + low.utf8Size := by
  simp only [String.utf8Len_cons, String.utf8Len_nil]
  omega

theorem scan_escape {c meant : Char} {rest : List Char} (meaning : escaped? c = some meant) :
    scan file offset (.string start read) found (['\\', c] ++ rest) =
      scan file (offset + utf8Len ['\\', c]) (.string start (meant :: read)) found rest := by
  have hex : c ≠ 'x' := by
    rintro rfl
    have none : escaped? 'x' = none := by decide
    cases none.symm.trans meaning
  rw [add_utf8Len_escape]
  simp [scan, step, meaning, hex]

theorem scan_hex {high low : Char} {byte : Nat} {rest : List Char} (meaning : hexByte? [high, low] = some byte) :
    scan file offset (.string start read) found (['\\', 'x', high, low] ++ rest) =
      scan file (offset + utf8Len ['\\', 'x', high, low]) (.string start (Char.ofNat byte :: read)) found rest := by
  rw [add_utf8Len_hex]
  simp [scan, step, meaning]

/-- What becomes of a literal of which `read` has been read: it is closed, and the text behind it is read on, or it goes
astray. -/
inductive Literal (file offset start : Nat) (read : List Char) (found : List Token) : (text : List Char) → Prop
  | closed {spelling contents rest : List Char} : Spells spelling contents →
      scan file offset (.string start read) found (spelling ++ '"' :: rest) =
        scan file (offset + utf8Len spelling + 1) .blank
          (stringToken file start (offset + utf8Len spelling + 1) (contents.reverse ++ read) :: found) rest →
      Literal file offset start read found (spelling ++ '"' :: rest)
  | astray {spelling contents rest : List Char} {failure : Failure} : Spells spelling contents →
      Astray file start (offset + utf8Len spelling) rest failure →
      scan file offset (.string start read) found (spelling ++ rest) = .error failure →
      Literal file offset start read found (spelling ++ rest)

theorem Literal.of_astray {text : List Char} {failure : Failure} (astray : Astray file start offset text failure)
    (fails : scan file offset (.string start read) found text = .error failure) :
    Literal file offset start read found text :=
  @Literal.astray file offset start read found [] [] text failure .nil astray fails

/-- One more character is spelled before the rest of a literal. -/
theorem Literal.prepend {piece rest : List Char} {meant : Char}
    (spells : ∀ spelling contents, Spells spelling contents → Spells (piece ++ spelling) (meant :: contents))
    (reads : scan file offset (.string start read) found (piece ++ rest) =
      scan file (offset + utf8Len piece) (.string start (meant :: read)) found rest)
    (later : Literal file (offset + utf8Len piece) start (meant :: read) found rest) :
    Literal file offset start read found (piece ++ rest) := by
  cases later with
  | @closed spelling contents behind spelled closes =>
    rw [← List.append_assoc] at reads ⊢
    refine .closed (spells _ _ spelled) ?_
    rw [reads, closes]
    simp [Nat.add_assoc]
  | @astray spelling contents wrong failure spelled astray fails =>
    rw [← List.append_assoc] at reads ⊢
    refine .astray (spells _ _ spelled) ?_ (reads.trans fails)
    simpa [Nat.add_assoc] using astray

/-- A literal whose next characters are a backslash and `more`. -/
theorem literal_escape {more : List Char}
    (inside : ∀ offset read rest, rest.length < more.length → Literal file offset start read found rest) :
    Literal file offset start read found ('\\' :: more) := by
  match more with
  | [] => exact .of_astray .backslash rfl
  | c :: rest =>
    by_cases hex : c = 'x'
    · subst hex
      match rest with
      | [] => exact .of_astray (.shortHex (by simp) rfl) rfl
      | [digit] =>
        have size : offset + utf8Len ['\\', 'x', digit] = offset + '\\'.utf8Size + 'x'.utf8Size + digit.utf8Size := by
          simp only [String.utf8Len_cons, String.utf8Len_nil]
          omega
        by_cases byte : (hexByte? [digit]).isSome = true
        · refine .of_astray (.unclosedHex byte) ?_
          rw [size]
          simp [scan, step, finish, byte, fail]
        · have none : hexByte? [digit] = none := by simpa using byte
          refine .of_astray (.shortHex (by simp) none) ?_
          rw [size]
          simp [scan, step, finish, none, fail]
      | high :: low :: behind =>
        cases byte : hexByte? [high, low] with
        | none =>
          refine .of_astray (.badHex byte) ?_
          rw [add_utf8Len_hex]
          simp [scan, step, byte, fail]
        | some meant =>
          exact Literal.prepend (fun _ _ spelled => .hex byte spelled) (scan_hex byte)
            (inside _ _ _ (by simp; omega))
    · cases meaning : escaped? c with
      | none =>
        refine .of_astray (.unknown hex meaning) ?_
        rw [add_utf8Len_escape]
        simp [scan, step, meaning, hex, fail]
      | some meant =>
        exact Literal.prepend (fun _ _ spelled => .escape meaning spelled) (scan_escape meaning)
          (inside _ _ _ (by simp))

theorem literal (file offset start : Nat) (read : List Char) (found : List Token) (text : List Char) :
    Literal file offset start read found text := by
  match text with
  | [] => exact .of_astray .unclosed rfl
  | c :: rest =>
    by_cases quote : c = '"'
    · subst quote
      exact @Literal.closed file offset start read found [] [] rest .nil rfl
    · by_cases backslash : c = '\\'
      · subst backslash
        exact literal_escape fun offset read behind shorter => literal file offset start read found behind
      · exact Literal.prepend (fun _ _ spelled => .plain quote backslash spelled) (scan_plain quote backslash)
          (literal ..)
termination_by text.length
decreasing_by all_goals (simp only [List.length_cons]; omega)

theorem map_cons_append (outcome : Except Failure (List Token)) (token : Token) (found : List Token) :
    outcome.map ((token :: found).reverse ++ ·) = (outcome.map (token :: ·)).map (found.reverse ++ ·) := by
  cases outcome with
  | error failure => rfl
  | ok tokens => simp [Except.map]

/-- The lexer finds the tokens that there are to be read, behind those it has found before. -/
theorem reads_scan (file offset : Nat) (found : List Token) (text : List Char) :
    ∃ outcome, Reads file offset text outcome ∧
      scan file offset .blank found text = outcome.map (found.reverse ++ ·) := by
  match text with
  | [] => exact ⟨.ok [], .nil, by simp [scan, finish, Except.map]⟩
  | c :: rest =>
    by_cases blank : isBlank c = true
    · obtain ⟨outcome, reads, scanned⟩ := reads_scan file (offset + c.utf8Size) found rest
      refine ⟨outcome, .blank blank reads, ?_⟩
      rw [← scanned]
      simp [scan, step, blank]
    · by_cases quote : c = '"'
      · subst quote
        have opened : scan file offset .blank found ('"' :: rest) =
            scan file (offset + 1) (.string offset []) found rest := by
          simp [scan, step, blank]
          rfl
        cases literal file (offset + 1) offset [] found rest with
        | @closed spelling contents behind spelled closes =>
          have stop : offset + 1 + utf8Len spelling + 1 = offset + utf8Len spelling + 2 := by omega
          rw [stop] at closes
          obtain ⟨outcome, reads, scanned⟩ := reads_scan file (offset + utf8Len spelling + 2)
            (stringToken file offset (offset + utf8Len spelling + 2) (contents.reverse ++ []) :: found) behind
          refine ⟨_, .string spelled reads, ?_⟩
          rw [opened, closes, scanned, map_cons_append]
          simp [stringToken]
        | @astray spelling contents wrong failure spelled astray fails =>
          refine ⟨_, .astray spelled astray, ?_⟩
          rw [opened, fails]
          rfl
      · have opened : scan file offset .blank found (c :: rest) =
            scan file (offset + c.utf8Size) (.word offset [c]) found rest := by
          simp [scan, step, blank, quote]
        obtain ⟨word, behind, rfl, unbroken, ends, closes⟩ :=
          scan_word file (offset + c.utf8Size) offset [c] found rest
        have stop : offset + c.utf8Size + utf8Len word = offset + utf8Len (c :: word) := by
          rw [String.utf8Len_cons]
          omega
        rw [stop] at closes
        obtain ⟨outcome, reads, scanned⟩ := reads_scan file (offset + utf8Len (c :: word))
          (wordToken file offset (offset + utf8Len (c :: word)) (word.reverse ++ [c]) :: found) behind
        have plain : ∀ d ∈ c :: word, isBlank d = false := by simpa [blank] using unbroken
        refine ⟨_, .word (List.cons_ne_nil c word) (by simpa using quote) plain ends reads, ?_⟩
        rw [opened, closes, scanned, map_cons_append]
        simp [wordToken]
termination_by text.length

/-- Every text is read as it is spelled. -/
theorem reads_ofText (file : Nat) (text : String) : Reads file 0 text.toList (Token.ofText file text) := by
  obtain ⟨outcome, reads, scanned⟩ := reads_scan file 0 [] text.toList
  have same : Token.ofText file text = outcome := by
    rw [Token.ofText, scanned]
    cases outcome <;> rfl
  rwa [same]

end

end Lexer

namespace Location

variable {place : Location} {offset : Nat} {text : List Char}

/-- The place covers whole characters of a text that begins at `offset`, and at least one. -/
def Covers (place : Location) (offset : Nat) (text : List Char) : Prop :=
  ∃ before inside after, text = before ++ inside ++ after ∧ inside ≠ [] ∧ place.start = offset + utf8Len before ∧
    place.stop = place.start + utf8Len inside

theorem Covers.behind {first : List Char} (covers : place.Covers (offset + utf8Len first) text) :
    place.Covers offset (first ++ text) := by
  obtain ⟨before, inside, after, rfl, some, start, stop⟩ := covers
  refine ⟨first ++ before, inside, after, by simp, some, ?_, stop⟩
  rw [start, String.utf8Len_append, Nat.add_assoc]

theorem covers_front {inside : List Char} (some : inside ≠ []) (file offset : Nat) (after : List Char) :
    Covers ⟨file, offset, offset + utf8Len inside⟩ offset (inside ++ after) :=
  ⟨[], inside, after, rfl, some, rfl, rfl⟩

/-- Such a place ends behind its beginning and inside the text, and it divides no character. -/
theorem Covers.spans {text : String} (covers : place.Covers 0 text.toList) :
    place.start < place.stop ∧ place.stop ≤ text.utf8ByteSize ∧ String.Pos.Raw.IsValid text ⟨place.start⟩ ∧
      String.Pos.Raw.IsValid text ⟨place.stop⟩ := by
  obtain ⟨before, inside, after, whole, some, start, stop⟩ := covers
  have text_eq : text = String.ofList (before ++ inside ++ after) := by rw [← whole, String.ofList_toList]
  have positive : 0 < utf8Len inside := by
    rw [Nat.pos_iff_ne_zero]
    exact fun zero => some (String.utf8Len_eq_zero.1 zero)
  refine ⟨by omega, ?_, ?_, ?_⟩
  · rw [text_eq, String.utf8ByteSize_ofList, String.utf8Len_append, String.utf8Len_append]
    omega
  · refine String.Pos.Raw.isValid_iff_exists_append.2
      ⟨String.ofList before, String.ofList (inside ++ after), ?_, ?_⟩
    · rw [text_eq, ← String.ofList_append, List.append_assoc]
    · rw [String.rawEndPos_ofList, start, Nat.zero_add]
  · refine String.Pos.Raw.isValid_iff_exists_append.2
      ⟨String.ofList (before ++ inside), String.ofList after, ?_, ?_⟩
    · rw [text_eq, ← String.ofList_append]
    · rw [String.rawEndPos_ofList, stop, start, String.utf8Len_append, Nat.zero_add]

end Location

namespace Lexer

variable {file offset : Nat} {text : List Char} {outcome : Except Failure (List Token)}

theorem utf8Len_singleton (c : Char) : utf8Len [c] = c.utf8Size := by
  simp

theorem utf8Len_quoted (spelling : List Char) : utf8Len ('"' :: spelling ++ ['"']) = utf8Len spelling + 2 := by
  rw [String.utf8Len_append, String.utf8Len_cons]
  rfl

/-- Every token stands where its place says. -/
theorem Reads.covers (reads : Reads file offset text outcome) {tokens : List Token} (ok : outcome = .ok tokens)
    {token : Token} (member : token ∈ tokens) : token.place.file = file ∧ token.place.Covers offset text := by
  induction reads generalizing tokens with
  | nil =>
    cases ok
    cases member
  | @blank offset c rest outcome _ _ ih =>
    obtain ⟨here, covers⟩ := ih ok member
    rw [← utf8Len_singleton c] at covers
    exact ⟨here, covers.behind⟩
  | @word offset word rest outcome some _ _ _ _ ih =>
    cases outcome with
    | error => cases ok
    | ok later =>
      cases ok
      rcases List.mem_cons.1 member with rfl | member
      · exact ⟨rfl, Location.covers_front some file offset rest⟩
      · obtain ⟨here, covers⟩ := ih rfl member
        exact ⟨here, covers.behind⟩
  | @string offset spelling contents rest outcome _ _ ih =>
    have split : '"' :: spelling ++ '"' :: rest = ('"' :: spelling ++ ['"']) ++ rest := by simp
    rw [split]
    cases outcome with
    | error => cases ok
    | ok later =>
      cases ok
      rcases List.mem_cons.1 member with rfl | member
      · have front := Location.covers_front (List.cons_ne_nil '"' (spelling ++ ['"'])) file offset rest
        rw [← List.cons_append, utf8Len_quoted] at front
        exact ⟨rfl, front⟩
      · obtain ⟨here, covers⟩ := ih rfl member
        rw [Nat.add_assoc, ← utf8Len_quoted] at covers
        exact ⟨here, covers.behind⟩
  | astray => cases ok

/-- A literal of the text goes wrong, for the reason and at the place that the failure gives. -/
def GoesAstray (file offset : Nat) (text : List Char) (failure : Failure) : Prop :=
  ∃ before spelling contents rest, text = before ++ ('"' :: spelling ++ rest) ∧ Spells spelling contents ∧
    Astray file (offset + utf8Len before) (offset + utf8Len before + 1 + utf8Len spelling) rest failure

theorem GoesAstray.behind {first : List Char} {failure : Failure}
    (astray : GoesAstray file (offset + utf8Len first) text failure) :
    GoesAstray file offset (first ++ text) failure := by
  obtain ⟨before, spelling, contents, rest, rfl, spells, wrong⟩ := astray
  refine ⟨first ++ before, spelling, contents, rest, by simp, spells, ?_⟩
  rwa [String.utf8Len_append, ← Nat.add_assoc]

theorem Reads.goesAstray (reads : Reads file offset text outcome) {failure : Failure}
    (failed : outcome = .error failure) : GoesAstray file offset text failure := by
  induction reads with
  | nil => cases failed
  | @blank offset c rest outcome _ _ ih =>
    have astray := ih failed
    rw [← utf8Len_singleton c] at astray
    exact astray.behind
  | @word offset word rest outcome _ _ _ _ _ ih =>
    cases outcome with
    | error =>
      cases failed
      exact (ih rfl).behind
    | ok => cases failed
  | @string offset spelling contents rest outcome _ _ ih =>
    have split : '"' :: spelling ++ '"' :: rest = ('"' :: spelling ++ ['"']) ++ rest := by simp
    rw [split]
    cases outcome with
    | error =>
      cases failed
      have astray := ih rfl
      rw [Nat.add_assoc, ← utf8Len_quoted] at astray
      exact astray.behind
    | ok => cases failed
  | @astray offset spelling contents rest failure spells wrong =>
    cases failed
    exact ⟨[], spelling, contents, rest, rfl, spells, wrong⟩

/-- The place of such a failure lies inside the text. -/
theorem GoesAstray.covers {failure : Failure} (astray : GoesAstray file offset text failure) :
    ∃ place, failure.place = some place ∧ place.file = file ∧ place.Covers offset text := by
  obtain ⟨before, spelling, contents, rest, rfl, -, wrong⟩ := astray
  generalize start_eq : offset + utf8Len before = start at wrong
  have opened : start + 1 + utf8Len spelling = start + utf8Len ('"' :: spelling) := by
    rw [String.utf8Len_cons, Nat.add_comm (utf8Len spelling)]
    exact Nat.add_assoc ..
  rw [opened] at wrong
  have literal : ∀ inside after, rest = inside ++ after →
      Location.Covers ⟨file, start, start + utf8Len ('"' :: spelling) + utf8Len inside⟩ offset
        (before ++ ('"' :: spelling ++ rest)) := by
    rintro inside after rfl
    have front := Location.covers_front (List.cons_ne_nil '"' (spelling ++ inside)) file start after
    rw [← List.cons_append, String.utf8Len_append, ← Nat.add_assoc, List.append_assoc, ← start_eq] at front
    rw [← start_eq]
    exact front.behind
  have escape : ∀ inside after, inside ≠ [] → rest = inside ++ after →
      Location.Covers ⟨file, start + utf8Len ('"' :: spelling), start + utf8Len ('"' :: spelling) + utf8Len inside⟩
        offset (before ++ ('"' :: spelling ++ rest)) := by
    rintro inside after some rfl
    have front := Location.covers_front some file (start + utf8Len ('"' :: spelling)) after
    have behind := front.behind
    rw [← start_eq] at behind ⊢
    exact behind.behind
  cases wrong with
  | unclosed => exact ⟨_, rfl, rfl, literal [] [] rfl⟩
  | unclosedHex => exact ⟨_, rfl, rfl, literal _ [] rfl⟩
  | backslash => exact ⟨_, rfl, rfl, escape _ [] (by simp) rfl⟩
  | shortHex => exact ⟨_, rfl, rfl, escape _ [] (by simp) (by simp)⟩
  | @unknown c rest => exact ⟨_, rfl, rfl, escape ['\\', c] rest (by simp) rfl⟩
  | @badHex high low rest => exact ⟨_, rfl, rfl, escape ['\\', 'x', high, low] rest (by simp) rfl⟩

end Lexer

end TapeMachine
