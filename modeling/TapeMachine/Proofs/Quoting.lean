import Mathlib
import TapeMachine.Proofs.Partition

namespace TapeMachine

open String (utf8Len)

namespace Lexer

variable {file offset start : Nat} {text first rest word gap : List Char} {read : List Char}
variable {tokens now found : List Token}

/-- One more character is spelled before what a literal spells. -/
theorem scan_prepend {piece spelling contents : List Char} {meant : Char}
    (reads : scan file offset (.string start read) found (piece ++ (spelling ++ rest)) =
      scan file (offset + utf8Len piece) (.string start (meant :: read)) found (spelling ++ rest))
    (later : scan file (offset + utf8Len piece) (.string start (meant :: read)) found (spelling ++ rest) =
      scan file (offset + utf8Len piece + utf8Len spelling) (.string start (contents.reverse ++ meant :: read)) found
        rest) :
    scan file offset (.string start read) found (piece ++ spelling ++ rest) =
      scan file (offset + utf8Len (piece ++ spelling)) (.string start ((meant :: contents).reverse ++ read)) found
        rest := by
  rw [List.append_assoc, reads, later, Nat.add_assoc, ← String.utf8Len_append, List.reverse_cons, List.append_assoc,
    List.singleton_append]

/-- What a literal spells is read, and the text behind it is read on. -/
theorem scan_spells {spelling contents : List Char} (spells : Spells spelling contents) :
    scan file offset (.string start read) found (spelling ++ rest) =
      scan file (offset + utf8Len spelling) (.string start (contents.reverse ++ read)) found rest := by
  induction spells generalizing offset read with
  | nil => rfl
  | plain quote backslash _ ih => exact scan_prepend (scan_plain quote backslash) ih
  | escape meaning _ ih => exact scan_prepend (scan_escape meaning) ih
  | hex meaning _ ih => exact scan_prepend (scan_hex meaning) ih

theorem scan_unbroken (unbroken : ∀ c ∈ word, isBlank c = false) :
    scan file offset (.word start read) found (word ++ rest) =
      scan file (offset + utf8Len word) (.word start (word.reverse ++ read)) found rest := by
  induction word generalizing offset read with
  | nil => rfl
  | cons c word ih =>
    have plain : isBlank c = false := unbroken c (by simp)
    have reads : scan file offset (.word start read) found (c :: (word ++ rest)) =
        scan file (offset + utf8Len [c]) (.word start (c :: read)) found (word ++ rest) := by
      simp [scan, step, plain]
    rw [List.cons_append, reads, ih fun d member => unbroken d (List.mem_cons_of_mem c member), Nat.add_assoc,
      ← String.utf8Len_append]
    simp

/-- A word is complete where a blank comes, or nothing. -/
theorem scan_ends (ends : ∀ c ∈ rest.head?, isBlank c = true) :
    scan file offset (.word start read) found rest =
      scan file offset .blank (wordToken file start offset read :: found) rest := by
  cases rest with
  | nil => simp [scan, finish]
  | cons c rest =>
    have blank := ends c rfl
    simp [scan, step, blank]

/-- A segment is read, and its tokens are found. -/
theorem Segment.scan (segment : Segment file offset first rest now) :
    scan file offset .blank found (first ++ rest) =
      scan file (offset + utf8Len first) .blank (now.reverse ++ found) rest := by
  cases segment with
  | @blank c rest blank => simp [Lexer.scan, step, blank]
  | word some quoted unbroken ends =>
    obtain ⟨c, word, rfl⟩ := List.exists_cons_of_ne_nil some
    have plain : isBlank c = false := unbroken c (by simp)
    have quote : c ≠ '"' := by simpa using quoted
    have opened : Lexer.scan file offset .blank found (c :: (word ++ rest)) =
        Lexer.scan file (offset + utf8Len [c]) (.word offset [c]) found (word ++ rest) := by
      simp [Lexer.scan, step, plain, quote]
    rw [List.cons_append, opened, scan_unbroken fun d member => unbroken d (List.mem_cons_of_mem c member),
      scan_ends ends, Nat.add_assoc, ← String.utf8Len_append]
    simp [wordToken]
  | @string spelling contents rest spells =>
    have opened : Lexer.scan file offset .blank found ('"' :: (spelling ++ '"' :: rest)) =
        Lexer.scan file (offset + 1) (.string offset []) found (spelling ++ '"' :: rest) := by
      rfl
    have closed : Lexer.scan file (offset + 1 + utf8Len spelling) (.string offset (contents.reverse ++ [])) found
          ('"' :: rest) =
        Lexer.scan file (offset + 1 + utf8Len spelling + 1) .blank
          (stringToken file offset (offset + 1 + utf8Len spelling + 1) (contents.reverse ++ []) :: found) rest := by
      rfl
    have stop : offset + 1 + utf8Len spelling + 1 = offset + utf8Len ('"' :: spelling ++ ['"']) := by
      rw [utf8Len_quoted]
      omega
    rw [List.append_assoc, List.singleton_append, List.cons_append, opened, scan_spells spells, closed, stop]
    simp [stringToken]

theorem Segments.scan (segments : Segments file offset text tokens) (found : List Token) :
    scan file offset .blank found text = .ok (found.reverse ++ tokens) := by
  induction segments generalizing found with
  | nil => simp [Lexer.scan, finish]
  | cons segment _ ih =>
    rw [segment.scan, ih]
    simp

/-- The tokens of a text are those of the segments it falls into. -/
theorem ofText_iff_segments {text : String} :
    Token.ofText file text = .ok tokens ↔ Segments file 0 text.toList tokens :=
  ⟨segments_ofText, fun segments => segments.scan []⟩

theorem segments_of_blanks (blanks : ∀ c ∈ gap, isBlank c = true)
    (segments : Segments file (offset + utf8Len gap) rest tokens) : Segments file offset (gap ++ rest) tokens := by
  induction gap generalizing offset with
  | nil => exact segments
  | cons c gap ih =>
    have blank := blanks c (by simp)
    refine .cons (.blank blank) (ih (fun d member => blanks d (List.mem_cons_of_mem c member)) ?_)
    rwa [Nat.add_assoc, ← String.utf8Len_append]

end Lexer

/-- A word as it stands, or the contents of a literal. -/
inductive Chunk
  | word (name : String)
  | string (contents : String)

namespace Chunk

def contents : Chunk → String
  | word name => name
  | string contents => contents

def isString : Chunk → Bool
  | word _ => false
  | string _ => true

/-- A backslash comes before quotes and before backslashes. -/
def quoted (c : Char) : List Char :=
  if c = '"' ∨ c = '\\' then ['\\', c] else [c]

/-- A word is written as it is, and the contents of a literal between quotes. -/
def text : Chunk → String
  | word name => name
  | string contents => String.ofList ('"' :: contents.toList.flatMap quoted ++ ['"'])

/-- A word has characters, of which none is a blank and the first is no quote. -/
def Proper : Chunk → Prop
  | word name => name ≠ "" ∧ (∀ c ∈ name.toList, isBlank c = false) ∧ name.toList.head? ≠ some '"'
  | string _ => True

theorem spells_quoted (contents : List Char) : Lexer.Spells (contents.flatMap quoted) contents := by
  induction contents with
  | nil => exact .nil
  | cons c contents ih =>
    by_cases special : c = '"' ∨ c = '\\'
    · have meaning : Lexer.escaped? c = some c := by
        rcases special with rfl | rfl <;> decide
      rw [List.flatMap_cons, quoted, if_pos special]
      exact .escape meaning ih
    · obtain ⟨quote, backslash⟩ := not_or.1 special
      rw [List.flatMap_cons, quoted, if_neg special]
      exact .plain quote backslash ih

/-- A chunk before a blank or the end of the text is a segment with one token, which has the contents of the chunk. -/
theorem Proper.segment {chunk : Chunk} (proper : chunk.Proper) (file offset : Nat) {rest : List Char}
    (ends : ∀ c ∈ rest.head?, isBlank c = true) :
    ∃ token, Lexer.Segment file offset chunk.text.toList rest [token] ∧ token.lexeme.contents = chunk.contents ∧
      token.lexeme.isString = chunk.isString := by
  cases chunk with
  | word name =>
    obtain ⟨some, unbroken, quote⟩ := proper
    have more : name.toList ≠ [] := by simpa using some
    refine ⟨_, .word more quote unbroken ends, ?_, Lexeme.isString_ofWord _⟩
    rw [Lexeme.contents_ofWord, text, String.ofList_toList]
    rfl
  | string contents =>
    rw [text, String.toList_ofList]
    refine ⟨_, .string (spells_quoted contents.toList), ?_, rfl⟩
    exact String.ofList_toList

end Chunk

/-- Chunks with gaps between them: one before the first chunk, and one behind each chunk. -/
structure Layout where
  front : String
  parts : List (Chunk × String)

namespace Layout

/-- The text of chunks and the gaps behind them. -/
def textOf (parts : List (Chunk × String)) : String :=
  String.join (parts.map fun part => part.1.text ++ part.2)

def text (layout : Layout) : String :=
  layout.front ++ textOf layout.parts

/-- The gaps are blank, and there is something in each gap between two chunks. -/
structure Proper (layout : Layout) : Prop where
  front : ∀ c ∈ layout.front.toList, isBlank c = true
  chunks : ∀ part ∈ layout.parts, part.1.Proper
  gaps : ∀ part ∈ layout.parts, ∀ c ∈ part.2.toList, isBlank c = true
  apart : ∀ part ∈ layout.parts.dropLast, part.2 ≠ ""

theorem toList_textOf_cons (part : Chunk × String) (parts : List (Chunk × String)) :
    (textOf (part :: parts)).toList = part.1.text.toList ++ (part.2.toList ++ (textOf parts).toList) := by
  simp [textOf]

/-- Chunks with proper gaps fall into segments, one token for each chunk. -/
theorem segments_parts (file offset : Nat) {parts : List (Chunk × String)} (chunks : ∀ part ∈ parts, part.1.Proper)
    (gaps : ∀ part ∈ parts, ∀ c ∈ part.2.toList, isBlank c = true) (apart : ∀ part ∈ parts.dropLast, part.2 ≠ "") :
    ∃ tokens, Lexer.Segments file offset (textOf parts).toList tokens ∧
      List.Forall₂ (fun part token => token.lexeme.contents = part.1.contents ∧
        token.lexeme.isString = part.1.isString) parts tokens := by
  induction parts generalizing offset with
  | nil => exact ⟨[], .nil, .nil⟩
  | cons part parts ih =>
    have blanks := gaps part List.mem_cons_self
    have kept : ∀ other ∈ parts.dropLast, other ∈ (part :: parts).dropLast := by
      intro other member
      rw [List.dropLast_cons_of_ne_nil (List.ne_nil_of_mem (List.mem_of_mem_dropLast member))]
      exact List.mem_cons_of_mem part member
    have ends : ∀ c ∈ (part.2.toList ++ (textOf parts).toList).head?, isBlank c = true := by
      cases gap : part.2.toList with
      | cons c gap' =>
        intro d head
        cases head
        exact blanks c (by rw [gap]; exact List.mem_cons_self)
      | nil =>
        cases parts with
        | nil => simp [textOf]
        | cons next parts =>
          have empty : part.2 = "" := by simpa using gap
          exact (apart part (by simp) empty).elim
    obtain ⟨token, segment, same⟩ := (chunks part List.mem_cons_self).segment file offset ends
    obtain ⟨tokens, segments, others⟩ := ih (offset + utf8Len part.1.text.toList + utf8Len part.2.toList)
      (fun part member => chunks part (List.mem_cons_of_mem _ member))
      (fun part member => gaps part (List.mem_cons_of_mem _ member)) (fun part member => apart part (kept part member))
    rw [toList_textOf_cons]
    exact ⟨token :: tokens, .cons segment (Lexer.segments_of_blanks blanks segments), .cons same others⟩

end Layout

/-- Words and quoted strings with blanks between them are read back: there is one token for each of them, in order, with
its contents, and strings are the tokens of strings. -/
theorem lexing_undoes_quoting (file : Nat) {layout : Layout} (proper : layout.Proper) :
    ∃ tokens, Token.ofText file layout.text = .ok tokens ∧
      List.Forall₂ (fun part token => token.lexeme.contents = part.1.contents ∧
        token.lexeme.isString = part.1.isString) layout.parts tokens := by
  obtain ⟨tokens, segments, same⟩ :=
    Layout.segments_parts file (0 + utf8Len layout.front.toList) proper.chunks proper.gaps proper.apart
  refine ⟨tokens, Lexer.ofText_iff_segments.2 ?_, same⟩
  rw [Layout.text, String.toList_append]
  exact Lexer.segments_of_blanks proper.front segments

/-- A word with a quote in it, a string that ends in a backslash, a number, and a string of two lines. -/
def mixedLayout : Layout where
  front := "\n"
  parts := [(.word "a\"", " "), (.string "\"é\"\\", "\t "), (.word "1.5", "\u3000"), (.string "x\ny", "")]

theorem mixedLayout_read :
    mixedLayout.text = "\na\" \"\\\"é\\\"\\\\\"\t 1.5\u3000\"x\ny\"" ∧ mixedLayout.Proper ∧
    ∃ tokens, Token.ofText 0 mixedLayout.text = .ok tokens ∧
      List.Forall₂ (fun part token => token.lexeme.contents = part.1.contents ∧
        token.lexeme.isString = part.1.isString) mixedLayout.parts tokens := by
  have proper : mixedLayout.Proper :=
    ⟨by simp [mixedLayout, isBlank], by simp [mixedLayout, Chunk.Proper, isBlank], by simp [mixedLayout, isBlank],
      by simp [mixedLayout]⟩
  exact ⟨by cbv, proper, lexing_undoes_quoting 0 proper⟩

end TapeMachine
