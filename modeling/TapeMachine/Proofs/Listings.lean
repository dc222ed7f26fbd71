import Mathlib
import TapeMachine.Proofs.Escaping
import TapeMachine.Proofs.Numerals
import TapeMachine.Proofs.Wording
import TapeMachine.Tape.Listing

namespace TapeMachine

namespace Decimal

variable {d e : Decimal}

theorem unsigned_ne_minus (d : Decimal) (rest : List Char) : d.unsigned ≠ '-' :: rest := by
  obtain ⟨c, more, starts⟩ := List.exists_cons_of_ne_nil d.whole_ne_nil
  have digit := d.isDigit_of_mem_whole (c := c) (by simp [starts])
  rw [unsigned, starts]
  intro same
  rw [(List.cons.inj same).1] at digit
  exact absurd digit (by decide)

/-- What is printed without the sign is read as its mantissa and its scale. -/
theorem unsigned_inj (same : d.unsigned = e.unsigned) : d.mantissa = e.mantissa ∧ d.scale = e.scale := by
  have parts : ofParts? false d.mantissa d.scale = ofParts? false e.mantissa e.scale := by
    rw [← readDigits_unsigned, ← readDigits_unsigned, same]
  rw [ofParts?, ofParts?, dif_pos ⟨d.mantissa_lt, d.scale_le⟩, dif_pos ⟨e.mantissa_lt, e.scale_le⟩] at parts
  simp only [Option.some.injEq, Decimal.mk.injEq] at parts
  exact parts.2

/-- A number is known by its digits: its sign, its mantissa and its scale. -/
theorem exact_inj (same : d.exact = e.exact) : d = e := by
  have texts := congrArg String.toList same
  rw [toList_exact, toList_exact] at texts
  have signs : d.negative = e.negative ∧ d.unsigned = e.unsigned := by
    cases sign : d.negative <;> cases sign' : e.negative <;>
      simp only [sign, sign', reduceIte, Bool.false_eq_true, List.nil_append, List.singleton_append] at texts
    · exact ⟨rfl, texts⟩
    · exact (unsigned_ne_minus d _ texts).elim
    · exact (unsigned_ne_minus e _ texts.symm).elim
    · exact ⟨rfl, (List.cons.inj texts).2⟩
  obtain ⟨mantissas, scales⟩ := unsigned_inj signs.2
  cases d
  cases e
  cases signs.1
  cases mantissas
  cases scales
  rfl

end Decimal

namespace Opcode

/-- The word that a line begins with. -/
def kind : Opcode → String
  | number _ => "number"
  | string _ => "string"
  | branch .. => "if"
  | repeats .. => "repeat"
  | loop .. => "while"
  | bind _ => "let"
  | unbind _ => "drop-let"
  | cell .. => "var"
  | dropCell => "var-drop"
  | call _ => "call"
  | enter => "fn-start"
  | define _ => "fn"
  | ret => "return"
  | imports _ => "import"
  | noop => "noop"

def addressWord (address : Nat) : List Char :=
  (toString address).toList

def arrow : List Char :=
  ['-', '>']

/-- Names between spaces. Where there are none, there is nothing between two spaces. -/
def nameWords : List String → List (List Char)
  | [] => [[]]
  | names => names.map String.toList

/-- What comes behind the first word, cut at the spaces. -/
def operands : Opcode → List (List Char)
  | number n => [n.exact.toList]
  | string text => (Quoted.encode text).toList.splitOn ' '
  | branch none stop => [arrow, addressWord stop]
  | branch (some alternative) stop => [arrow, addressWord alternative, arrow, addressWord stop]
  | repeats start stop => [addressWord start, arrow, addressWord stop]
  | loop test body stop => [addressWord test, arrow, addressWord body, arrow, addressWord stop]
  | bind names | unbind names => nameWords names
  | cell name stop => [name.toList, arrow, addressWord stop]
  | call name | imports name => [name.toList]
  | define definition =>
    definition.heading.name.toList :: nameWords definition.heading.inputs ++ [':'] ::
      nameWords definition.heading.outputs ++ [arrow, addressWord definition.start, arrow, addressWord definition.stop]
  | dropCell | enter | ret | noop => []

theorem nameWords_ne_nil (names : List String) : nameWords names ≠ [] := by
  cases names with
  | nil => simp [nameWords]
  | cons => simp [nameWords]

theorem toList_intercalate_names (names : List String) :
    (" ".intercalate names).toList = [' '].intercalate (nameWords names) := by
  rw [String.toList_intercalate]
  cases names with
  | nil => rfl
  | cons => rfl

theorem intercalate_append {first second : List (List Char)} (some : first ≠ []) (more : second ≠ []) :
    [' '].intercalate (first ++ second) = [' '].intercalate first ++ ' ' :: [' '].intercalate second := by
  induction first with
  | nil => exact absurd rfl some
  | cons word first ih =>
    by_cases last : first = []
    · subst last
      rw [List.singleton_append, List.intercalate_cons_of_ne_nil more, List.intercalate_singleton, List.append_assoc]
      rfl
    · rw [List.cons_append, List.intercalate_cons_of_ne_nil (by simp [last]), ih last,
        List.intercalate_cons_of_ne_nil last]
      simp

theorem toString_eq (text : String) : toString text = text :=
  rfl

/-- A line consists of its words. -/
theorem toList_text (opcode : Opcode) :
    opcode.text.toList = [' '].intercalate (opcode.kind.toList :: opcode.operands) := by
  cases opcode with
  | string text =>
    rw [operands, List.intercalate_cons_of_ne_nil (by simp [List.splitOn_ne_nil]), List.intercalate_splitOn]
    simp [Opcode.text, kind, toString_eq]
  | branch alternative stop =>
    cases alternative <;> simp [Opcode.text, kind, operands, arrow, addressWord, toString_eq]
  | bind names | unbind names =>
    rw [operands, List.intercalate_cons_of_ne_nil (nameWords_ne_nil names), ← toList_intercalate_names]
    simp [Opcode.text, kind]
  | define definition =>
    rw [operands, ← List.cons_append, ← List.cons_append, intercalate_append (by simp) (by simp),
      intercalate_append (by simp) (by simp),
      List.intercalate_cons_of_ne_nil (by simp), List.intercalate_cons_of_ne_nil (nameWords_ne_nil _),
      List.intercalate_cons_of_ne_nil (nameWords_ne_nil _),
      ← toList_intercalate_names, ← toList_intercalate_names]
    simp [Opcode.text, kind, arrow, addressWord, toString_eq]
  | _ => simp [Opcode.text, kind, operands, arrow, addressWord, toString_eq]

theorem solid_arrow : ∀ c ∈ arrow, isBlank c = false := by
  simp [arrow, isBlank]

theorem solid_addressWord (address : Nat) : ∀ c ∈ addressWord address, isBlank c = false := by
  intro c member
  rw [addressWord, Nat.toString_eq_ofList_toDigits, String.toList_ofList] at member
  exact solid_of_isDigit (Nat.isDigit_of_mem_toDigits (by decide) (by decide) member)

theorem solid_nameWords {names : List String} (printable : ∀ name ∈ names, IsName name) :
    ∀ word ∈ nameWords names, ∀ c ∈ word, isBlank c = false := by
  cases names with
  | nil => simp [nameWords]
  | cons first rest => exact List.forall_mem_map.2 fun name member => (printable name member).unbroken

theorem solid_kind (opcode : Opcode) : ∀ c ∈ opcode.kind.toList, isBlank c = false := by
  cases opcode <;> simp [kind] <;> decide

/-- Strings apart, the words of a printable instruction have no blanks. -/
theorem solid_operands {opcode : Opcode} (printable : opcode.Printable) (plain : ∀ text, opcode ≠ .string text) :
    ∀ word ∈ opcode.operands, ∀ c ∈ word, isBlank c = false := by
  cases opcode with
  | string text => exact (plain text rfl).elim
  | imports => exact printable.elim
  | number n => exact List.forall_mem_singleton.2 n.solid_exact
  | branch alternative stop =>
    cases alternative <;> simp only [operands, List.forall_mem_cons]
    · exact ⟨solid_arrow, solid_addressWord _, List.forall_mem_nil _⟩
    · exact ⟨solid_arrow, solid_addressWord _, solid_arrow, solid_addressWord _, List.forall_mem_nil _⟩
  | repeats =>
    simp only [operands, List.forall_mem_cons]
    exact ⟨solid_addressWord _, solid_arrow, solid_addressWord _, List.forall_mem_nil _⟩
  | loop =>
    simp only [operands, List.forall_mem_cons]
    exact ⟨solid_addressWord _, solid_arrow, solid_addressWord _, solid_arrow, solid_addressWord _,
      List.forall_mem_nil _⟩
  | bind | unbind => exact solid_nameWords printable
  | cell =>
    simp only [operands, List.forall_mem_cons]
    exact ⟨printable.unbroken, solid_arrow, solid_addressWord _, List.forall_mem_nil _⟩
  | call => exact List.forall_mem_singleton.2 printable.unbroken
  | define definition =>
    simp only [Printable, Heading.names, List.forall_mem_cons, List.forall_mem_append] at printable
    simp only [operands, List.cons_append, List.forall_mem_cons, List.forall_mem_append]
    have colon : isBlank ':' = false := by simp [isBlank]
    exact ⟨printable.1.unbroken,
      ⟨solid_nameWords printable.2.1, ⟨colon, List.forall_mem_nil _⟩, solid_nameWords printable.2.2⟩,
      solid_arrow, solid_addressWord _, solid_arrow, solid_addressWord _, List.forall_mem_nil _⟩
  | dropCell | enter | ret | noop => exact List.forall_mem_nil _

variable {opcode other : Opcode}

/-- A printable line is read word by word. -/
theorem splitOn_text (printable : opcode.Printable) :
    opcode.text.toList.splitOn ' ' = opcode.kind.toList :: opcode.operands := by
  have apart : ∀ word : List Char, (∀ c ∈ word, isBlank c = false) → ' ' ∉ word :=
    fun word solid member => absurd (solid ' ' member) (by decide)
  by_cases literal : ∃ text, opcode = .string text
  · obtain ⟨text, rfl⟩ := literal
    rw [toList_text, operands, List.intercalate_cons_of_ne_nil (by simp [List.splitOn_ne_nil]),
      List.intercalate_splitOn, List.append_assoc, List.singleton_append,
      List.splitOn_append_cons_self_of_not_mem (apart _ (solid_kind _))]
  · rw [toList_text]
    refine List.splitOn_intercalate ' ' (List.forall_mem_cons.2 ⟨apart _ (solid_kind _), ?_⟩) (by simp)
    intro word member
    exact apart word (solid_operands printable (fun text same => literal ⟨text, same⟩) word member)

theorem mem_intercalate {c : Char} {words : List (List Char)} (member : c ∈ [' '].intercalate words) :
    c = ' ' ∨ ∃ word ∈ words, c ∈ word := by
  induction words with
  | nil => simp at member
  | cons word rest ih =>
    by_cases last : rest = []
    · subst last
      rw [List.intercalate_singleton] at member
      exact .inr ⟨word, List.mem_cons_self, member⟩
    · rw [List.intercalate_cons_of_ne_nil last, List.mem_append, List.mem_append, List.mem_singleton] at member
      rcases member with (here | space) | later
      · exact .inr ⟨word, List.mem_cons_self, here⟩
      · exact .inl space
      · exact (ih later).imp_right fun ⟨word, there, inside⟩ => ⟨word, List.mem_cons_of_mem _ there, inside⟩

/-- A printable instruction takes one line. -/
theorem newline_not_mem_text (printable : opcode.Printable) : '\n' ∉ opcode.text.toList := by
  intro member
  by_cases literal : ∃ text, opcode = .string text
  · obtain ⟨text, rfl⟩ := literal
    simp only [Opcode.text, String.toList_append, toString_eq, List.mem_append] at member
    rcases member with word | quoted
    · exact absurd word (by simp)
    · exact Quoted.newline_not_mem_encodeBy _ text quoted
  · rw [toList_text] at member
    obtain space | ⟨word, there, inside⟩ := mem_intercalate member
    · exact absurd space (by decide)
    · have solid : isBlank '\n' = false := by
        rcases List.mem_cons.1 there with rfl | operand
        · exact solid_kind _ _ inside
        · exact solid_operands printable (fun text same => literal ⟨text, same⟩) word operand _ inside
      exact absurd solid (by decide)

theorem addressWord_inj {address another : Nat} (same : addressWord address = addressWord another) : address = another :=
  Nat.repr_inj.1 (String.toList_inj.1 same)

theorem nameWords_inj {names others : List String} (printable : ∀ name ∈ names, IsName name)
    (printable' : ∀ name ∈ others, IsName name) (same : nameWords names = nameWords others) : names = others := by
  cases names with
  | nil =>
    cases others with
    | nil => rfl
    | cons first rest => exact absurd (List.cons.inj same).1.symm (printable' first List.mem_cons_self).nonempty
  | cons first rest =>
    cases others with
    | nil => exact absurd (List.cons.inj same).1 (printable first List.mem_cons_self).nonempty
    | cons => exact List.map_injective_iff.2 (fun _ _ => String.toList_inj.1) same

theorem colon_not_mem_nameWords {names : List String} (printable : ∀ name ∈ names, IsName name) :
    [':'] ∉ nameWords names := by
  cases names with
  | nil => decide
  | cons first rest =>
    intro member
    obtain ⟨name, there, colon⟩ := List.mem_map.1 member
    exact (printable name there).plain (String.toList_inj.1 colon)

/-- The colon parts the inputs from the outputs, and the bounds are the last four words. -/
theorem define_inj {definition definition' : Definition} (printable : (define definition).Printable)
    (printable' : (define definition').Printable) (same : (define definition).operands = (define definition').operands) :
    definition = definition' := by
  simp only [Printable, Heading.names, List.forall_mem_cons, List.forall_mem_append] at printable printable'
  rw [operands, operands] at same
  obtain ⟨signature, bounds⟩ := List.append_inj' same (by simp only [List.length_cons])
  obtain ⟨name, types⟩ := List.cons.inj signature
  obtain ⟨inputs, outputs⟩ :=
    cut_inj (colon_not_mem_nameWords printable.2.1) (colon_not_mem_nameWords printable'.2.1) types
  simp only [List.cons.injEq, true_and, and_true] at bounds
  obtain ⟨⟨_, _, _⟩, _, _⟩ := definition
  obtain ⟨⟨_, _, _⟩, _, _⟩ := definition'
  cases String.toList_inj.1 name
  cases nameWords_inj printable.2.1 printable'.2.1 inputs
  cases nameWords_inj printable.2.2 printable'.2.2 outputs
  cases addressWord_inj bounds.1
  cases addressWord_inj bounds.2
  rfl

/-- No two instructions begin with the same word unless they are of one kind, and then it is what comes behind the word
that tells them apart. -/
theorem eq_of_operands_eq (printable : opcode.Printable) (printable' : other.Printable) (kinds : opcode.kind = other.kind)
    (same : opcode.operands = other.operands) : opcode = other := by
  cases opcode with
  | number n =>
    cases other with
    | number m => rw [Decimal.exact_inj (String.toList_inj.1 (List.singleton_inj.1 same))]
    | _ => simp [kind] at kinds
  | string text =>
    cases other with
    | string text' =>
      have quoted := congrArg (List.intercalate [' ']) same
      rw [operands, operands, List.intercalate_splitOn, List.intercalate_splitOn] at quoted
      rw [Quoted.encodeBy_inj (String.toList_inj.1 quoted)]
    | _ => simp [kind] at kinds
  | branch alternative stop =>
    cases other with
    | branch alternative' stop' =>
      cases alternative <;> cases alternative' <;>
        simp only [operands, List.cons.injEq, true_and, and_true, List.cons_ne_nil, and_false, reduceCtorEq] at same
      · rw [addressWord_inj same]
      · rw [addressWord_inj same.1, addressWord_inj same.2]
    | _ => simp [kind] at kinds
  | repeats start stop =>
    cases other with
    | repeats start' stop' =>
      simp only [operands, List.cons.injEq, true_and, and_true] at same
      rw [addressWord_inj same.1, addressWord_inj same.2]
    | _ => simp [kind] at kinds
  | loop test body stop =>
    cases other with
    | loop test' body' stop' =>
      simp only [operands, List.cons.injEq, true_and, and_true] at same
      rw [addressWord_inj same.1, addressWord_inj same.2.1, addressWord_inj same.2.2]
    | _ => simp [kind] at kinds
  | bind names =>
    cases other with
    | bind names' => rw [nameWords_inj printable printable' same]
    | _ => simp [kind] at kinds
  | unbind names =>
    cases other with
    | unbind names' => rw [nameWords_inj printable printable' same]
    | _ => simp [kind] at kinds
  | cell name stop =>
    cases other with
    | cell name' stop' =>
      simp only [operands, List.cons.injEq, true_and, and_true] at same
      rw [String.toList_inj.1 same.1, addressWord_inj same.2]
    | _ => simp [kind] at kinds
  | call name =>
    cases other with
    | call name' => rw [String.toList_inj.1 (List.singleton_inj.1 same)]
    | _ => simp [kind] at kinds
  | define definition =>
    cases other with
    | define definition' => rw [define_inj printable printable' same]
    | _ => simp [kind] at kinds
  | imports => exact printable.elim
  | dropCell | enter | ret | noop => cases other <;> first | rfl | simp [kind] at kinds

/-- An instruction is known by its line. -/
theorem text_inj (printable : opcode.Printable) (printable' : other.Printable) (same : opcode.text = other.text) :
    opcode = other := by
  have words : opcode.text.toList.splitOn ' ' = other.text.toList.splitOn ' ' := by rw [same]
  rw [splitOn_text printable, splitOn_text printable', List.cons.injEq] at words
  exact eq_of_operands_eq printable printable' (String.toList_inj.1 words.1) words.2

end Opcode

namespace Tape

/-- The lines of opcodes that stand from `start` on. -/
def printed (start : Nat) : List Opcode → List Char
  | [] => []
  | opcode :: rest =>
    Opcode.addressWord start ++ ':' :: ' ' :: (opcode.text.toList ++ '\n' :: printed (start + 1) rest)

theorem toList_listing (tape : Tape) : tape.listing.toList = printed 0 (tape.toList.map Instruction.opcode) := by
  have lines : ∀ (instructions : List Instruction) (start : Nat),
      (String.join ((instructions.zipIdx start).filterMap fun entry =>
        some s!"{entry.2}: {entry.1.opcode.text}\n")).toList = printed start (instructions.map Instruction.opcode) := by
    intro instructions
    induction instructions with
    | nil => exact fun _ => rfl
    | cons instruction rest ih =>
      intro start
      rw [List.zipIdx_cons, List.filterMap_cons, String.join_cons, String.toList_append, ih, List.map_cons, printed]
      simp [Opcode.addressWord, Opcode.toString_eq]
  exact lines tape.toList 0

variable {opcodes others : List Opcode}

/-- Printable opcodes are known by their lines. -/
theorem printed_inj (printable : ∀ opcode ∈ opcodes, opcode.Printable)
    (printable' : ∀ opcode ∈ others, opcode.Printable) {start : Nat}
    (same : printed start opcodes = printed start others) : opcodes = others := by
  induction opcodes generalizing others start with
  | nil =>
    cases others with
    | nil => rfl
    | cons => simp [printed] at same
  | cons opcode rest ih =>
    cases others with
    | nil => simp [printed] at same
    | cons other more =>
      obtain ⟨here, later⟩ := List.forall_mem_cons.1 printable
      obtain ⟨here', later'⟩ := List.forall_mem_cons.1 printable'
      simp only [printed, List.append_cancel_left_eq, List.cons.injEq, true_and] at same
      obtain ⟨texts, lines⟩ := cut_inj (Opcode.newline_not_mem_text here) (Opcode.newline_not_mem_text here') same
      rw [Opcode.text_inj here here' (String.toList_inj.1 texts), ih later later' lines]

end Tape

/-- The listing of a program loses nothing of its instructions but their places. Where imports are spliced, two programs,
whatever their texts and their modules are, have one listing only if they have the same opcodes: the same names, types,
addresses, strings, and numbers with the same digits. -/
theorem listing_eq_iff {settings settings' : Settings} {name text name' text' : String}
    {workspace workspace' after after' : Workspace} {items items' : List Item} (spliced : settings.splice = true)
    (spliced' : settings'.splice = true) (compiled : settings.compile name text workspace = (.ok items, after))
    (compiled' : settings'.compile name' text' workspace' = (.ok items', after')) :
    (Tape.ofItems items).listing = (Tape.ofItems items').listing ↔
      (Tape.ofItems items).toList.map Instruction.opcode = (Tape.ofItems items').toList.map Instruction.opcode := by
  rw [← String.toList_inj, Tape.toList_listing, Tape.toList_listing]
  refine ⟨fun same => ?_, fun same => by rw [same]⟩
  exact Tape.printed_inj (Settings.printable_compile spliced compiled) (Settings.printable_compile spliced' compiled') same

/-- The program `fn -> -> : -> do 1.500 end`, as the file of this number. -/
def arrows (file : Nat) : List Item :=
  [.define ⟨file, 0, 2⟩ ⟨"->", ["->"], ["->"]⟩ [.number ⟨file, 17, 22⟩ ⟨false, 1500, 3, by decide, by decide⟩]
    ⟨file, 23, 26⟩]

/-- A library with the same program as a module. -/
def arrowLibrary : Settings where
  library := .memory (.ofList [("m", "fn -> -> : -> do 1.500 end")])

theorem arrows_listing :
    arrowLibrary.compile "r" "fn -> -> : -> do 1.500 end" {} =
      (.ok (arrows 0), ⟨⟨[⟨"r", "fn -> -> : -> do 1.500 end"⟩]⟩, []⟩) ∧
    arrowLibrary.compile "r" "import m" {} =
      (.ok (arrows 1), ⟨⟨[⟨"r", "import m"⟩, ⟨"m", "fn -> -> : -> do 1.500 end"⟩]⟩, []⟩) ∧
    (Tape.ofItems (arrows 0)).listing =
      "0: fn -> -> : -> -> 1 -> 4\n1: noop\n2: fn-start\n3: number 1.500\n4: return\n5: var-drop\n6: noop\n" ∧
    (Tape.ofItems (arrows 0)).toList.map Instruction.opcode = (Tape.ofItems (arrows 1)).toList.map Instruction.opcode := by
  have direct : arrowLibrary.compile "r" "fn -> -> : -> do 1.500 end" {} =
      (.ok (arrows 0), ⟨⟨[⟨"r", "fn -> -> : -> do 1.500 end"⟩]⟩, []⟩) := by cbv
  have imported : arrowLibrary.compile "r" "import m" {} =
      (.ok (arrows 1), ⟨⟨[⟨"r", "import m"⟩, ⟨"m", "fn -> -> : -> do 1.500 end"⟩]⟩, []⟩) := by cbv
  have same : (Tape.ofItems (arrows 0)).listing = (Tape.ofItems (arrows 1)).listing := by cbv
  exact ⟨direct, imported, by cbv, (listing_eq_iff rfl rfl direct imported).1 same⟩

end TapeMachine
