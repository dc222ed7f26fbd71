import TapeMachine.Tape.Layout

namespace TapeMachine

mutual

/-- The instructions of an item that begins at the address `start`. A bound is the address of the
instruction that stands for the `else`, `do` or `end` it names. -/
def Item.code (start : Nat) : Item → List Instruction
  | .number place n => [⟨.number n, place⟩]
  | .string place text => [⟨.string text, place⟩]
  | .word place name => [⟨.call name, place⟩]
  | .imports place name => [⟨.imports name, place⟩]
  | .branch place body stop =>
    let inner := codeOf (start + 1) body
    ⟨.branch none (start + 1 + inner.length), place⟩ :: inner ++ [⟨.noop, stop⟩]
  | .choice place consequent middle alternative stop =>
    let first := codeOf (start + 1) consequent
    let middleAt := start + 1 + first.length
    let second := codeOf (middleAt + 1) alternative
    ⟨.branch (some middleAt) (middleAt + 1 + second.length), place⟩ :: first ++
      ⟨.noop, middle⟩ :: second ++ [⟨.noop, stop⟩]
  | .repeats place body stop =>
    let inner := codeOf (start + 1) body
    ⟨.repeats start (start + 1 + inner.length), place⟩ :: inner ++ [⟨.noop, stop⟩]
  | .loop place test middle body stop =>
    let first := codeOf (start + 1) test
    let middleAt := start + 1 + first.length
    let second := codeOf (middleAt + 1) body
    ⟨.loop start middleAt (middleAt + 1 + second.length), place⟩ :: first ++
      ⟨.noop, middle⟩ :: second ++ [⟨.noop, stop⟩]
  | .bind place names body stop =>
    ⟨.bind names, place⟩ :: codeOf (start + 1) body ++ [⟨.unbind names, stop⟩, ⟨.noop, stop⟩]
  | .cell place name body stop =>
    let inner := codeOf (start + 1) body
    ⟨.cell name (start + 1 + inner.length), place⟩ :: inner ++ [⟨.noop, stop⟩]
  | .define place heading body stop =>
    let inner := codeOf (start + 3) body
    ⟨.define ⟨heading, start + 1, start + 3 + inner.length⟩, place⟩ :: ⟨.noop, place⟩ ::
      ⟨.enter, place⟩ :: inner ++ [⟨.ret, stop⟩, ⟨.dropCell, stop⟩, ⟨.noop, stop⟩]

/-- The instructions of items that stand one behind the other. -/
def codeOf (start : Nat) : List Item → List Instruction
  | [] => []
  | item :: rest =>
    let first := item.code start
    first ++ codeOf (start + first.length) rest

end

/-- How many addresses items take together. -/
def span (items : List Item) : Nat :=
  widthFrom 0 items

/-- The width counted up from an address is that address and the span of the items. -/
theorem widthFrom_eq (start : Nat) (items : List Item) : widthFrom start items = start + span items := by
  induction items generalizing start with
  | nil => rfl
  | cons item rest ih =>
    rw [span, widthFrom, widthFrom, ih, ih (0 + item.width)]
    omega

@[simp]
theorem span_cons (item : Item) (rest : List Item) : span (item :: rest) = item.width + span rest := by
  rw [span, widthFrom, widthFrom_eq]
  omega

namespace Item

/-- The address behind an item that begins at `start`. -/
def behind (start : Nat) : Item → Nat
  | .number .. | .string .. | .word .. | .imports .. => start + 1
  | .branch _ body _ | .repeats _ body _ | .cell _ _ body _ => start + 1 + span body + 1
  | .choice _ first _ second _ | .loop _ first _ second _ => start + 1 + span first + 1 + span second + 1
  | .bind _ _ body _ => start + 1 + span body + 1 + 1
  | .define _ _ body _ => start + 3 + span body + 1 + 1 + 1

/-- The address behind an item as its layout has it: one address for each instruction of its own, and the spans of its
blocks. -/
theorem add_width (item : Item) (start : Nat) : start + item.width = item.behind start := by
  cases item with
  | number | string | word | imports => rfl
  | branch | repeats | cell | bind | define =>
    rw [width, widthFrom_eq, behind]
    omega
  | choice | loop =>
    rw [width, widthFrom_eq, widthFrom_eq, behind]
    omega

end Item

mutual

/-- An item has as many instructions as its width says, wherever it begins. -/
theorem length_code (item : Item) (start : Nat) : (item.code start).length = item.width := by
  cases item with
  | number | string | word | imports => rfl
  | branch _ body _ | repeats _ body _ | cell _ _ body _ | bind _ _ body _ =>
    simp [Item.code, Item.width, widthFrom_eq, length_codeOf body]
    omega
  | choice _ first _ second _ | loop _ first _ second _ =>
    simp [Item.code, Item.width, widthFrom_eq, length_codeOf first, length_codeOf second]
    omega
  | define _ _ body _ =>
    simp [Item.code, Item.width, widthFrom_eq, length_codeOf body]
    omega

theorem length_codeOf (items : List Item) (start : Nat) : (codeOf start items).length = span items := by
  match items with
  | [] => rfl
  | item :: rest => simp [codeOf, length_code item, length_codeOf rest]

end

namespace Tape

mutual

/-- Appending an item writes its code behind what is on the tape, with the bounds of its blocks counted from there. -/
theorem toList_append (tape : Tape) (item : Item) :
    (tape.append item).toList = tape.toList ++ item.code tape.size := by
  cases item with
  | number | string | word | imports => simp [append, emit, Item.code]
  | branch _ body _ | repeats _ body _ | cell _ _ body _ | bind _ _ body _ | define _ _ body _ =>
    simp [append, emit, Item.code, toList_appendAll _ body, widthFrom_eq, length_codeOf]
  | choice _ first _ second _ | loop _ first _ second _ =>
    have size : ∀ opened : Tape, (opened.appendAll first).size = opened.size + span first := by
      intro opened
      rw [← Array.length_toList, toList_appendAll opened first, List.length_append, length_codeOf,
        Array.length_toList]
    simp [append, emit, Item.code, toList_appendAll _ first, toList_appendAll _ second, widthFrom_eq,
      length_codeOf, size]

theorem toList_appendAll (tape : Tape) (items : List Item) :
    (tape.appendAll items).toList = tape.toList ++ codeOf tape.size items := by
  match items with
  | [] => simp [appendAll, codeOf]
  | item :: rest =>
    have first := toList_append tape item
    have size : (tape.append item).size = tape.size + (item.code tape.size).length := by
      rw [← Array.length_toList, first, List.length_append, Array.length_toList]
    rw [appendAll, toList_appendAll _ rest, first, size, codeOf, List.append_assoc]

end

/-- The tape of a program is its code from address 0 on. -/
theorem toList_ofItems (items : List Item) : (ofItems items).toList = codeOf 0 items := by
  rw [ofItems, toList_appendAll]
  rfl

theorem size_ofItems (items : List Item) : (ofItems items).size = span items := by
  rw [← Array.length_toList, toList_ofItems, length_codeOf]

/-- The instructions stand on the tape from `start` on. -/
def Holds (tape : Tape) (start : Nat) : List Instruction → Prop
  | [] => True
  | instruction :: rest => tape[start]? = some instruction ∧ tape.Holds (start + 1) rest

/-- Code that stands in two parts stands as a whole. -/
theorem holds_append {tape : Tape} {start : Nat} {first second : List Instruction} :
    tape.Holds start (first ++ second) ↔
      tape.Holds start first ∧ tape.Holds (start + first.length) second := by
  induction first generalizing start with
  | nil => simp [Holds]
  | cons instruction rest ih =>
    have later : start + 1 + rest.length = start + (rest.length + 1) := by omega
    simp only [List.cons_append, Holds, ih, List.length_cons, later, and_assoc]

/-- Code that is what remains of a tape from an address on stands there. -/
theorem holds_of_drop {tape : Tape} {start : Nat} {code : List Instruction}
    (found : tape.toList.drop start = code) : tape.Holds start code := by
  induction code generalizing start with
  | nil => trivial
  | cons instruction rest ih =>
    have head : (tape.toList.drop start)[0]? = some instruction := by rw [found]; rfl
    rw [List.getElem?_drop, Nat.add_zero, Array.getElem?_toList] at head
    refine ⟨head, ih ?_⟩
    rw [← List.tail_drop, found, List.tail_cons]

theorem holds_ofItems (items : List Item) : (ofItems items).Holds 0 (codeOf 0 items) :=
  holds_of_drop (by rw [List.drop_zero, toList_ofItems])

end Tape

end TapeMachine
