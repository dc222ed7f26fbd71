import Mathlib
import TapeMachine.Program
import TapeMachine.Proofs.Layout
import TapeMachine.Proofs.Partition

namespace TapeMachine

/-- A name as a text spells it: some characters without blanks, and not the colon, which means something else. -/
structure IsName (name : String) : Prop where
  nonempty : name.toList ≠ []
  unbroken : ∀ c ∈ name.toList, isBlank c = false
  plain : name ≠ ":"

def Heading.names (heading : Heading) : List String :=
  heading.name :: (heading.inputs ++ heading.outputs)

/-- All names in an instruction are names that a text spells. An import may name its module by a string, and is not
among them. -/
def Opcode.Printable : Opcode → Prop
  | bind names | unbind names => ∀ name ∈ names, IsName name
  | cell name _ | call name => IsName name
  | define definition => ∀ name ∈ definition.heading.names, IsName name
  | imports _ => False
  | number _ | string _ | branch .. | repeats .. | loop .. | dropCell | enter | ret | noop => True

def Item.Printable (item : Item) : Prop :=
  ∀ start, ∀ instruction ∈ item.code start, instruction.opcode.Printable

theorem printable_codeOf {items : List Item} (printable : ∀ item ∈ items, item.Printable) (start : Nat) :
    ∀ instruction ∈ codeOf start items, instruction.opcode.Printable := by
  induction items generalizing start with
  | nil => nofun
  | cons item rest ih =>
    obtain ⟨first, others⟩ := List.forall_mem_cons.1 printable
    exact List.forall_mem_append.2 ⟨first start, ih others _⟩

def Opening.Printable : Opening → Prop
  | choice first _ | loop first _ => ∀ item ∈ first, item.Printable
  | bind names => ∀ name ∈ names, IsName name
  | cell name => IsName name
  | define heading => ∀ name ∈ heading.names, IsName name
  | branch | repeats | test => True

structure Level.Printable (level : Level) : Prop where
  opening : level.opening.Printable
  before : ∀ item ∈ level.before, item.Printable

/-- A block is printable if its opening and all that has been read of it are. -/
theorem Level.Printable.close {level : Level} {body : List Item} {stop : Location} {item : Item}
    (printable : level.Printable) (inside : ∀ item ∈ body, item.Printable)
    (closed : level.close body stop = some item) : item.Printable := by
  obtain ⟨opening, place, before⟩ := level
  have opened := printable.opening
  have inner := printable_codeOf inside
  intro start
  cases opening with
  | test => cases closed
  | branch | repeats =>
    cases closed
    simp only [Item.code, List.cons_append, List.forall_mem_cons, List.forall_mem_append]
    exact ⟨trivial, inner _, trivial, nofun⟩
  | cell =>
    cases closed
    simp only [Item.code, List.cons_append, List.forall_mem_cons, List.forall_mem_append]
    exact ⟨opened, inner _, trivial, nofun⟩
  | bind =>
    cases closed
    simp only [Item.code, List.cons_append, List.forall_mem_cons, List.forall_mem_append]
    exact ⟨opened, inner _, opened, trivial, nofun⟩
  | define =>
    cases closed
    simp only [Item.code, List.cons_append, List.forall_mem_cons, List.forall_mem_append]
    exact ⟨opened, trivial, trivial, inner _, trivial, trivial, trivial, nofun⟩
  | choice first | loop first =>
    cases closed
    have outer := printable_codeOf opened
    simp only [Item.code, List.cons_append, List.forall_mem_cons, List.forall_mem_append]
    exact ⟨trivial, ⟨outer _, trivial, inner _⟩, trivial, nofun⟩

def Expectation.Printable : Expectation → Prop
  | boundName _ names => ∀ name ∈ names, IsName name
  | inputType _ name inputs => ∀ type ∈ name :: inputs, IsName type
  | outputType _ name inputs outputs => ∀ type ∈ name :: (inputs ++ outputs), IsName type
  | item | functionName _ | cellName _ | moduleName _ => True

def Token.Printable (token : Token) : Prop :=
  ∀ name, token.lexeme = .word name → IsName name

/-- A word of a text is a name: had it a meaning of its own, it would be a keyword. -/
theorem Token.printable_of_ofText {file : Nat} {text : String} {tokens : List Token}
    (read : Token.ofText file text = .ok tokens) : ∀ token ∈ tokens, token.Printable := by
  intro token member name isWord
  obtain ⟨before, inside, after, -, segment, -⟩ := (Lexer.segments_ofText read).segment_of_mem member
  cases segment with
  | string => cases isWord
  | word nonempty _ unbroken =>
    have spelled : name = String.ofList inside :=
      (congrArg Lexeme.contents isWord).symm.trans (Lexeme.contents_ofWord inside)
    have plain := ((Lexeme.classifies_ofWord inside).word.1 ⟨name, isWord⟩).2
    rw [← spelled] at plain
    refine ⟨?_, ?_, fun colon => plain (by rw [colon]; decide)⟩
    · rwa [spelled, String.toList_ofList]
    · rwa [spelled, String.toList_ofList]

namespace Assembly

variable {assembly next : Assembly} {token : Token} {place : Location}

/-- All that has been read of a program is printable. -/
structure Printable (assembly : Assembly) : Prop where
  expects : assembly.expects.Printable
  levels : ∀ level ∈ assembly.levels, level.Printable
  items : ∀ item ∈ assembly.items, item.Printable

namespace Printable

theorem expect (printable : assembly.Printable) {expects : Expectation} (names : expects.Printable) :
    (assembly.expect expects).Printable :=
  ⟨names, printable.levels, printable.items⟩

theorem add (printable : assembly.Printable) {item : Item} (names : item.Printable) : (assembly.add item).Printable :=
  ⟨trivial, printable.levels, List.forall_mem_cons.2 ⟨names, printable.items⟩⟩

theorem addAll (printable : assembly.Printable) {items : List Item} (names : ∀ item ∈ items, item.Printable) :
    (assembly.addAll items).Printable := by
  refine ⟨trivial, printable.levels, fun item member => ?_⟩
  simp only [Assembly.addAll, List.reverseAux_eq, List.mem_append, List.mem_reverse] at member
  exact member.elim (names item) (printable.items item)

theorem enter (printable : assembly.Printable) {opening : Opening} (names : opening.Printable) :
    (assembly.enter opening place).Printable :=
  ⟨trivial, List.forall_mem_cons.2 ⟨⟨names, printable.items⟩, printable.levels⟩, nofun⟩

theorem items_reverse (printable : assembly.Printable) : ∀ item ∈ assembly.items.reverse, item.Printable :=
  fun item member => printable.items item (List.mem_reverse.1 member)

theorem close (printable : assembly.Printable) (closed : assembly.close place = .ok next) : next.Printable := by
  unfold Assembly.close at closed
  split at closed
  · cases closed
  · rename_i level rest levels
    have outer := printable.levels
    rw [levels, List.forall_mem_cons] at outer
    split at closed
    · rename_i item made
      cases closed
      exact ⟨printable.expects, outer.2,
        List.forall_mem_cons.2 ⟨outer.1.close printable.items_reverse made, outer.1.before⟩⟩
    · cases closed
      exact ⟨printable.expects, outer.2, outer.1.before⟩

/-- The middle of a block: what has been read of it goes into its level. -/
theorem middle (printable : assembly.Printable) {opening opening' : Opening} {before : List Item} {rest : List Level}
    (levels : assembly.levels = ⟨opening, place, before⟩ :: rest) (names : opening'.Printable) :
    Printable { assembly with levels := ⟨opening', place, before⟩ :: rest, items := [] } := by
  have outer := printable.levels
  rw [levels, List.forall_mem_cons] at outer
  exact ⟨printable.expects, List.forall_mem_cons.2 ⟨⟨names, outer.1.before⟩, outer.2⟩, nofun⟩

theorem alternative (printable : assembly.Printable) (split : assembly.alternative place = .ok next) : next.Printable := by
  unfold Assembly.alternative at split
  split at split
  · rename_i levels
    cases split
    exact printable.middle levels printable.items_reverse
  · cases split

theorem body (printable : assembly.Printable) (split : assembly.body place = .ok next) : next.Printable := by
  unfold Assembly.body at split
  split at split
  · rename_i levels
    cases split
    exact printable.middle levels printable.items_reverse
  · cases split

theorem keyword (printable : assembly.Printable) {keyword : Keyword} (meant : assembly.keyword keyword place = .ok next) :
    next.Printable := by
  cases keyword with
  | else_ => exact printable.alternative meant
  | end_ => exact printable.close meant
  | do_ => exact printable.body meant
  | colon => cases meant
  | if_ | repeat_ | while_ =>
    cases meant
    exact printable.enter trivial
  | let_ =>
    cases meant
    exact printable.expect nofun
  | fn | var | import_ =>
    cases meant
    exact printable.expect trivial

theorem item (printable : assembly.Printable) (names : token.Printable) (meant : assembly.item token = .ok next) :
    next.Printable := by
  unfold Assembly.item at meant
  split at meant
  · rename_i digits _
    cases parsed : Decimal.parse digits with
    | error =>
      rw [parsed] at meant
      cases meant
    | ok =>
      rw [parsed] at meant
      cases meant
      exact printable.add fun _ => List.forall_mem_singleton.2 trivial
  · cases meant
    exact printable.add fun _ => List.forall_mem_singleton.2 trivial
  · rename_i name isWord
    cases meant
    exact printable.add fun _ => List.forall_mem_singleton.2 (names name isWord)
  · exact printable.keyword meant

end Printable

def Step.Printable : Step → Prop
  | .next assembly | .imports _ _ assembly => assembly.Printable

/-- What reading a word, or any other token of a text, leads to is printable. -/
theorem Printable.read (printable : assembly.Printable) (names : token.Printable) {step : Step}
    (read : assembly.read token = .ok step) : step.Printable := by
  have expected := printable.expects
  obtain ⟨lexeme, there⟩ := token
  unfold Assembly.read at read
  cases expects : assembly.expects with
  | item =>
    rw [expects] at read
    cases meant : assembly.item ⟨lexeme, there⟩ with
    | error =>
      rw [meant] at read
      cases read
    | ok next =>
      rw [meant] at read
      cases read
      exact printable.item names meant
  | boundName start bound =>
    rw [expects] at expected read
    cases lexeme with
    | number | string => cases read
    | word name =>
      cases read
      exact printable.expect (List.forall_mem_cons.2 ⟨names name rfl, expected⟩)
    | keyword keyword =>
      cases keyword with
      | do_ =>
        dsimp only at read
        split at read
        · cases read
        · cases read
          exact printable.enter fun name member => expected name (List.mem_reverse.1 member)
      | _ => cases read
  | functionName start =>
    rw [expects] at read
    cases lexeme with
    | number | string | keyword => cases read
    | word name =>
      cases read
      exact printable.expect (List.forall_mem_singleton.2 (names name rfl))
  | inputType start name inputs =>
    rw [expects] at expected read
    cases lexeme with
    | number | string => cases read
    | word type =>
      cases read
      obtain ⟨named, earlier⟩ := List.forall_mem_cons.1 expected
      exact printable.expect (List.forall_mem_cons.2 ⟨named, List.forall_mem_cons.2 ⟨names type rfl, earlier⟩⟩)
    | keyword keyword =>
      cases keyword with
      | colon =>
        cases read
        refine printable.expect fun type member => expected type ?_
        simpa using member
      | _ => cases read
  | outputType start name inputs outputs =>
    rw [expects] at expected read
    cases lexeme with
    | number | string => cases read
    | word type =>
      cases read
      have new := names type rfl
      refine printable.expect ?_
      simp only [Expectation.Printable, List.forall_mem_cons, List.forall_mem_append] at expected ⊢
      exact ⟨expected.1, expected.2.1, new, expected.2.2⟩
    | keyword keyword =>
      cases keyword with
      | do_ =>
        cases read
        refine printable.enter fun type member => expected type ?_
        simpa [Heading.names] using member
      | _ => cases read
  | cellName start =>
    rw [expects] at read
    cases lexeme with
    | number | string | keyword => cases read
    | word name =>
      cases read
      exact printable.enter (names name rfl)
  | moduleName start =>
    rw [expects] at read
    cases lexeme with
    | keyword => cases read
    | number | string | word =>
      cases read
      exact printable.expect trivial

theorem Printable.finish (printable : assembly.Printable) {items : List Item} (finished : assembly.finish = .ok items) :
    ∀ item ∈ items, item.Printable := by
  unfold Assembly.finish at finished
  split at finished <;> cases finished
  exact printable.items_reverse

/-- An importer brings printable items only. -/
def Importer.Printable (importer : Importer) : Prop :=
  ∀ name place workspace items after, importer name place workspace = (.ok items, after) →
    ∀ item ∈ items, item.Printable

theorem Printable.run {importer : Importer} (imports : importer.Printable) {tokens : List Token}
    {workspace after : Workspace} {items : List Item} (printable : assembly.Printable) (names : ∀ token ∈ tokens, token.Printable)
    (built : run importer assembly tokens workspace = (.ok items, after)) : ∀ item ∈ items, item.Printable := by
  induction tokens generalizing assembly workspace with
  | nil => exact printable.finish (Prod.mk.inj built).1
  | cons token rest ih =>
    obtain ⟨here, later⟩ := List.forall_mem_cons.1 names
    rw [Assembly.run] at built
    cases read : assembly.read token with
    | error =>
      rw [read] at built
      cases built
    | ok step =>
      have onward := printable.read here read
      rw [read] at built
      cases step with
      | next next => exact ih onward later built
      | imports name place next =>
        dsimp only at built
        split at built
        · cases built
        · rename_i included between imported
          exact ih (onward.addAll (imports _ _ _ _ _ imported)) later built

theorem printable_nothing : ({} : Assembly).Printable :=
  ⟨trivial, nofun, nofun⟩

end Assembly

/-- The tokens of a module are those of its text. -/
theorem Workspace.printable_openModule {workspace opened : Workspace} {library : Library} {name : String} {place : Location}
    {tokens : List Token} (found : workspace.openModule library name place = (.ok tokens, opened)) :
    ∀ token ∈ tokens, token.Printable := by
  unfold openModule at found
  split at found
  · cases found
  · split at found
    · cases found
    · split at found
      · cases found
      · dsimp only at found
        split at found
        · cases found
        · rename_i made read
          cases found
          unfold Workspace.tokens at read
          split at read
          · exact Token.printable_of_ofText read
          · cases read
            exact nofun

/-- The items of a module are printable, and so are those of the modules that it imports. -/
theorem Assembly.printable_spliceImports (library : Library) (depth : Nat) : (spliceImports library depth).Printable := by
  induction depth with
  | zero =>
    intro name place workspace items after spliced
    cases spliced
  | succ depth ih =>
    intro name place workspace items after spliced
    rw [spliceImports] at spliced
    cases found : workspace.openModule library name place with
    | mk outcome opened =>
    rw [found] at spliced
    cases outcome with
    | error failure => cases spliced
    | ok tokens =>
      cases built : Assembly.run (spliceImports library depth) {} tokens opened with
      | mk result done =>
      simp only [Build.andThen, built] at spliced
      cases spliced
      exact printable_nothing.run ih (Workspace.printable_openModule found) built

/-- Where imports are spliced, the instructions of a program are printable. -/
theorem Settings.printable_compile {settings : Settings} {name text : String} {workspace after : Workspace}
    {items : List Item} (spliced : settings.splice = true)
    (compiled : settings.compile name text workspace = (.ok items, after)) :
    ∀ opcode ∈ (Tape.ofItems items).toList.map Instruction.opcode, opcode.Printable := by
  have printable : ∀ item ∈ items, item.Printable := by
    unfold compile at compiled
    dsimp only at compiled
    split at compiled
    · cases compiled
    · rename_i tokens read
      rw [assemble, importer, if_pos spliced] at compiled
      exact Assembly.printable_nothing.run (Assembly.printable_spliceImports _ _) (Token.printable_of_ofText read) compiled
  rw [Tape.toList_ofItems]
  exact List.forall_mem_map.2 (printable_codeOf printable 0)

end TapeMachine
