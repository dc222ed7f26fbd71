import TapeMachine.Program
import TapeMachine.Proofs.Store
import TapeMachine.Proofs.Words

namespace TapeMachine

/-- A failure that a program or its surroundings bring about, and not the machine itself. -/
def Cause.Expected (cause : Cause) : Prop :=
  cause.code ≠ .internalError

def Failure.Expected (failure : Failure) : Prop :=
  failure.cause.Expected

/-- Harmless causes say nothing about the machine itself, and so are expected ones. -/
theorem Cause.Harmless.expected {cause : Cause} (harmless : cause.Harmless) : cause.Expected :=
  harmless.ne rfl

theorem Cause.expected_of_code {cause : Cause} {code : Code} (same : cause.code = code)
    (other : code ≠ .internalError) : cause.Expected := by
  rw [Cause.Expected, same]
  exact other

/-- If there is no result, that was to be expected. -/
def Expects {ε α : Type} (expected : ε → Prop) : Except ε α → Prop
  | .ok _ => True
  | .error reason => expected reason

section

variable {α β ε : Type} {expected : ε → Prop}

/-- A sequence fails as its parts do; the second part is looked at for results of the first only. -/
theorem Expects.bind {outcome : Except ε α} {next : α → Except ε β} (first : Expects expected outcome)
    (later : ∀ found, outcome = .ok found → Expects expected (next found)) : Expects expected (outcome.bind next) := by
  cases outcome with
  | ok found => exact later found rfl
  | error reason => exact first

theorem Expects.map {outcome : Except ε α} (f : α → β) (first : Expects expected outcome) :
    Expects expected (outcome.map f) := by
  cases outcome with
  | ok found => trivial
  | error reason => exact first

/-- What has been shown of the words and of the heap, where it was needed for types, serves here as well. -/
theorem Outcome.Mild.expects {outcome : Outcome α} (mild : outcome.Mild) : Expects Cause.Expected outcome := by
  cases outcome with
  | ok found => trivial
  | error cause => exact (mild cause rfl).expected

/-- The place of a failure has no part in what is expected. -/
theorem Expects.locate {outcome : Outcome α} (first : Expects Cause.Expected outcome) (place : Location) :
    Expects Failure.Expected (outcome.locate place) := by
  cases outcome with
  | ok found => trivial
  | error reason => exact first

end

namespace Stack

variable {α : Type}

theorem expects_push (stack : Stack α) (value : α) : Expects Cause.Expected (stack.push value).1 := by
  unfold push check
  dsimp only
  split
  · trivial
  · exact Cause.expected_of_code rfl nofun

/-- The stack on which the rest is pushed is the one that the first push has left, too high or not. -/
theorem expects_pushAll (stack : Stack α) (values : List α) : Expects Cause.Expected (stack.pushAll values).1 := by
  induction values generalizing stack with
  | nil => trivial
  | cons value rest ih =>
    have pushed := stack.expects_push value
    rw [pushAll]
    split
    · exact ih _
    · rename_i failed
      rw [failed] at pushed
      exact pushed

theorem expects_pop (stack : Stack α) (count : Nat) : Expects Cause.Expected (stack.pop count) := by
  unfold pop top
  split
  · trivial
  · exact Cause.expected_of_code rfl nofun

theorem expects_popOne (stack : Stack α) : Expects Cause.Expected stack.popOne := by
  unfold popOne
  split
  · trivial
  · exact Cause.expected_of_code rfl nofun

theorem expects_dup (stack : Stack α) : Expects Cause.Expected stack.dup.1 := by
  unfold dup
  split
  · exact stack.expects_push _
  · exact Cause.expected_of_code rfl nofun

theorem expects_swap (stack : Stack α) : Expects Cause.Expected stack.swap := by
  unfold swap
  split
  · trivial
  · exact Cause.expected_of_code rfl nofun

end Stack

namespace Store

variable (store : Store)

theorem expects_push (value : Value) : Expects Cause.Expected (store.push value) :=
  (Expects.map _ (store.operands.expects_push value)).map _

/-- An operand of another type is the program's own fault. -/
theorem expects_takeNumber : Expects Cause.Expected store.takeNumber := by
  refine store.operands.expects_popOne.bind ?_
  rintro ⟨value, operands⟩ -
  cases value with
  | number => trivial
  | string | pointer => exact Cause.expected_of_code rfl nofun

/-- Neither a value that is no number nor a number too large to count is a fault of the machine. -/
theorem expects_takeCount : Expects Cause.Expected store.takeCount := by
  refine store.operands.expects_popOne.bind ?_
  rintro ⟨value, operands⟩ -
  refine Expects.map _ ?_
  cases value with
  | number n => exact n.toCount_mild.expects
  | string | pointer => exact Cause.expected_of_code rfl nofun

theorem expects_bind (names : List String) : Expects Cause.Expected (store.bind names) :=
  (store.operands.expects_pop names.length).map _

theorem expects_claim (name : String) : Expects Cause.Expected (store.claim name) :=
  (store.heap.alloc_mild 1).expects.map _

theorem expects_release (address : Nat) : Expects Cause.Expected (store.release address) :=
  (store.heap.free_mild address).expects.map _

/-- A name without a value is undefined; that the stack has no room for the value is the other way to fail. -/
theorem expects_fetch (name : String) : Expects Cause.Expected (store.fetch name) := by
  unfold fetch
  split
  · exact store.expects_push _
  · exact Cause.expected_of_code rfl nofun

end Store

namespace Builtin

variable {word : Builtin}

/-- Operands as many as a word takes make it fail for what it computes or for their types, and there is no third
reason. -/
theorem expects_perform (ordinary : word ∉ shuffles) {operands : List Value}
    (count : operands.length = word.inputs.length) (heap : Heap) :
    Expects Cause.Expected (word.perform operands heap) := by
  cases performed : word.perform operands heap with
  | ok reply => trivial
  | error cause =>
    rcases harmless_of_refused ordinary count performed with harmless | ⟨-, mismatch⟩
    · exact harmless.expected
    · exact Cause.expected_of_code mismatch nofun

/-- The words that take their operands off the stack, with the three parts of a call one after the other: taking,
performing, leaving the results. -/
theorem expects_call_ordinary (ordinary : word ∉ shuffles) (operands : Stack Value) (heap : Heap) :
    Expects Cause.Expected (word.call operands heap).1 := by
  have popped := operands.expects_pop word.inputs.length
  rw [call_of_ordinary ordinary]
  split
  · rename_i failed
    rw [failed] at popped
    exact popped
  · rename_i taken rest found
    obtain ⟨entries, -, count, rfl⟩ := Stack.entries_of_pop found
    have performed := expects_perform ordinary (List.length_reverse.trans count) heap
    split
    · rename_i failed
      rw [failed] at performed
      exact performed
    · rename_i reply _
      exact (rest.expects_pushAll reply.results).map _

/-- A word that the machine knows never fails by the fault of the machine. -/
theorem expects_call (word : Builtin) (operands : Stack Value) (heap : Heap) :
    Expects Cause.Expected (word.call operands heap).1 := by
  by_cases shuffle : word ∉ shuffles
  · exact expects_call_ordinary shuffle operands heap
  · simp only [shuffles, List.mem_cons, List.not_mem_nil, or_false, not_not] at shuffle
    rcases shuffle with rfl | rfl | rfl
    · exact operands.expects_dup.map _
    · have swapped := operands.expects_swap
      rw [call]
      split
      · trivial
      · rename_i failed
        rw [failed] at swapped
        exact swapped
    · trivial

end Builtin

/-- The same for the stack and the heap of a machine. -/
theorem Store.expects_invoke (store : Store) (word : Builtin) : Expects Cause.Expected (store.invoke word) := by
  have called := word.expects_call store.operands store.heap
  unfold invoke
  split
  · trivial
  · rename_i failed
    rw [failed] at called
    exact called

namespace Lexer

/-- A character is either read into the token under way or makes an escape that does not exist. -/
theorem expects_step (file offset : Nat) (mode : Mode) (c : Char) :
    Expects Failure.Expected (step file offset mode c) := by
  unfold step
  split
  · split
    · trivial
    · split <;> trivial
  · split <;> trivial
  · split
    · trivial
    · split <;> trivial
  · split
    · trivial
    · split
      · trivial
      · exact Cause.expected_of_code rfl nofun
  · trivial
  · split
    · trivial
    · exact Cause.expected_of_code rfl nofun

/-- A text may end inside a string or an escape; that is a fault of the text. -/
theorem expects_finish (file offset : Nat) (mode : Mode) : Expects Failure.Expected (finish file offset mode) := by
  cases mode with
  | blank | word => trivial
  | string | escape => exact Cause.expected_of_code rfl nofun
  | hex =>
    rw [finish]
    split
    · exact Cause.expected_of_code rfl nofun
    · exact Cause.expected_of_code rfl nofun

/-- Scanning stops at the first character that cannot be read, so its failure is that of one step or of the end. -/
theorem expects_scan (file offset : Nat) (mode : Mode) (found : List Token) (text : List Char) :
    Expects Failure.Expected (scan file offset mode found text) := by
  induction text generalizing offset mode found with
  | nil =>
    have finished := expects_finish file offset mode
    rw [scan]
    split
    · trivial
    · rename_i failed
      rw [failed] at finished
      exact finished
  | cons c rest ih =>
    have stepped := expects_step file offset mode c
    rw [scan]
    split
    · exact ih ..
    · exact ih ..
    · rename_i failed
      rw [failed] at stepped
      exact stepped

end Lexer

namespace Assembly

/-- Keywords that open a block never fail. Those that go on with a block or close it may stand where there is none. -/
theorem expects_keyword (assembly : Assembly) (keyword : Keyword) (place : Location) :
    Expects Failure.Expected (assembly.keyword keyword place) := by
  cases keyword with
  | else_ =>
    rw [Assembly.keyword, alternative]
    split
    · trivial
    · exact Cause.expected_of_code rfl nofun
  | end_ =>
    rw [Assembly.keyword, close]
    split
    · exact Cause.expected_of_code rfl nofun
    · split <;> trivial
  | do_ =>
    rw [Assembly.keyword, body]
    split
    · trivial
    · exact Cause.expected_of_code rfl nofun
  | colon => exact Cause.expected_of_code rfl nofun
  | if_ | repeat_ | while_ | let_ | fn | var | import_ => trivial

/-- A number too large for the machine and a keyword out of place are the program's faults. -/
theorem expects_item (assembly : Assembly) (token : Token) : Expects Failure.Expected (assembly.item token) := by
  unfold item
  split
  · exact ((Decimal.parse_mild _).expects.locate _).map _
  · trivial
  · trivial
  · exact assembly.expects_keyword _ _

/-- One case for each thing that may be expected: in a heading only words and the keyword that goes on with it are
taken, and everything else is refused with a failure of its own. -/
theorem expects_read (assembly : Assembly) (token : Token) : Expects Failure.Expected (assembly.read token) := by
  have refused : ∀ {cause : Cause} {place : Option Location}, cause.code ≠ .internalError →
      Expects Failure.Expected (.error ⟨cause, place⟩ : Except Failure Step) := fun other => other
  unfold read
  cases assembly.expects with
  | item => exact (assembly.expects_item token).map _
  | boundName start names =>
    cases token.lexeme with
    | word => trivial
    | number | string => exact refused nofun
    | keyword keyword =>
      cases keyword with
      | do_ =>
        dsimp only
        split
        · exact refused nofun
        · trivial
      | _ => exact refused nofun
  | functionName start =>
    cases token.lexeme with
    | word => trivial
    | number | string | keyword => exact refused nofun
  | inputType start name inputs =>
    cases token.lexeme with
    | word => trivial
    | number | string => exact refused nofun
    | keyword keyword =>
      cases keyword with
      | colon => trivial
      | _ => exact refused nofun
  | outputType start name inputs outputs =>
    cases token.lexeme with
    | word => trivial
    | number | string => exact refused nofun
    | keyword keyword =>
      cases keyword with
      | do_ => trivial
      | _ => exact refused nofun
  | cellName start =>
    cases token.lexeme with
    | word => trivial
    | number | string | keyword => exact refused nofun
  | moduleName start =>
    cases token.lexeme with
    | keyword => exact refused nofun
    | number | string | word => trivial

/-- What is still open at the end of a text has not been closed by the program. -/
theorem expects_finish (assembly : Assembly) : Expects Failure.Expected assembly.finish := by
  unfold finish
  split
  all_goals first
    | trivial
    | exact Cause.expected_of_code rfl nofun

/-- The failures of a whole assembly are those of its tokens and of the imports in it. -/
theorem expects_run {importer : Importer}
    (imports : ∀ name place workspace, Expects Failure.Expected (importer name place workspace).1) (assembly : Assembly)
    (tokens : List Token) (workspace : Workspace) :
    Expects Failure.Expected (run importer assembly tokens workspace).1 := by
  induction tokens generalizing assembly workspace with
  | nil => exact assembly.expects_finish
  | cons token rest ih =>
    have reads := assembly.expects_read token
    rw [run]
    split
    · rename_i failed
      rw [failed] at reads
      exact reads
    · exact ih _ _
    · rename_i name place next _
      have imported := imports name place workspace
      split
      · rename_i failed
        rw [failed] at imported
        exact imported
      · exact ih _ _

end Assembly

theorem Build.expects_andThen {α β : Type} {build : Build α} {next : α → Workspace → Build β}
    (first : Expects Failure.Expected build.1) (later : ∀ made after, Expects Failure.Expected (next made after).1) :
    Expects Failure.Expected (build.andThen next).1 := by
  obtain ⟨outcome, workspace⟩ := build
  cases outcome with
  | ok made => exact later made workspace
  | error failure => exact first

theorem Workspace.expects_tokens (workspace : Workspace) (file : Nat) :
    Expects Failure.Expected (workspace.tokens file) := by
  unfold tokens
  split
  · exact Lexer.expects_scan ..
  · trivial

/-- A module may be named badly, be under way already or not be found; the rest is reading its text. -/
theorem Workspace.expects_openModule (workspace : Workspace) (library : Library) (name : String) (place : Location) :
    Expects Failure.Expected (workspace.openModule library name place).1 := by
  unfold openModule
  split
  · exact Cause.expected_of_code rfl nofun
  · split
    · exact Cause.expected_of_code rfl nofun
    · split
      · exact Cause.expected_of_code rfl nofun
      · rename_i found _
        have read := (workspace.enlist found.path found.text).2.expects_tokens
          (workspace.enlist found.path found.text).1
        dsimp only
        split
        · rename_i failed
          rw [failed] at read
          exact read
        · trivial

/-- The induction is on the depth that is left: an import inside a module is spliced one level below. -/
theorem Assembly.expects_spliceImports (library : Library) (depth : Nat) (name : String) (place : Location)
    (workspace : Workspace) : Expects Failure.Expected (spliceImports library depth name place workspace).1 := by
  induction depth generalizing name place workspace with
  | zero => exact Cause.expected_of_code rfl nofun
  | succ depth ih =>
    refine Build.expects_andThen (workspace.expects_openModule library name place) ?_
    intro tokens opened
    exact expects_run ih _ _ _

/-- Both ways to treat imports: keeping one cannot fail, and splicing one is the theorem above. -/
theorem Settings.expects_assemble (settings : Settings) (tokens : List Token) (workspace : Workspace) :
    Expects Failure.Expected (settings.assemble tokens workspace).1 := by
  refine Assembly.expects_run ?_ _ _ _
  intro name place workspace
  unfold importer
  split
  · exact Assembly.expects_spliceImports ..
  · trivial

/-- A module that cannot be had is no fault of the machine. -/
theorem Settings.expects_enterModule (settings : Settings) (name : String) (place : Location) (workspace : Workspace) :
    Expects Failure.Expected (settings.enterModule name place workspace).1 := by
  refine Build.expects_andThen (workspace.expects_openModule settings.library name place) ?_
  intro tokens opened
  have assembled := settings.expects_assemble tokens opened
  split
  · rename_i failed
    rw [failed] at assembled
    exact assembled
  · trivial

end TapeMachine
