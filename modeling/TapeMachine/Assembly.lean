import TapeMachine.Item
import TapeMachine.Number
import TapeMachine.Workspace

namespace TapeMachine

/-- A block whose `end` has not come yet. -/
inductive Opening
  | branch
  | choice (consequent : List Item) (middle : Location)
  | repeats
  | test
  | loop (test : List Item) (middle : Location)
  | bind (names : List String)
  | cell (name : String)
  | define (heading : Heading)

/-- What a block is called when it is not closed. -/
def Opening.construct : Opening → String
  | branch | choice .. => "if"
  | repeats => "repeat"
  | test | loop .. => "while"
  | bind _ => "let"
  | cell _ => "var"
  | define _ => "function"

/-- An open block, where it began, and the items before it on the level around it, latest first. -/
structure Level where
  opening : Opening
  place : Location
  before : List Item

/-- The block that a level becomes with `body` behind it. -/
def Level.close (level : Level) (body : List Item) (stop : Location) : Option Item :=
  match level.opening with
  | .branch => some (.branch level.place body stop)
  | .choice consequent middle => some (.choice level.place consequent middle body stop)
  | .repeats => some (.repeats level.place body stop)
  | .test => none
  | .loop test middle => some (.loop level.place test middle body stop)
  | .bind names => some (.bind level.place names body stop)
  | .cell name => some (.cell level.place name body stop)
  | .define heading => some (.define level.place heading body stop)

/-- What the next token has to be. Names read so far are latest first. -/
inductive Expectation
  | item
  | boundName (place : Location) (names : List String)
  | functionName (place : Location)
  | inputType (place : Location) (name : String) (inputs : List String)
  | outputType (place : Location) (name : String) (inputs outputs : List String)
  | cellName (place : Location)
  | moduleName (place : Location)

/-- A program that is being put together from its tokens: the open blocks, innermost first, and the
items of the innermost one, latest first. A `while` that ends without `do` is remembered until the
end; of several the one that began first. -/
structure Assembly where
  expects : Expectation := .item
  levels : List Level := []
  items : List Item := []
  lacking : Option Location := none

namespace Assembly

/-- Put an item on the innermost level. -/
def add (assembly : Assembly) (item : Item) : Assembly :=
  { assembly with expects := .item, items := item :: assembly.items }

def addAll (assembly : Assembly) (items : List Item) : Assembly :=
  { assembly with expects := .item, items := items.reverseAux assembly.items }

def expect (assembly : Assembly) (expects : Expectation) : Assembly :=
  { assembly with expects }

/-- Begin a block. -/
def enter (assembly : Assembly) (opening : Opening) (place : Location) : Assembly :=
  { assembly with
    expects := .item
    levels := ⟨opening, place, assembly.items⟩ :: assembly.levels
    items := [] }

/-- Of two places the one that comes first. -/
def earlier (place : Location) : Option Location → Location
  | some other => if other.start < place.start then other else place
  | none => place

/-- `end` at `stop`. -/
def close (assembly : Assembly) (stop : Location) : Except Failure Assembly :=
  match assembly.levels with
  | [] => .error ⟨.endWithoutBlock, some stop⟩
  | level :: rest =>
    match level.close assembly.items.reverse stop with
    | some item => .ok { assembly with levels := rest, items := item :: level.before }
    | none =>
      .ok { assembly with
        levels := rest
        items := level.before
        lacking := some (earlier level.place assembly.lacking) }

/-- `else` at `middle`: the consequent of the innermost block is complete. -/
def alternative (assembly : Assembly) (middle : Location) : Except Failure Assembly :=
  match assembly.levels with
  | ⟨.branch, place, before⟩ :: rest =>
    .ok { assembly with
      levels := ⟨.choice assembly.items.reverse middle, place, before⟩ :: rest
      items := [] }
  | _ => .error ⟨.elseWithoutIf, some middle⟩

/-- `do` at `middle`: the test of the innermost block is complete. -/
def body (assembly : Assembly) (middle : Location) : Except Failure Assembly :=
  match assembly.levels with
  | ⟨.test, place, before⟩ :: rest =>
    .ok { assembly with
      levels := ⟨.loop assembly.items.reverse middle, place, before⟩ :: rest
      items := [] }
  | _ => .error ⟨.doWithoutWhile, some middle⟩

/-- A keyword where an item is expected. -/
def keyword (assembly : Assembly) (keyword : Keyword) (place : Location) : Except Failure Assembly :=
  match keyword with
  | .if_ => .ok (assembly.enter .branch place)
  | .else_ => assembly.alternative place
  | .end_ => assembly.close place
  | .repeat_ => .ok (assembly.enter .repeats place)
  | .while_ => .ok (assembly.enter .test place)
  | .let_ => .ok (assembly.expect (.boundName place []))
  | .do_ => assembly.body place
  | .fn => .ok (assembly.expect (.functionName place))
  | .colon => .error ⟨.colonOutsideSignature, some place⟩
  | .var => .ok (assembly.expect (.cellName place))
  | .import_ => .ok (assembly.expect (.moduleName place))

/-- A token where an item is expected. -/
def item (assembly : Assembly) (token : Token) : Except Failure Assembly :=
  match token.lexeme with
  | .number digits =>
    ((Decimal.parse digits).locate token.place).map fun n => assembly.add (.number token.place n)
  | .string text => .ok (assembly.add (.string token.place text))
  | .word name => .ok (assembly.add (.word token.place name))
  | .keyword keyword => assembly.keyword keyword token.place

/-- What becomes of a program with one more token. -/
inductive Step
  | next (assembly : Assembly)
  | imports (name : String) (place : Location) (assembly : Assembly)

/-- Read one token. -/
def read (assembly : Assembly) (token : Token) : Except Failure Step :=
  match assembly.expects, token.lexeme with
  | .item, _ => (assembly.item token).map .next
  | .boundName place names, .word name =>
    .ok (.next (assembly.expect (.boundName place (name :: names))))
  | .boundName place names, .keyword .do_ =>
    if names.isEmpty then .error ⟨.letWithoutNames, some place⟩
    else .ok (.next (assembly.enter (.bind names.reverse) place))
  | .boundName .., found => .error ⟨.notANameToBind found, some token.place⟩
  | .functionName place, .word name => .ok (.next (assembly.expect (.inputType place name [])))
  | .functionName _, found => .error ⟨.notAFunctionName found, some token.place⟩
  | .inputType place name inputs, .word type =>
    .ok (.next (assembly.expect (.inputType place name (type :: inputs))))
  | .inputType place name inputs, .keyword .colon =>
    .ok (.next (assembly.expect (.outputType place name inputs.reverse [])))
  | .inputType .., found => .error ⟨.notATypeName .colon found, some token.place⟩
  | .outputType place name inputs outputs, .word type =>
    .ok (.next (assembly.expect (.outputType place name inputs (type :: outputs))))
  | .outputType place name inputs outputs, .keyword .do_ =>
    .ok (.next (assembly.enter (.define ⟨name, inputs, outputs.reverse⟩) place))
  | .outputType .., found => .error ⟨.notATypeName .do_ found, some token.place⟩
  | .cellName place, .word name => .ok (.next (assembly.enter (.cell name) place))
  | .cellName _, found => .error ⟨.notAVariableName found, some token.place⟩
  | .moduleName place, .keyword _ => .error ⟨.importWithoutName, some place⟩
  | .moduleName place, found => .ok (.imports found.contents place (assembly.expect .item))

/-- The program, once the tokens have ended. -/
def finish (assembly : Assembly) : Except Failure (List Item) :=
  match assembly.expects, assembly.levels, assembly.lacking with
  | .boundName place _, _, _ => .error ⟨.letWithoutDo, some place⟩
  | .functionName place, _, _ => .error ⟨.functionWithoutName, some place⟩
  | .inputType place .., _, _ => .error ⟨.signatureNotClosed .colon, some place⟩
  | .outputType place .., _, _ => .error ⟨.signatureNotClosed .do_, some place⟩
  | .cellName place, _, _ => .error ⟨.varWithoutName, some place⟩
  | .moduleName place, _, _ => .error ⟨.importWithoutName, some place⟩
  | .item, level :: _, _ =>
    .error ⟨.blockNotClosed level.opening.construct, some level.place⟩
  | .item, [], some place => .error ⟨.whileWithoutDo, some place⟩
  | .item, [], none => .ok assembly.items.reverse

/-- What stands in the program for an import: the items of `name`, which is wanted at the place. -/
abbrev Importer := String → Location → Workspace → Build (List Item)

/-- Read on to the end of the tokens. -/
def run (importer : Importer) : Assembly → List Token → Workspace → Build (List Item)
  | assembly, [], workspace => (assembly.finish, workspace)
  | assembly, token :: rest, workspace =>
    match assembly.read token with
    | .error failure => (.error failure, workspace)
    | .ok (.next next) => run importer next rest workspace
    | .ok (.imports name place next) =>
      match importer name place workspace with
      | (.error failure, after) => (.error failure, after)
      | (.ok items, after) => run importer (next.addAll items) rest after

/-- Leave imports in the program, to be resolved when they are reached. -/
def keepImports : Importer :=
  fun name place workspace => (.ok [.imports place name], workspace)

/-- The items of the module `name`, the modules it imports included. No chain of imports is longer
than `depth`, since no module on it may come twice. -/
def spliceImports (library : Library) : (depth : Nat) → Importer
  | 0, name, place, workspace =>
    (.error ⟨.importCycle workspace.chain name, some place⟩, workspace)
  | depth + 1, name, place, workspace =>
    (workspace.openModule library name place).andThen fun tokens opened =>
      let (result, after) := run (spliceImports library depth) {} tokens opened
      (result, after.close)

end Assembly

end TapeMachine
