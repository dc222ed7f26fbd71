import Mathlib
import TapeMachine.Proofs.Acceptance

namespace TapeMachine

/-- The block without the items in it. -/
def Opening.bare : Opening → Opening
  | .choice _ middle => .choice [] middle
  | .loop _ middle => .loop [] middle
  | opening => opening

def Level.bare (level : Level) : Level where
  opening := level.opening.bare
  place := level.place
  before := []

theorem Level.bare_bare (level : Level) : level.bare.bare = level.bare := by
  obtain ⟨opening, place, before⟩ := level
  cases opening <;> rfl

theorem map_bare_bare (levels : List Level) : (levels.map Level.bare).map Level.bare = levels.map Level.bare := by
  rw [List.map_map]
  exact List.map_congr_left fun level _ => level.bare_bare

namespace Assembly

/-- What is left of a program that is being put together without the items in it: its open blocks and what is expected
next. -/
def bare (assembly : Assembly) : Assembly where
  expects := assembly.expects
  levels := assembly.levels.map Level.bare
  items := []
  lacking := assembly.lacking

def Step.bare : Step → Step
  | .next assembly => .next assembly.bare
  | .imports name place assembly => .imports name place assembly.bare

/-- Bared twice is bared once. -/
theorem bare_bare (assembly : Assembly) : assembly.bare.bare = assembly.bare := by
  rw [bare, bare, map_bare_bare]

theorem bare_add (assembly : Assembly) (item : Item) : (assembly.add item).bare = assembly.bare.expect .item :=
  rfl

theorem bare_expect (assembly : Assembly) (expects : Expectation) :
    (assembly.expect expects).bare = assembly.bare.expect expects :=
  rfl

theorem bare_enter (assembly : Assembly) (opening : Opening) (place : Location) :
    (assembly.bare.enter opening place).bare = (assembly.enter opening place).bare := by
  simp only [bare, enter, List.map_cons, map_bare_bare]
  rfl

/-- Items that are put where an item is expected do not show. -/
theorem bare_addAll {assembly : Assembly} (expects : assembly.expects = .item) (items : List Item) :
    (assembly.addAll items).bare = assembly.bare := by
  rw [bare, bare, expects]
  rfl

/-- Which item a level closes to depends on its opening; what is inside it does not decide whether it closes. -/
theorem close_bare (assembly : Assembly) (stop : Location) :
    (assembly.bare.close stop).map bare = (assembly.close stop).map bare := by
  obtain ⟨expects, levels, items, lacking⟩ := assembly
  cases levels with
  | nil => rfl
  | cons level rest =>
    obtain ⟨opening, place, before⟩ := level
    cases opening <;>
      simp only [close, bare, List.map_cons, Level.bare, Opening.bare, Level.close, Except.map, map_bare_bare]

theorem alternative_bare (assembly : Assembly) (middle : Location) :
    (assembly.bare.alternative middle).map bare = (assembly.alternative middle).map bare := by
  obtain ⟨expects, levels, items, lacking⟩ := assembly
  cases levels with
  | nil => rfl
  | cons level rest =>
    obtain ⟨opening, place, before⟩ := level
    cases opening <;>
      simp only [alternative, bare, List.map_cons, Level.bare, Opening.bare, Except.map, map_bare_bare]

theorem body_bare (assembly : Assembly) (middle : Location) :
    (assembly.bare.body middle).map bare = (assembly.body middle).map bare := by
  obtain ⟨expects, levels, items, lacking⟩ := assembly
  cases levels with
  | nil => rfl
  | cons level rest =>
    obtain ⟨opening, place, before⟩ := level
    cases opening <;>
      simp only [body, bare, List.map_cons, Level.bare, Opening.bare, Except.map, map_bare_bare]

/-- Keywords look at the innermost opening alone. -/
theorem keyword_bare (assembly : Assembly) (keyword : Keyword) (place : Location) :
    (assembly.bare.keyword keyword place).map bare = (assembly.keyword keyword place).map bare := by
  cases keyword with
  | else_ => exact assembly.alternative_bare place
  | end_ => exact assembly.close_bare place
  | do_ => exact assembly.body_bare place
  | colon => rfl
  | if_ | repeat_ | while_ => exact congrArg Except.ok (assembly.bare_enter ..)
  | let_ | fn | var | import_ => simp [Assembly.keyword, Except.map, bare_expect, bare_bare]

/-- So does every token that is read as an item. -/
theorem item_bare (assembly : Assembly) (token : Token) :
    (assembly.bare.item token).map bare = (assembly.item token).map bare := by
  obtain ⟨lexeme, place⟩ := token
  cases lexeme with
  | keyword keyword => exact assembly.keyword_bare keyword place
  | string | word => simp [item, Except.map, bare_add, bare_bare]
  | number digits =>
    simp only [item]
    cases Decimal.parse digits with
    | error => rfl
    | ok => simp [Outcome.locate, Except.mapError, Except.map, bare_add, bare_bare]

theorem next_bare {first second : Assembly} (same : first.bare = second.bare) :
    (Except.ok (Step.next first) : Except Failure Step).map Step.bare = (Except.ok (Step.next second)).map Step.bare :=
  congrArg (fun assembly => Except.ok (Step.next assembly)) same

theorem map_next_bare {first second : Except Failure Assembly} (same : first.map bare = second.map bare) :
    (first.map Step.next).map Step.bare = (second.map Step.next).map Step.bare := by
  cases first with
  | error =>
    cases second with
    | error => cases same; rfl
    | ok => cases same
  | ok first =>
    cases second with
    | error => cases same
    | ok second => exact next_bare (Except.ok.inj same)

/-- Which tokens can be read does not depend on the items. -/
theorem read_bare (assembly : Assembly) (token : Token) :
    (assembly.bare.read token).map Step.bare = (assembly.read token).map Step.bare := by
  have onward : ∀ expects, (assembly.bare.expect expects).bare = (assembly.expect expects).bare := by
    intro expects
    rw [bare_expect, bare_bare, bare_expect]
  obtain ⟨lexeme, place⟩ := token
  generalize same : assembly.expects = expects
  have same' : assembly.bare.expects = expects := same
  simp only [read, same, same']
  cases expects with
  | item => exact map_next_bare (assembly.item_bare ⟨lexeme, place⟩)
  | boundName start names =>
    cases lexeme with
    | word name => exact next_bare (onward _)
    | keyword keyword =>
      cases keyword with
      | do_ =>
        dsimp only
        split
        · rfl
        · exact next_bare (assembly.bare_enter ..)
      | _ => rfl
    | number | string => rfl
  | functionName start =>
    cases lexeme with
    | word name => exact next_bare (onward _)
    | number | string | keyword => rfl
  | inputType start name inputs =>
    cases lexeme with
    | word type => exact next_bare (onward _)
    | keyword keyword =>
      cases keyword with
      | colon => exact next_bare (onward _)
      | _ => rfl
    | number | string => rfl
  | outputType start name inputs outputs =>
    cases lexeme with
    | word type => exact next_bare (onward _)
    | keyword keyword =>
      cases keyword with
      | do_ => exact next_bare (assembly.bare_enter ..)
      | _ => rfl
    | number | string => rfl
  | cellName start =>
    cases lexeme with
    | word name => exact next_bare (assembly.bare_enter ..)
    | number | string | keyword => rfl
  | moduleName start =>
    cases lexeme with
    | keyword => rfl
    | number name | string name | word name =>
      exact congrArg (fun assembly => Except.ok (Step.imports name start assembly)) (onward _)

/-- Whether a text is complete can be seen from the openings. -/
theorem finish_bare (assembly : Assembly) :
    assembly.bare.finish.map (fun _ => ()) = assembly.finish.map (fun _ => ()) := by
  obtain ⟨expects, levels, items, lacking⟩ := assembly
  cases expects with
  | item =>
    cases levels with
    | nil => cases lacking <;> rfl
    | cons level outer =>
      obtain ⟨opening, place, before⟩ := level
      cases opening <;> rfl
  | _ => rfl

/-- The tokens can be read to their end, whatever comes of the imports among them. -/
def Accepts : Assembly → List Token → Prop
  | assembly, [] => ∃ items, assembly.finish = .ok items
  | assembly, token :: rest => ∃ step, assembly.read token = .ok step ∧ Accepts step.rest rest

variable {assembly other : Assembly} {token : Token} {tokens : List Token}

theorem accepts_of_bare (accepts : assembly.Accepts tokens) (same : assembly.bare = other.bare) :
    other.Accepts tokens := by
  induction tokens generalizing assembly other with
  | nil =>
    obtain ⟨items, finished⟩ := accepts
    have alike := other.finish_bare
    rw [← same, assembly.finish_bare, finished] at alike
    cases finished' : other.finish with
    | ok items' => exact ⟨items', finished'⟩
    | error => rw [finished'] at alike; cases alike
  | cons token rest ih =>
    obtain ⟨step, read, onward⟩ := accepts
    have alike := other.read_bare token
    rw [← same, assembly.read_bare, read] at alike
    cases read' : other.read token with
    | error => rw [read'] at alike; cases alike
    | ok step' =>
      rw [read'] at alike
      have steps := Except.ok.inj alike
      refine ⟨step', read', ih onward ?_⟩
      cases step with
      | next next =>
        cases step' with
        | next next' => exact Step.next.inj steps
        | imports => cases steps
      | imports name place next =>
        cases step' with
        | next => cases steps
        | imports name' place' next' => exact (Step.imports.inj steps).2.2

/-- Behind the name of a module an item is expected. -/
theorem expects_of_imports {name : String} {place : Location}
    (read : assembly.read token = .ok (.imports name place other)) :
    assembly.expects = .moduleName place ∧ token.lexeme.contents = name ∧
      (∀ keyword, token.lexeme ≠ .keyword keyword) ∧ other.expects = .item := by
  unfold Assembly.read at read
  split at read
  · cases meant : assembly.item token with
    | error => rw [meant] at read; cases read
    | ok => rw [meant] at read; cases read
  · cases read
  · split at read <;> cases read
  all_goals try (cases read; done)
  rename_i start expects plain
  cases read
  exact ⟨expects, rfl, plain, rfl⟩

/-- What an import is replaced by makes no difference to the tokens behind it. -/
theorem accepts_addAll {name : String} {place : Location} (read : assembly.read token = .ok (.imports name place other))
    (accepts : assembly.Accepts (token :: tokens)) (items : List Item) : (other.addAll items).Accepts tokens := by
  obtain ⟨step, read', onward⟩ := accepts
  cases read.symm.trans read'
  exact accepts_of_bare onward (bare_addAll (expects_of_imports read).2.2.2 items).symm

/-- Tokens that are accepted with their imports kept can be read to their end. -/
theorem accepts_of_run {workspace after : Workspace} {items : List Item}
    (built : run keepImports assembly tokens workspace = (.ok items, after)) : assembly.Accepts tokens := by
  induction tokens generalizing assembly workspace with
  | nil => exact ⟨items, (Prod.mk.inj built).1⟩
  | cons token rest ih =>
    cases read : assembly.read token with
    | error => exact (run_error read built).elim
    | ok step =>
      refine ⟨step, read, ?_⟩
      rw [run, read] at built
      cases step with
      | next next => exact ih built
      | imports name place next =>
        have onward := ih (show run keepImports (next.addAll [.imports place name]) rest workspace = _ from built)
        exact accepts_of_bare onward (bare_addAll (expects_of_imports read).2.2.2 _)

end Assembly

end TapeMachine
