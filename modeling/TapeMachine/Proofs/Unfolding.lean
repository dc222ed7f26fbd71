import Mathlib
import TapeMachine.Proofs.Inclusion

namespace TapeMachine

/-- The second program is the first one with what `resolves` allows in the place of each import. Beside that the two are
the same, but for their places, which are near to one another. -/
inductive Unfolds (resolves : String → List Item → Prop) (near : Location → Location → Prop) :
    (kept unfolded : List Item) → Prop
  | nil : Unfolds resolves near [] []
  | number {place place' n rest rest'} : near place place' → Unfolds resolves near rest rest' →
      Unfolds resolves near (.number place n :: rest) (.number place' n :: rest')
  | string {place place' text rest rest'} : near place place' → Unfolds resolves near rest rest' →
      Unfolds resolves near (.string place text :: rest) (.string place' text :: rest')
  | word {place place' name rest rest'} : near place place' → Unfolds resolves near rest rest' →
      Unfolds resolves near (.word place name :: rest) (.word place' name :: rest')
  | imports {place name included rest rest'} : resolves name included → Unfolds resolves near rest rest' →
      Unfolds resolves near (.imports place name :: rest) (included ++ rest')
  | branch {place place' stop stop' body body' rest rest'} : near place place' → near stop stop' →
      Unfolds resolves near body body' → Unfolds resolves near rest rest' →
      Unfolds resolves near (.branch place body stop :: rest) (.branch place' body' stop' :: rest')
  | choice {place place' middle middle' stop stop' first first' second second' rest rest'} : near place place' →
      near middle middle' → near stop stop' → Unfolds resolves near first first' →
      Unfolds resolves near second second' → Unfolds resolves near rest rest' →
      Unfolds resolves near (.choice place first middle second stop :: rest)
        (.choice place' first' middle' second' stop' :: rest')
  | repeats {place place' stop stop' body body' rest rest'} : near place place' → near stop stop' →
      Unfolds resolves near body body' → Unfolds resolves near rest rest' →
      Unfolds resolves near (.repeats place body stop :: rest) (.repeats place' body' stop' :: rest')
  | loop {place place' middle middle' stop stop' test test' body body' rest rest'} : near place place' →
      near middle middle' → near stop stop' → Unfolds resolves near test test' → Unfolds resolves near body body' →
      Unfolds resolves near rest rest' →
      Unfolds resolves near (.loop place test middle body stop :: rest) (.loop place' test' middle' body' stop' :: rest')
  | bind {place place' stop stop' names body body' rest rest'} : near place place' → near stop stop' →
      Unfolds resolves near body body' → Unfolds resolves near rest rest' →
      Unfolds resolves near (.bind place names body stop :: rest) (.bind place' names body' stop' :: rest')
  | cell {place place' stop stop' name body body' rest rest'} : near place place' → near stop stop' →
      Unfolds resolves near body body' → Unfolds resolves near rest rest' →
      Unfolds resolves near (.cell place name body stop :: rest) (.cell place' name body' stop' :: rest')
  | define {place place' stop stop' heading body body' rest rest'} : near place place' → near stop stop' →
      Unfolds resolves near body body' → Unfolds resolves near rest rest' →
      Unfolds resolves near (.define place heading body stop :: rest) (.define place' heading body' stop' :: rest')

namespace Unfolds

variable {resolves resolves' : String → List Item → Prop} {near near' : Location → Location → Prop}
variable {kept kept' unfolded unfolded' : List Item}

theorem append (first : Unfolds resolves near kept unfolded) (second : Unfolds resolves near kept' unfolded') :
    Unfolds resolves near (kept ++ kept') (unfolded ++ unfolded') := by
  induction first with
  | nil => exact second
  | number place _ ih => exact .number place ih
  | string place _ ih => exact .string place ih
  | word place _ ih => exact .word place ih
  | imports resolved _ ih =>
    rw [List.append_assoc]
    exact .imports resolved ih
  | branch place stop body _ _ ih => exact .branch place stop body ih
  | choice place middle stop first second _ _ _ ih => exact .choice place middle stop first second ih
  | repeats place stop body _ _ ih => exact .repeats place stop body ih
  | loop place middle stop test body _ _ _ ih => exact .loop place middle stop test body ih
  | bind place stop body _ _ ih => exact .bind place stop body ih
  | cell place stop body _ _ ih => exact .cell place stop body ih
  | define place stop body _ _ ih => exact .define place stop body ih

theorem mono (resolving : ∀ name included, resolves name included → resolves' name included)
    (nearing : ∀ place place', near place place' → near' place place')
    (unfolds : Unfolds resolves near kept unfolded) : Unfolds resolves' near' kept unfolded := by
  induction unfolds with
  | nil => exact .nil
  | number place _ ih => exact .number (nearing _ _ place) ih
  | string place _ ih => exact .string (nearing _ _ place) ih
  | word place _ ih => exact .word (nearing _ _ place) ih
  | imports resolved _ ih => exact .imports (resolving _ _ resolved) ih
  | branch place stop _ _ body ih => exact .branch (nearing _ _ place) (nearing _ _ stop) body ih
  | choice place middle stop _ _ _ first second ih =>
    exact .choice (nearing _ _ place) (nearing _ _ middle) (nearing _ _ stop) first second ih
  | repeats place stop _ _ body ih => exact .repeats (nearing _ _ place) (nearing _ _ stop) body ih
  | loop place middle stop _ _ _ test body ih =>
    exact .loop (nearing _ _ place) (nearing _ _ middle) (nearing _ _ stop) test body ih
  | bind place stop _ _ body ih => exact .bind (nearing _ _ place) (nearing _ _ stop) body ih
  | cell place stop _ _ body ih => exact .cell (nearing _ _ place) (nearing _ _ stop) body ih
  | define place stop _ _ body ih => exact .define (nearing _ _ place) (nearing _ _ stop) body ih

/-- The latest item comes last. -/
theorem concat {item item' : Item} (before : Unfolds resolves near kept.reverse unfolded.reverse)
    (latest : Unfolds resolves near [item] [item']) :
    Unfolds resolves near (item :: kept).reverse (item' :: unfolded).reverse := by
  rw [List.reverse_cons, List.reverse_cons]
  exact before.append latest

end Unfolds

section

variable (resolves : String → List Item → Prop) (near : Location → Location → Prop)

/-- An open block and what it becomes where imports are unfolded. -/
inductive Opening.Unfolds : Opening → Opening → Prop
  | branch : Opening.Unfolds .branch .branch
  | choice {first first' middle middle'} : TapeMachine.Unfolds resolves near first first' → near middle middle' →
      Opening.Unfolds (.choice first middle) (.choice first' middle')
  | repeats : Opening.Unfolds .repeats .repeats
  | test : Opening.Unfolds .test .test
  | loop {test test' middle middle'} : TapeMachine.Unfolds resolves near test test' → near middle middle' →
      Opening.Unfolds (.loop test middle) (.loop test' middle')
  | bind {names} : Opening.Unfolds (.bind names) (.bind names)
  | cell {name} : Opening.Unfolds (.cell name) (.cell name)
  | define {heading} : Opening.Unfolds (.define heading) (.define heading)

structure Level.Unfolds (level level' : Level) : Prop where
  opening : level.opening.Unfolds resolves near level'.opening
  place : near level.place level'.place
  before : TapeMachine.Unfolds resolves near level.before.reverse level'.before.reverse

inductive Expectation.Near : Expectation → Expectation → Prop
  | item : Expectation.Near .item .item
  | boundName {place place' names} : near place place' → Expectation.Near (.boundName place names) (.boundName place' names)
  | functionName {place place'} : near place place' → Expectation.Near (.functionName place) (.functionName place')
  | inputType {place place' name inputs} : near place place' →
      Expectation.Near (.inputType place name inputs) (.inputType place' name inputs)
  | outputType {place place' name inputs outputs} : near place place' →
      Expectation.Near (.outputType place name inputs outputs) (.outputType place' name inputs outputs)
  | cellName {place place'} : near place place' → Expectation.Near (.cellName place) (.cellName place')
  | moduleName {place place'} : near place place' → Expectation.Near (.moduleName place) (.moduleName place')

/-- A program that is being put together, and what it becomes where imports are unfolded. -/
structure Assembly.Unfolds (assembly assembly' : Assembly) : Prop where
  expects : assembly.expects.Near near assembly'.expects
  levels : List.Forall₂ (Level.Unfolds resolves near) assembly.levels assembly'.levels
  items : TapeMachine.Unfolds resolves near assembly.items.reverse assembly'.items.reverse
  lacking : assembly'.lacking = none → assembly.lacking = none

/-- One token in two places. -/
structure Token.Near (token token' : Token) : Prop where
  lexeme : token.lexeme = token'.lexeme
  place : near token.place token'.place

end

namespace Assembly

inductive Step.Unfolds (resolves : String → List Item → Prop) (near : Location → Location → Prop) : Step → Step → Prop
  | next {assembly assembly'} : assembly.Unfolds resolves near assembly' →
      Step.Unfolds resolves near (.next assembly) (.next assembly')
  | imports {name place place' assembly assembly'} : assembly.Unfolds resolves near assembly' →
      Step.Unfolds resolves near (.imports name place assembly) (.imports name place' assembly')

variable {resolves : String → List Item → Prop} {near : Location → Location → Prop}
variable {assembly assembly' next' : Assembly} {place place' : Location}

theorem Unfolds.add (unfolds : assembly.Unfolds resolves near assembly') {item item' : Item}
    (latest : TapeMachine.Unfolds resolves near [item] [item']) :
    (assembly.add item).Unfolds resolves near (assembly'.add item') :=
  ⟨.item, unfolds.levels, unfolds.items.concat latest, unfolds.lacking⟩

theorem Unfolds.expect (unfolds : assembly.Unfolds resolves near assembly') {expects expects' : Expectation}
    (same : expects.Near near expects') : (assembly.expect expects).Unfolds resolves near (assembly'.expect expects') :=
  ⟨same, unfolds.levels, unfolds.items, unfolds.lacking⟩

theorem Unfolds.enter (unfolds : assembly.Unfolds resolves near assembly') {opening opening' : Opening}
    (opens : opening.Unfolds resolves near opening') (there : near place place') :
    (assembly.enter opening place).Unfolds resolves near (assembly'.enter opening' place') :=
  ⟨.item, .cons ⟨opens, there, unfolds.items⟩ unfolds.levels, .nil, unfolds.lacking⟩

end Assembly

/-- What closes a block closes what it unfolds to. -/
theorem Level.Unfolds.close {resolves : String → List Item → Prop} {near : Location → Location → Prop}
    {level level' : Level} {body body' : List Item} {stop stop' : Location}
    (unfolds : level.Unfolds resolves near level') (inner : TapeMachine.Unfolds resolves near body body')
    (there : near stop stop') :
    (∃ item item', level.close body stop = some item ∧ level'.close body' stop' = some item' ∧
      TapeMachine.Unfolds resolves near [item] [item']) ∨ level'.close body' stop' = none ∧ level.close body stop = none := by
  obtain ⟨opening, place, before⟩ := level
  obtain ⟨opening', place', before'⟩ := level'
  obtain ⟨opens, here, -⟩ := unfolds
  cases opens with
  | branch => exact .inl ⟨_, _, rfl, rfl, .branch here there inner .nil⟩
  | choice first middle => exact .inl ⟨_, _, rfl, rfl, .choice here middle there first inner .nil⟩
  | repeats => exact .inl ⟨_, _, rfl, rfl, .repeats here there inner .nil⟩
  | test => exact .inr ⟨rfl, rfl⟩
  | loop test middle => exact .inl ⟨_, _, rfl, rfl, .loop here middle there test inner .nil⟩
  | bind => exact .inl ⟨_, _, rfl, rfl, .bind here there inner .nil⟩
  | cell => exact .inl ⟨_, _, rfl, rfl, .cell here there inner .nil⟩
  | define => exact .inl ⟨_, _, rfl, rfl, .define here there inner .nil⟩

namespace Assembly

variable {resolves : String → List Item → Prop} {near : Location → Location → Prop}
variable {assembly assembly' next' : Assembly} {place place' : Location}

theorem Unfolds.close (unfolds : assembly.Unfolds resolves near assembly') (there : near place place')
    (closed : assembly'.close place' = .ok next') :
    ∃ next, assembly.close place = .ok next ∧ next.Unfolds resolves near next' := by
  obtain ⟨expects, levels, items, lacking⟩ := assembly
  obtain ⟨expects', levels', items', lacking'⟩ := assembly'
  obtain ⟨sameExpects, sameLevels, sameItems, sameLacking⟩ := unfolds
  dsimp only at sameExpects sameLevels sameItems sameLacking
  cases sameLevels with
  | nil => cases closed
  | @cons level level' outer outer' sameLevel sameOuter =>
    unfold Assembly.close at closed ⊢
    dsimp only at closed ⊢
    rcases sameLevel.close sameItems there with ⟨item, item', here, here', same⟩ | ⟨none', none⟩
    · rw [here'] at closed
      cases closed
      rw [here]
      exact ⟨_, rfl, sameExpects, sameOuter, sameLevel.before.concat same, sameLacking⟩
    · rw [none'] at closed
      cases closed
      rw [none]
      exact ⟨_, rfl, sameExpects, sameOuter, sameLevel.before, nofun⟩

theorem Unfolds.alternative (unfolds : assembly.Unfolds resolves near assembly') (there : near place place')
    (split : assembly'.alternative place' = .ok next') :
    ∃ next, assembly.alternative place = .ok next ∧ next.Unfolds resolves near next' := by
  obtain ⟨expects, levels, items, lacking⟩ := assembly
  obtain ⟨expects', levels', items', lacking'⟩ := assembly'
  obtain ⟨sameExpects, sameLevels, sameItems, sameLacking⟩ := unfolds
  dsimp only at sameExpects sameLevels sameItems sameLacking
  cases sameLevels with
  | nil => cases split
  | @cons level level' outer outer' sameLevel sameOuter =>
    obtain ⟨opening, start, before⟩ := level
    obtain ⟨opening', start', before'⟩ := level'
    obtain ⟨opens, here, earlier⟩ := sameLevel
    dsimp only at opens here earlier
    cases opens with
    | branch =>
      cases split
      exact ⟨_, rfl, sameExpects, .cons ⟨.choice sameItems there, here, earlier⟩ sameOuter, .nil, sameLacking⟩
    | choice | repeats | test | loop | bind | cell | define => cases split

theorem Unfolds.body (unfolds : assembly.Unfolds resolves near assembly') (there : near place place')
    (split : assembly'.body place' = .ok next') :
    ∃ next, assembly.body place = .ok next ∧ next.Unfolds resolves near next' := by
  obtain ⟨expects, levels, items, lacking⟩ := assembly
  obtain ⟨expects', levels', items', lacking'⟩ := assembly'
  obtain ⟨sameExpects, sameLevels, sameItems, sameLacking⟩ := unfolds
  dsimp only at sameExpects sameLevels sameItems sameLacking
  cases sameLevels with
  | nil => cases split
  | @cons level level' outer outer' sameLevel sameOuter =>
    obtain ⟨opening, start, before⟩ := level
    obtain ⟨opening', start', before'⟩ := level'
    obtain ⟨opens, here, earlier⟩ := sameLevel
    dsimp only at opens here earlier
    cases opens with
    | test =>
      cases split
      exact ⟨_, rfl, sameExpects, .cons ⟨.loop sameItems there, here, earlier⟩ sameOuter, .nil, sameLacking⟩
    | branch | choice | repeats | loop | bind | cell | define => cases split

theorem Unfolds.keyword (unfolds : assembly.Unfolds resolves near assembly') (there : near place place')
    {keyword : Keyword} (meant : assembly'.keyword keyword place' = .ok next') :
    ∃ next, assembly.keyword keyword place = .ok next ∧ next.Unfolds resolves near next' := by
  cases keyword with
  | if_ => cases meant; exact ⟨_, rfl, unfolds.enter .branch there⟩
  | else_ => exact unfolds.alternative there meant
  | end_ => exact unfolds.close there meant
  | repeat_ => cases meant; exact ⟨_, rfl, unfolds.enter .repeats there⟩
  | while_ => cases meant; exact ⟨_, rfl, unfolds.enter .test there⟩
  | let_ => cases meant; exact ⟨_, rfl, unfolds.expect (.boundName there)⟩
  | do_ => exact unfolds.body there meant
  | fn => cases meant; exact ⟨_, rfl, unfolds.expect (.functionName there)⟩
  | colon => cases meant
  | var => cases meant; exact ⟨_, rfl, unfolds.expect (.cellName there)⟩
  | import_ => cases meant; exact ⟨_, rfl, unfolds.expect (.moduleName there)⟩

theorem Unfolds.item {lexeme : Lexeme} (unfolds : assembly.Unfolds resolves near assembly') (there : near place place')
    (meant : assembly'.item ⟨lexeme, place'⟩ = .ok next') :
    ∃ next, assembly.item ⟨lexeme, place⟩ = .ok next ∧ next.Unfolds resolves near next' := by
  cases lexeme with
  | number digits =>
    simp only [Assembly.item] at meant ⊢
    cases parsed : Decimal.parse digits with
    | error => rw [parsed] at meant; cases meant
    | ok n =>
      rw [parsed] at meant
      cases meant
      exact ⟨_, rfl, unfolds.add (.number there .nil)⟩
  | string text => cases meant; exact ⟨_, rfl, unfolds.add (.string there .nil)⟩
  | word name => cases meant; exact ⟨_, rfl, unfolds.add (.word there .nil)⟩
  | keyword keyword => exact unfolds.keyword there meant

/-- A token that is accepted where imports are unfolded is accepted where they are not. -/
theorem Unfolds.read {token token' : Token} {step' : Step} (unfolds : assembly.Unfolds resolves near assembly')
    (same : token.Near near token') (read : assembly'.read token' = .ok step') :
    ∃ step, assembly.read token = .ok step ∧ step.Unfolds resolves near step' := by
  obtain ⟨lexeme, place⟩ := token
  obtain ⟨lexeme', place'⟩ := token'
  obtain ⟨rfl, there⟩ := same
  have expects := unfolds.expects
  generalize here : assembly.expects = expected at expects
  generalize here' : assembly'.expects = expected' at expects
  simp only [Assembly.read, here'] at read
  simp only [Assembly.read, here]
  cases expects with
  | item =>
    cases meant : assembly'.item ⟨lexeme, place'⟩ with
    | error => rw [meant] at read; cases read
    | ok next' =>
      rw [meant] at read
      cases read
      obtain ⟨next, found, onward⟩ := unfolds.item there meant
      rw [found]
      exact ⟨_, rfl, .next onward⟩
  | boundName near =>
    cases lexeme with
    | word name => cases read; exact ⟨_, rfl, .next (unfolds.expect (.boundName near))⟩
    | keyword keyword =>
      cases keyword with
      | do_ =>
        dsimp only at read ⊢
        split at read
        · cases read
        · rename_i some
          rw [if_neg some]
          cases read
          exact ⟨_, rfl, .next (unfolds.enter .bind near)⟩
      | _ => cases read
    | number | string => cases read
  | functionName near =>
    cases lexeme with
    | word name => cases read; exact ⟨_, rfl, .next (unfolds.expect (.inputType near))⟩
    | number | string | keyword => cases read
  | inputType near =>
    cases lexeme with
    | word name => cases read; exact ⟨_, rfl, .next (unfolds.expect (.inputType near))⟩
    | keyword keyword =>
      cases keyword with
      | colon => cases read; exact ⟨_, rfl, .next (unfolds.expect (.outputType near))⟩
      | _ => cases read
    | number | string => cases read
  | outputType near =>
    cases lexeme with
    | word name => cases read; exact ⟨_, rfl, .next (unfolds.expect (.outputType near))⟩
    | keyword keyword =>
      cases keyword with
      | do_ => cases read; exact ⟨_, rfl, .next (unfolds.enter .define near)⟩
      | _ => cases read
    | number | string => cases read
  | cellName near =>
    cases lexeme with
    | word name => cases read; exact ⟨_, rfl, .next (unfolds.enter .cell near)⟩
    | number | string | keyword => cases read
  | moduleName near =>
    cases lexeme with
    | keyword => cases read
    | number | string | word => cases read; exact ⟨_, rfl, .imports (unfolds.expect .item)⟩

theorem Unfolds.finish {items' : List Item} (unfolds : assembly.Unfolds resolves near assembly')
    (finished : assembly'.finish = .ok items') :
    ∃ items, assembly.finish = .ok items ∧ TapeMachine.Unfolds resolves near items items' := by
  obtain ⟨expects, levels, items, lacking⟩ := assembly
  obtain ⟨expects', levels', items', lacking'⟩ := assembly'
  obtain ⟨sameExpects, sameLevels, sameItems, sameLacking⟩ := unfolds
  dsimp only at sameExpects sameLevels sameItems sameLacking
  cases sameExpects with
  | item =>
    cases sameLevels with
    | cons => cases finished
    | nil =>
      cases lacking' with
      | some => cases finished
      | none =>
        cases sameLacking rfl
        cases finished
        exact ⟨_, rfl, sameItems⟩
  | boundName | functionName | inputType | outputType | cellName | moduleName => cases finished

/-- What an importer puts in the place of an import is what `resolves` allows, provided that `early` is known of the
workspace before the import and `late` behind it. -/
structure Importer.Resolving (importer : Importer) (resolves : String → List Item → Prop)
    (early late : Workspace → Prop) : Prop where
  forth : ∀ name place workspace, early workspace → early (importer name place workspace).2
  back : ∀ name place workspace, late (importer name place workspace).2 → late workspace
  imports : ∀ {name place workspace included after}, early workspace → late after →
    importer name place workspace = (.ok included, after) → resolves name included

/-- A program that is accepted with its imports unfolded is accepted with its imports kept. -/
theorem unfolds_of_run {importer : Importer} {early late : Workspace → Prop}
    (resolving : importer.Resolving resolves early late)
    {tokens tokens' : List Token} (same : List.Forall₂ (Token.Near near) tokens tokens')
    (unfolds : assembly.Unfolds resolves near assembly') {workspace after : Workspace} {items' : List Item}
    (before : early workspace) (behind : late after)
    (built : run importer assembly' tokens' workspace = (.ok items', after)) :
    ∃ items, (∀ others, run keepImports assembly tokens others = (.ok items, others)) ∧
      TapeMachine.Unfolds resolves near items items' := by
  induction same generalizing assembly assembly' workspace with
  | nil =>
    rw [run] at built
    obtain ⟨items, finished, result⟩ := unfolds.finish (Prod.mk.inj built).1
    refine ⟨items, fun others => ?_, result⟩
    rw [run, finished]
  | @cons token token' rest rest' here _ ih =>
    cases read : assembly'.read token' with
    | error => exact (run_error read built).elim
    | ok step' =>
      obtain ⟨step, found, onward⟩ := unfolds.read here read
      cases onward with
      | next onward =>
        rw [run_next read] at built
        obtain ⟨items, runs, result⟩ := ih onward before built
        exact ⟨items, fun others => (run_next found).trans (runs others), result⟩
      | @imports name place place' assembly assembly' onward =>
        rw [run, read] at built
        cases imported : importer name place' workspace with
        | mk outcome between =>
        simp only [imported] at built
        cases outcome with
        | error failure => cases built
        | ok included =>
          change run importer (assembly'.addAll included) rest' between = _ at built
          have between_late : late between := by
            have chained := @run_related importer (fun first second => late second → late first) (fun _ => id)
              (fun earlier later => earlier ∘ later) resolving.back (assembly'.addAll included) rest' between
            rw [built] at chained
            exact chained behind
          have between_early : early between := by
            have kept := resolving.forth name place' workspace before
            rw [imported] at kept
            exact kept
          have resolved := resolving.imports before between_late imported
          have added : (assembly.addAll [.imports place name]).Unfolds resolves near (assembly'.addAll included) := by
            refine ⟨.item, onward.levels, ?_, onward.lacking⟩
            have latest : TapeMachine.Unfolds resolves near [.imports place name] (included ++ []) :=
              .imports resolved .nil
            rw [List.append_nil] at latest
            simp only [addAll, List.reverseAux_eq, List.reverse_append, List.reverse_reverse]
            exact onward.items.append latest
          obtain ⟨items, runs, result⟩ := ih added between_early built
          refine ⟨items, fun others => ?_, result⟩
          rw [run, found]
          exact runs others

end Assembly

end TapeMachine
