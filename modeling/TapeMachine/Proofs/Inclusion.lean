import Mathlib
import TapeMachine.Proofs.Growth
import TapeMachine.Proofs.Relocation

namespace TapeMachine

/-- `flat` comes of the tokens when the tokens of the modules take the place of the imports, recursively. -/
inductive Includes (module : String → Option (List Token)) : (tokens flat : List Token) → Prop
  | nil : Includes module [] []
  | token {token : Token} {rest flat : List Token} : token.lexeme ≠ .keyword .import_ → Includes module rest flat →
      Includes module (token :: rest) (token :: flat)
  | splice {place : Location} {target : Token} {inner included rest flat : List Token} :
      (∀ keyword, target.lexeme ≠ .keyword keyword) → module target.lexeme.contents = some inner →
      Includes module inner included → Includes module rest flat →
      Includes module (Keyword.import_.token place :: target :: rest) (included ++ flat)

/-- The tokens import the module `name`, or a module that does. -/
inductive Imports (module : String → Option (List Token)) : (tokens : List Token) → (name : String) → Prop
  | here {place : Location} {target : Token} {rest : List Token} :
      Imports module (Keyword.import_.token place :: target :: rest) target.lexeme.contents
  | inside {place : Location} {target : Token} {inner rest : List Token} {name : String} :
      module target.lexeme.contents = some inner → Imports module inner name →
      Imports module (Keyword.import_.token place :: target :: rest) name
  | later {token : Token} {rest : List Token} {name : String} : Imports module rest name →
      Imports module (token :: rest) name

namespace Includes

variable {module other : String → Option (List Token)} {tokens flat flat' root : List Token}

theorem unique (includes : Includes module tokens flat) (includes' : Includes module tokens flat') : flat = flat' := by
  induction includes generalizing flat' with
  | nil =>
    cases includes'
    rfl
  | token ordinary _ ih =>
    cases includes' with
    | token _ rest => rw [ih rest]
    | splice => exact (ordinary rfl).elim
  | splice plain found _ _ innerIh restIh =>
    cases includes' with
    | token ordinary => exact (ordinary rfl).elim
    | splice _ found' inner rest =>
      cases found.symm.trans found'
      rw [innerIh inner, restIh rest]

theorem importFree (includes : Includes module tokens flat) : ∀ token ∈ flat, token.lexeme ≠ .keyword .import_ := by
  induction includes with
  | nil => simp
  | token ordinary _ ih =>
    intro token member
    rcases List.mem_cons.1 member with rfl | later
    · exact ordinary
    · exact ih token later
  | splice _ _ _ _ innerIh restIh =>
    intro token member
    rcases List.mem_append.1 member with inner | rest
    · exact innerIh token inner
    · exact restIh token rest

theorem mono (more : ∀ name inner, module name = some inner → other name = some inner)
    (includes : Includes module tokens flat) : Includes other tokens flat := by
  induction includes with
  | nil => exact .nil
  | token ordinary _ ih => exact .token ordinary ih
  | splice plain found _ _ innerIh restIh => exact .splice plain (more _ _ found) innerIh restIh

/-- The modules but for those that have the tokens `root`. -/
def Without (module : String → Option (List Token)) (root : List Token) (name : String) : Option (List Token) :=
  if module name = some root then none else module name

theorem of_without {name : String} {inner : List Token} (found : Without module root name = some inner) :
    module name = some inner ∧ inner ≠ root := by
  unfold Without at found
  split at found
  · cases found
  · rename_i others
    exact ⟨found, fun same => others (same ▸ found)⟩

/-- Either the modules with the tokens `root` are not needed, or those tokens can be flattened without them. -/
theorem without_or_root (includes : Includes module tokens flat) :
    Includes (Without module root) tokens flat ∨ ∃ whole, Includes (Without module root) root whole := by
  induction includes with
  | nil => exact .inl .nil
  | token ordinary _ ih => exact ih.imp_left (.token ordinary)
  | @splice place target inner included rest flat plain found _ _ innerIh restIh =>
    rcases innerIh with innerFlat | whole
    · by_cases isRoot : inner = root
      · exact .inr ⟨included, isRoot ▸ innerFlat⟩
      · have kept : Without module root target.lexeme.contents = some inner := by
          rw [Without, if_neg (by rw [found]; simpa using isRoot), found]
        exact restIh.imp_left (.splice plain kept innerFlat)
    · exact .inr whole

/-- No tokens are included in themselves. -/
theorem without (includes : Includes module root flat) : Includes (Without module root) root flat := by
  obtain ⟨whole, flattened⟩ : ∃ whole, Includes (Without module root) root whole :=
    (without_or_root includes).elim (fun here => ⟨flat, here⟩) id
  have same := unique includes (flattened.mono fun _ _ found => (of_without found).1)
  rw [same]
  exact flattened

end Includes

namespace Imports

variable {module other : String → Option (List Token)} {tokens flat : List Token} {name : String}

/-- Of an import that is read, either the module is wanted, or one that it imports, or one that is imported behind. -/
theorem splice_inv {place : Location} {target : Token} {rest : List Token}
    (plain : ∀ keyword, target.lexeme ≠ .keyword keyword)
    (imports : Imports module (Keyword.import_.token place :: target :: rest) name) :
    name = target.lexeme.contents ∨
      (∃ inner, module target.lexeme.contents = some inner ∧ Imports module inner name) ∨ Imports module rest name := by
  cases imports with
  | here => exact .inl rfl
  | inside found inner => exact .inr (.inl ⟨_, found, inner⟩)
  | later behind =>
    cases behind with
    | here | inside => exact (plain _ rfl).elim
    | later rest => exact .inr (.inr rest)

theorem token_inv {token : Token} {rest : List Token} (ordinary : token.lexeme ≠ .keyword .import_)
    (imports : Imports module (token :: rest) name) : Imports module rest name := by
  cases imports with
  | here | inside => exact (ordinary rfl).elim
  | later rest => exact rest

theorem mono (more : ∀ name inner, module name = some inner → other name = some inner)
    (imports : Imports module tokens name) : Imports other tokens name := by
  induction imports with
  | here => exact .here
  | inside found _ ih => exact .inside (more _ _ found) ih
  | later _ ih => exact .later ih

/-- Where tokens can be flattened with fewer modules, these are all that they import. -/
theorem restrict (fewer : ∀ name inner, other name = some inner → module name = some inner)
    (includes : Includes other tokens flat) (imports : Imports module tokens name) : Imports other tokens name := by
  induction includes with
  | nil => cases imports
  | token ordinary _ ih => exact .later (ih (imports.token_inv ordinary))
  | splice plain found _ _ innerIh restIh =>
    rcases imports.splice_inv plain with rfl | ⟨inner, found', inside⟩ | rest
    · exact .here
    · cases (fewer _ _ found).symm.trans found'
      exact .inside found (innerIh inside)
    · exact .later (.later (restIh rest))

/-- The tokens of a module that is imported can be flattened, too. -/
theorem includes (includes : Includes module tokens flat) (imports : Imports module tokens name) :
    ∃ inner flat, module name = some inner ∧ Includes module inner flat := by
  induction includes with
  | nil => cases imports
  | token ordinary _ ih => exact ih (imports.token_inv ordinary)
  | splice plain found included _ innerIh restIh =>
    rcases imports.splice_inv plain with rfl | ⟨inner, found', inside⟩ | rest
    · exact ⟨_, _, found, included⟩
    · cases found.symm.trans found'
      exact innerIh inside
    · exact restIh rest

end Imports

namespace Assembly

variable {importer : Importer} {assembly next : Assembly} {token : Token} {tokens : List Token}
variable {workspace after : Workspace} {items : List Item}

/-- No import waits for its name. -/
def Named (assembly : Assembly) : Prop :=
  ∀ place, assembly.expects ≠ .moduleName place

theorem named_of_item (expects : assembly.expects = .item) : assembly.Named := by
  intro place waits
  cases expects.symm.trans waits

theorem named_of_keyword {keyword : Keyword} {place : Location} (ordinary : keyword ≠ .import_)
    (expects : assembly.expects = .item) (meant : assembly.keyword keyword place = .ok next) : next.Named := by
  cases keyword with
  | if_ | repeat_ | while_ | let_ | fn | var => cases meant; exact fun _ => nofun
  | import_ => exact (ordinary rfl).elim
  | colon => cases meant
  | else_ =>
    simp only [Assembly.keyword, alternative] at meant
    split at meant
    · cases meant; exact named_of_item expects
    · cases meant
  | do_ =>
    simp only [Assembly.keyword, body] at meant
    split at meant
    · cases meant; exact named_of_item expects
    · cases meant
  | end_ =>
    simp only [Assembly.keyword, close] at meant
    split at meant
    · cases meant
    · split at meant <;> (cases meant; exact named_of_item expects)

theorem named_of_itemToken (ordinary : token.lexeme ≠ .keyword .import_) (expects : assembly.expects = .item)
    (meant : assembly.item token = .ok next) : next.Named := by
  unfold item at meant
  split at meant
  · rename_i digits _
    cases parsed : Decimal.parse digits with
    | error => rw [parsed] at meant; cases meant
    | ok => rw [parsed] at meant; cases meant; exact fun _ => nofun
  · cases meant; exact fun _ => nofun
  · cases meant; exact fun _ => nofun
  · rename_i keyword lexeme
    exact named_of_keyword (fun same => ordinary (same ▸ lexeme)) expects meant

/-- A token that is no `import` adds no import. -/
theorem named_of_read {step : Step} (named : assembly.Named) (ordinary : token.lexeme ≠ .keyword .import_)
    (read : assembly.read token = .ok step) : ∃ next, step = .next next ∧ next.Named := by
  unfold Assembly.read at read
  split at read
  · rename_i expects
    cases meant : assembly.item token with
    | error => rw [meant] at read; cases read
    | ok next =>
      rw [meant] at read
      cases read
      exact ⟨next, rfl, named_of_itemToken ordinary expects meant⟩
  · cases read
    exact ⟨_, rfl, fun _ => nofun⟩
  · split at read
    · cases read
    · cases read
      exact ⟨_, rfl, fun _ => nofun⟩
  all_goals first
    | (cases read; done)
    | (rename_i waits _; exact (named _ waits).elim)
    | (cases read; exact ⟨_, rfl, fun _ => nofun⟩)

/-- `import` stands where an item is expected, and waits for its name. -/
theorem item_of_read_import {step : Step} {place : Location} (named : assembly.Named)
    (read : assembly.read (Keyword.import_.token place) = .ok step) :
    assembly.expects = .item ∧ step = .next (assembly.expect (.moduleName place)) := by
  cases expects : assembly.expects with
  | item =>
    rw [read_keyword expects] at read
    cases read
    exact ⟨rfl, rfl⟩
  | moduleName waits => exact (named waits expects).elim
  | boundName | functionName | inputType | outputType | cellName =>
    simp only [Assembly.read, expects, Keyword.token] at read
    cases read

/-- Where tokens import nothing, it does not matter how imports are resolved. -/
theorem run_importFree (importFree : ∀ token ∈ tokens, token.lexeme ≠ .keyword .import_) (named : assembly.Named)
    (importer other : Importer) (workspace : Workspace) :
    run importer assembly tokens workspace = run other assembly tokens workspace := by
  induction tokens generalizing assembly with
  | nil => rfl
  | cons token rest ih =>
    rw [run, run]
    cases read : assembly.read token with
    | error => rfl
    | ok step =>
      obtain ⟨next, rfl, onward⟩ := named_of_read named (importFree token List.mem_cons_self) read
      exact ih (fun later member => importFree later (List.mem_cons_of_mem token member)) onward

/-- Tokens that are accepted on their own put their items on the level where an item is expected. -/
theorem run_append (built : run keepImports {} tokens workspace = (.ok items, after))
    (expects : assembly.expects = .item) (rest : List Token) (others : Workspace) :
    run keepImports assembly (tokens ++ rest) others = run keepImports (assembly.addAll items) rest others := by
  have completes := sure _ built (Nat.lt_succ_self _) rfl
  generalize before : ({} : Assembly).items = nothing at completes
  cases completes with
  | program _ phrases =>
    have same : nothing.reverse ++ itemsOf phrases = itemsOf phrases := by rw [← before]; rfl
    rw [same]
    exact run_tokensOf phrases expects rest others

end Assembly

namespace Sources

/-- The tokens of the file of this name in the table. -/
def tokensOf (sources : Sources) (name : String) : Option (List Token) :=
  (sources.find? name).bind fun file => (sources.get? file).bind fun found => (Token.ofText file found.text).toOption

/-- The tokens of a module of the library, numbered as the file of its name in the table. -/
def moduleTokens (sources : Sources) (modules : Dictionary String) (name : String) : Option (List Token) :=
  (modules.get? name).bind fun text => (sources.find? name).bind fun file => (Token.ofText file text).toOption

end Sources

namespace Assembly

variable {modules : Dictionary String} {tokens : List Token} {workspace after : Workspace} {items : List Item}

/-- An import that has been spliced is a module that has been opened, assembled and closed. -/
theorem spliceImports_eq_ok {depth : Nat} {name : String} {place : Location}
    (spliced : spliceImports (.memory modules) depth name place workspace = (.ok items, after)) :
    ∃ less tokens opened done, depth = less + 1 ∧ Workspace.Opens modules name workspace tokens opened ∧
      run (spliceImports (.memory modules) less) {} tokens opened = (.ok items, done) ∧ after = done.close := by
  cases depth with
  | zero => cases spliced
  | succ less =>
    rw [spliceImports] at spliced
    cases opened : workspace.openModule (.memory modules) name place with
    | mk outcome between =>
    rw [opened] at spliced
    cases outcome with
    | error failure => cases spliced
    | ok tokens =>
      cases assembled : run (spliceImports (.memory modules) less) {} tokens between with
      | mk result last =>
      simp only [Build.andThen, assembled] at spliced
      cases spliced
      exact ⟨less, tokens, between, last, rfl, Workspace.opens_of_openModule opened, assembled, rfl⟩

theorem tokensOf_of_opens {final : Sources} {name : String} (opens : Workspace.Opens modules name workspace tokens after)
    (grown : Sources.Grown modules after.sources final) : final.tokensOf name = some tokens := by
  obtain ⟨file, text, here, there, read⟩ := opens.file
  rw [Sources.tokensOf, grown.find? here, Option.bind_some, grown.get? there, Option.bind_some, read]
  rfl

/-- Where an item is expected, an import is read together with its name. -/
theorem run_import {importer : Importer} {assembly : Assembly} {place : Location} (named : assembly.Named)
    (built : run importer assembly (Keyword.import_.token place :: tokens) workspace = (.ok items, after)) :
    assembly.expects = .item ∧ ∃ target rest included between,
      tokens = target :: rest ∧ (∀ keyword, target.lexeme ≠ .keyword keyword) ∧
      importer target.lexeme.contents place workspace = (.ok included, between) ∧
      run importer (assembly.addAll included) rest between = (.ok items, after) := by
  cases read : assembly.read (Keyword.import_.token place) with
  | error => exact (run_error read built).elim
  | ok step =>
    obtain ⟨expects, rfl⟩ := item_of_read_import named read
    rw [run_next read] at built
    refine ⟨expects, ?_⟩
    cases tokens with
    | nil => cases built
    | cons target rest =>
      have plain : ∀ keyword, target.lexeme ≠ .keyword keyword := by
        intro keyword isKeyword
        obtain ⟨lexeme, there⟩ := target
        cases isKeyword
        exact run_error rfl built
      have wanted : (assembly.expect (.moduleName place)).read target =
          .ok (.imports target.lexeme.contents place (assembly.expect .item)) := by
        obtain ⟨lexeme, there⟩ := target
        cases lexeme with
        | keyword keyword => exact (plain keyword rfl).elim
        | number | string | word => rfl
      rw [run, wanted] at built
      cases imported : importer target.lexeme.contents place workspace with
      | mk outcome between =>
      simp only [imported] at built
      cases outcome with
      | error failure => cases built
      | ok included => exact ⟨target, rest, included, between, rfl, plain, imported, built⟩

/-- The items stand in the program that come of the tokens of the module `name`, once the tokens of the modules that it
imports itself are included in them. -/
def Spliced (final : Sources) (name : String) (items : List Item) : Prop :=
  ∃ inner flat own, final.tokensOf name = some inner ∧ Includes final.tokensOf inner flat ∧
    (∀ others, run keepImports {} flat others = (.ok own, others)) ∧ Within own items

/-- What an importer puts in the place of an import is the program of the tokens of the module, once the tokens of the
modules it imports itself are included in them. -/
def Importer.Flattens (importer : Importer) (modules : Dictionary String) (final : Sources) : Prop :=
  ∀ {name place workspace included between}, importer name place workspace = (.ok included, between) →
    Sources.Grown modules between.sources final →
      ∃ inner flat, final.tokensOf name = some inner ∧ Includes final.tokensOf inner flat ∧
        (∀ others, run keepImports {} flat others = (.ok included, others)) ∧
        ∀ name, Imports final.tokensOf inner name → Spliced final name included

/-- Behind such an importer the same program comes of the flat tokens, without any import. -/
theorem flat_of_run {importer : Importer} {final : Sources} (flattens : importer.Flattens modules final)
    (grows : ∀ name place workspace, Sources.Grown modules workspace.sources (importer name place workspace).2.sources)
    (tokens : List Token) {assembly : Assembly} {workspace : Workspace} (named : assembly.Named)
    (built : run importer assembly tokens workspace = (.ok items, after))
    (grown : Sources.Grown modules after.sources final) :
    ∃ flat, Includes final.tokensOf tokens flat ∧
      (∀ others, run keepImports assembly flat others = (.ok items, others)) ∧
      ∀ name, Imports final.tokensOf tokens name → Spliced final name items := by
  match tokens with
  | [] =>
    rw [run] at built
    refine ⟨[], .nil, fun others => ?_, nofun⟩
    rw [run, (Prod.mk.inj built).1]
  | ⟨lexeme, place⟩ :: behind =>
    by_cases ordinary : lexeme = .keyword .import_
    · cases ordinary
      obtain ⟨expects, target, rest, included, between, same, plain, imported, onward⟩ := run_import named built
      have later : Sources.Grown modules between.sources after.sources := by
        have growing := grown_run grows (assembly.addAll included) rest between
        rw [onward] at growing
        exact growing
      obtain ⟨inner, flatInner, known, innerIncludes, innerRuns, innerSpliced⟩ := flattens imported (later.trans grown)
      have shorter : rest.length < behind.length := by rw [same]; exact Nat.lt_succ_self _
      obtain ⟨flat, includes, runs, spliced⟩ := flat_of_run flattens grows rest (named_of_item rfl) onward grown
      rw [same]
      refine ⟨flatInner ++ flat, .splice plain known innerIncludes includes, fun others => ?_, fun name imports => ?_⟩
      · rw [run_append (innerRuns others) expects flat others]
        exact runs others
      · have stands : Within included items := within_of_run (runs workspace)
        rcases imports.splice_inv plain with rfl | ⟨inner', known', inside⟩ | rest
        · exact ⟨inner, flatInner, included, known, innerIncludes, innerRuns, stands⟩
        · cases known.symm.trans known'
          obtain ⟨deeper, flatDeeper, own, found, flattened, ownRuns, within⟩ := innerSpliced name inside
          exact ⟨deeper, flatDeeper, own, found, flattened, ownRuns, within.trans stands⟩
        · exact spliced name rest
    · cases read : assembly.read ⟨lexeme, place⟩ with
      | error => exact (run_error read built).elim
      | ok step =>
        obtain ⟨next, rfl, onward⟩ := named_of_read named ordinary read
        rw [run_next read] at built
        obtain ⟨flat, includes, runs, spliced⟩ := flat_of_run flattens grows behind onward built grown
        refine ⟨⟨lexeme, place⟩ :: flat, .token ordinary includes, fun others => ?_, fun name imports => ?_⟩
        · rw [run_next read]
          exact runs others
        · exact spliced name (imports.token_inv ordinary)
termination_by tokens.length

theorem spliceImports_flattens (modules : Dictionary String) (final : Sources) (depth : Nat) :
    (spliceImports (.memory modules) depth).Flattens modules final := by
  induction depth with
  | zero =>
    intro name place workspace included between spliced
    cases spliced
  | succ depth ih =>
    intro name place workspace included between spliced grown
    obtain ⟨less, inner, opened, done, same, opens, assembled, rfl⟩ := spliceImports_eq_ok spliced
    cases same
    have inside : Sources.Grown modules opened.sources done.sources := by
      have growing := grown_run (grown_spliceImports modules depth) {} inner opened
      rw [assembled] at growing
      exact growing
    obtain ⟨flat, includes, runs, spliced⟩ :=
      flat_of_run ih (grown_spliceImports modules depth) inner (named_of_item rfl) assembled grown
    exact ⟨inner, flat, tokensOf_of_opens opens (inside.trans grown), includes, runs, spliced⟩

end Assembly

/-- Behind a build that began with the root alone, a file that has other tokens than the root is a module's. -/
theorem Sources.moduleTokens_of_tokensOf {modules : Dictionary String} {final : Sources} {name text module : String}
    {root inner : List Token} (grown : Grown modules (({} : Sources).add name text) final)
    (read : Token.ofText 0 text = .ok root) (found : final.tokensOf module = some inner) (other : inner ≠ root) :
    final.moduleTokens modules module = some inner := by
  obtain ⟨file, here, body⟩ := Option.bind_eq_some_iff.1 found
  obtain ⟨written, there⟩ := get?_of_find? here
  rw [there, Option.bind_some] at body
  have new : (({} : Sources).add name text).get? file = none := by
    cases file with
    | succ file => rfl
    | zero =>
      have rootFile := grown.get? (show (({} : Sources).add name text).get? 0 = some ⟨name, text⟩ from rfl)
      cases there.symm.trans rootFile
      rw [read] at body
      cases body
      exact (other rfl).elim
  have known := grown.get?_new there new
  rw [moduleTokens, known, Option.bind_some, here, Option.bind_some]
  exact body

/-- A program that can be compiled with its imports spliced is the program of the tokens of its text. -/
theorem spliced_of_compile {modules : Dictionary String} {settings : Settings} {name text : String} {items : List Item}
    {after : Workspace} (library : settings.library = .memory modules) (spliced : settings.splice = true)
    (compiled : settings.compile name text {} = (.ok items, after)) :
    ∃ tokens, Token.ofText 0 text = .ok tokens ∧
      Assembly.run (Assembly.spliceImports (.memory modules) settings.depth) {} tokens
        { sources := ({} : Sources).add name text } = (.ok items, after) ∧
      Sources.Grown modules (({} : Sources).add name text) after.sources := by
  rw [Settings.compile] at compiled
  dsimp only at compiled
  split at compiled
  · cases compiled
  · rename_i tokens read
    rw [Settings.assemble, Settings.importer, if_pos spliced, library] at compiled
    have grown := Assembly.grown_run (Assembly.grown_spliceImports modules settings.depth) {} tokens
      { sources := ({} : Sources).add name text }
    rw [compiled] at grown
    exact ⟨tokens, read, compiled, grown⟩

/-- Tokens without imports have one tape, whatever the settings. -/
theorem Settings.assemble_importFree {flat : List Token} {items : List Item}
    (free : ∀ token ∈ flat, token.lexeme ≠ .keyword .import_)
    (runs : ∀ others, Assembly.run Assembly.keepImports {} flat others = (.ok items, others)) (settings : Settings)
    (workspace : Workspace) : (settings.assemble flat workspace).1.map Tape.ofItems = .ok (Tape.ofItems items) := by
  have named : ({} : Assembly).Named := Assembly.named_of_item rfl
  have same := Assembly.run_importFree free named settings.importer Assembly.keepImports workspace
  rw [assemble, same, runs]
  rfl

/-- Splicing imports is the inclusion of tokens: the program in `text` is the program of one list of tokens without
imports, which comes of its own tokens when those of the modules take the place of the imports. On its tape every
instruction stands at its address; and a module that is imported, at whatever depth, stands there as on the tape of its
own tokens, of which all addresses are moved by the one at which it begins. -/
theorem splicing_includes_tokens {modules : Dictionary String} {settings : Settings} {name text : String}
    {items : List Item} {after : Workspace} (library : settings.library = .memory modules)
    (spliced : settings.splice = true) (compiled : settings.compile name text {} = (.ok items, after)) :
    ∃ tokens flat, Token.ofText 0 text = .ok tokens ∧ Includes (after.sources.moduleTokens modules) tokens flat ∧
      (∀ other, Includes (after.sources.moduleTokens modules) tokens other → other = flat) ∧
      (∀ token ∈ flat, token.lexeme ≠ .keyword .import_) ∧
      (∀ (others : Settings) (workspace : Workspace),
        (others.assemble flat workspace).1.map Tape.ofItems = .ok (Tape.ofItems items)) ∧
      (Tape.ofItems items).toList = codeOf 0 items ∧
      ∀ module, Imports (after.sources.moduleTokens modules) tokens module →
        ∃ inner flat own address, after.sources.moduleTokens modules module = some inner ∧
          Includes (after.sources.moduleTokens modules) inner flat ∧
          (∀ (others : Settings) (workspace : Workspace),
            (others.assemble flat workspace).1.map Tape.ofItems = .ok own) ∧
          (Tape.ofItems items).Holds address (own.toList.map (Instruction.moved address)) := by
  obtain ⟨tokens, read, run, grown⟩ := spliced_of_compile library spliced compiled
  obtain ⟨flat, includes, runs, within⟩ := Assembly.flat_of_run
    (Assembly.spliceImports_flattens modules after.sources settings.depth)
    (Assembly.grown_spliceImports modules settings.depth) tokens (Assembly.named_of_item rfl) run (.refl _)
  -- The table also knows the tokens of the root by its name, but no program that is accepted imports its root.
  have known : ∀ module inner, Includes.Without after.sources.tokensOf tokens module = some inner →
      after.sources.moduleTokens modules module = some inner := by
    intro module inner found
    obtain ⟨there, other⟩ := Includes.of_without found
    exact Sources.moduleTokens_of_tokensOf grown read there other
  have included := includes.without.mono known
  refine ⟨tokens, flat, read, included, fun other also => also.unique included, included.importFree,
    Settings.assemble_importFree included.importFree runs, Tape.toList_ofItems items, ?_⟩
  intro module imports
  have imports := imports.restrict known includes.without
  obtain ⟨inner, flatInner, found, flattened⟩ := imports.includes includes.without
  obtain ⟨inner', flatInner', own, found', flattened', ownRuns, stands⟩ :=
    within module (imports.mono fun _ _ found => (Includes.of_without found).1)
  cases (Includes.of_without found).1.symm.trans found'
  cases flattened'.unique (flattened.mono fun _ _ found => (Includes.of_without found).1)
  obtain ⟨address, holds⟩ := stands.holds
  exact ⟨inner, flatInner, Tape.ofItems own, address, known _ _ found, flattened.mono known,
    Settings.assemble_importFree (flattened.mono known).importFree ownRuns, holds⟩

/-- A library of two modules, of which one imports the other. -/
def shared : Dictionary String :=
  .ofList [("a", "pr import b"), ("b", "if pr end")]

/-- The program `repeat import b import a end`, with the items of the modules in it. The module `b` comes twice. -/
def sharedProgram : List Item :=
  let branch := Item.branch ⟨1, 0, 2⟩ [.word ⟨1, 3, 5⟩ "pr"] ⟨1, 6, 9⟩
  [.repeats ⟨0, 0, 6⟩ [branch, .word ⟨2, 0, 2⟩ "pr", branch] ⟨0, 25, 28⟩]

/-- It is the program of a list of tokens without imports. The tape of `b`, which `a` imports, stands on its tape. -/
theorem shared_includes_tokens :
    ∃ after, ({ library := .memory shared } : Settings).compile "r" "repeat import b import a end" {} =
        (.ok sharedProgram, after) ∧
      ∃ tokens flat, Token.ofText 0 "repeat import b import a end" = .ok tokens ∧
        Includes (after.sources.moduleTokens shared) tokens flat ∧
        (∀ token ∈ flat, token.lexeme ≠ .keyword .import_) ∧
        (({ library := .memory shared } : Settings).assemble flat {}).1.map Tape.ofItems =
          .ok (Tape.ofItems sharedProgram) ∧
        (Tape.ofItems sharedProgram).toList = codeOf 0 sharedProgram ∧
        Imports (after.sources.moduleTokens shared) tokens "b" ∧
        ∃ inner flat own address, after.sources.moduleTokens shared "b" = some inner ∧
          Includes (after.sources.moduleTokens shared) inner flat ∧
          (({ library := .memory shared } : Settings).assemble flat {}).1.map Tape.ofItems = .ok own ∧
          (Tape.ofItems sharedProgram).Holds address (own.toList.map (Instruction.moved address)) := by
  have compiled : ({ library := .memory shared } : Settings).compile "r" "repeat import b import a end" {} =
      (.ok sharedProgram, ⟨⟨[⟨"r", "repeat import b import a end"⟩, ⟨"b", "if pr end"⟩, ⟨"a", "pr import b"⟩]⟩, []⟩) := by
    cbv
  obtain ⟨tokens, flat, read, includes, -, importFree, assembled, laid, stands⟩ :=
    splicing_includes_tokens rfl rfl compiled
  have lexed : Token.ofText 0 "repeat import b import a end" =
      .ok [⟨.keyword .repeat_, ⟨0, 0, 6⟩⟩, ⟨.keyword .import_, ⟨0, 7, 13⟩⟩, ⟨.word "b", ⟨0, 14, 15⟩⟩,
        ⟨.keyword .import_, ⟨0, 16, 22⟩⟩, ⟨.word "a", ⟨0, 23, 24⟩⟩, ⟨.keyword .end_, ⟨0, 25, 28⟩⟩] := by
    cbv
  cases lexed.symm.trans read
  obtain ⟨inner, flatInner, own, address, found, flattened, alone, holds⟩ := stands "b" (.later .here)
  exact ⟨_, compiled, _, flat, read, includes, importFree, assembled _ _, laid, .later .here, inner, flatInner, own,
    address, found, flattened, alone _ _, holds⟩

end TapeMachine
