import Mathlib
import TapeMachine.Proofs.Mirror
import TapeMachine.Proofs.Resolution

namespace TapeMachine

namespace Sources

variable {modules : Dictionary String} {sources later final : Sources} {place place' : Location}

/-- The same bytes of files of the same name. -/
structure Near (sources final : Sources) (place place' : Location) : Prop where
  start : place.start = place'.start
  stop : place.stop = place'.stop
  file : ∃ file file', sources.get? place.file = some file ∧ final.get? place'.file = some file' ∧ file.name = file'.name

theorem Near.grow (grown : Grown modules sources later) (near : sources.Near final place place') :
    later.Near final place place' := by
  obtain ⟨file, file', here, there, same⟩ := near.file
  exact ⟨near.start, near.stop, file, file', grown.get? here, there, same⟩

theorem near_of_moved {file file' : Nat} {found found' : SourceFile} (here : sources.get? file = some found)
    (there : final.get? file' = some found') (same : found.name = found'.name)
    (moved : Location.Moved file file' place place') : sources.Near final place place' := by
  refine ⟨moved.start, moved.stop, found, found', ?_, ?_, same⟩
  · rw [moved.file]
    exact here
  · rw [moved.file']
    exact there

end Sources

/-- The definitions that come to stand in the place of an import, whichever modules are being imported. -/
def Resolved (modules : Dictionary String) (final : Sources) (name : String) (included : List Item) : Prop :=
  ∃ depth chain, Resolves modules final depth chain name included

/-- Keeping imports does not look at the workspace. -/
theorem Assembly.run_keepImports (assembly : Assembly) (tokens : List Token) (workspace : Workspace) :
    run keepImports assembly tokens workspace = ((run keepImports assembly tokens {}).1, workspace) := by
  induction tokens generalizing assembly with
  | nil => rfl
  | cons token rest ih =>
    rw [run, run]
    cases assembly.read token with
    | error => rfl
    | ok step =>
      cases step with
      | next next => exact ih next
      | imports name place next => exact ih _

theorem Assembly.run_of_keptProgram {file : Nat} {text : String} {items : List Item}
    (built : keptProgram file text = some items) (workspace : Workspace) :
    ∃ tokens, Token.ofText file text = .ok tokens ∧ run keepImports {} tokens workspace = (.ok items, workspace) := by
  unfold keptProgram at built
  split at built
  · rename_i tokens read
    refine ⟨tokens, read, ?_⟩
    rw [run_keepImports]
    cases result : (run keepImports {} tokens {}).1 with
    | error => rw [result] at built; cases built
    | ok found => rw [result] at built; cases built; rfl
  · cases built

/-- A workspace in which the modules of `chain`, or some of them, are being imported, and in which modules have the text
that they have in the table `final`. -/
structure Workspace.Ready (modules : Dictionary String) (final : Sources) (chain : List String) (workspace : Workspace) :
    Prop where
  texts : ∀ name, workspace.sources.textOf modules name = final.textOf modules name
  within : ∀ name ∈ workspace.chain, name ∈ chain
  nodup : workspace.chain.Nodup
  known : ∀ name ∈ workspace.chain, ∃ text, modules.get? name = some text

namespace Workspace

variable {modules : Dictionary String} {final : Sources} {chain : List String} {workspace after : Workspace}

theorem Ready.grow (ready : workspace.Ready modules final chain)
    (grown : Sources.Grown modules workspace.sources after.sources) (same : after.chain = workspace.chain) :
    after.Ready modules final chain := by
  refine ⟨fun name => (grown.textOf name).trans (ready.texts name), ?_, ?_, ?_⟩
  · rw [same]
    exact ready.within
  · rw [same]
    exact ready.nodup
  · rw [same]
    exact ready.known

/-- No more modules are nested than the library has. -/
theorem Ready.length_le (ready : workspace.Ready modules final chain) :
    workspace.chain.length ≤ modules.entries.length := by
  have listed : workspace.chain ⊆ modules.entries.map Prod.fst := by
    intro name member
    obtain ⟨text, known⟩ := ready.known name member
    obtain ⟨entry, found, -⟩ := Option.map_eq_some_iff.1 known
    have named : entry.1 = name := by simpa using List.find?_some found
    exact named ▸ List.mem_map_of_mem (List.mem_of_find?_eq_some found)
  have fewer := (List.subperm_of_subset ready.nodup listed).length_le
  rwa [List.length_map] at fewer

end Workspace

/-- Where an import resolves, its module can be entered. -/
theorem Settings.enterModule_of_supplies {modules : Dictionary String} {settings : Settings} {final : Sources}
    {chain : List String} {name text : String} {file : Nat} {workspace : Workspace}
    (library : settings.library = .memory modules) (lazy : settings.splice = false)
    (supplies : Supplies modules final name file text) (fresh : name ∉ chain)
    (ready : workspace.Ready modules final chain)
    (builds : ∀ other, ∃ kept, Assembly.keptProgram other text = some kept) (place : Location) :
    ∃ other kept opened, settings.enterModule name place workspace = (.ok kept, opened) ∧
      Assembly.keptProgram other text = some kept ∧ opened.sources.get? other = some ⟨name, text⟩ ∧
      Sources.Grown modules workspace.sources opened.sources ∧ opened.chain = workspace.chain ++ [name] ∧
      opened.Ready modules final (chain ++ [name]) := by
  have absent : name ∉ workspace.chain := fun member => fresh (ready.within name member)
  have effective : workspace.sources.textOf modules name = some text :=
    (ready.texts name).trans (Sources.textOf_of_get? supplies.found supplies.stored)
  obtain ⟨other, opened, grown, longer, stored, opens⟩ :=
    Workspace.openModule_of_textOf place supplies.plain absent supplies.known effective
  obtain ⟨kept, built⟩ := builds other
  obtain ⟨tokens, read, runs⟩ := Assembly.run_of_keptProgram built opened
  refine ⟨other, kept, opened, ?_, built, stored, grown, longer, ?_⟩
  · rw [Settings.enterModule, library, opens tokens read]
    simp only [Build.andThen, Settings.assemble, Settings.importer, lazy, Bool.false_eq_true, if_false, runs]
  · refine ⟨fun name => (grown.textOf name).trans (ready.texts name), ?_, ?_, ?_⟩
    · rw [longer]
      exact fun other member => (List.mem_append.1 member).elim
        (fun old => List.mem_append_left _ (ready.within other old)) (List.mem_append_right _)
    · rw [longer, List.nodup_append]
      refine ⟨ready.nodup, List.nodup_singleton name, ?_⟩
      intro old member new single same
      rw [List.mem_singleton.1 single] at same
      exact absent (same ▸ member)
    · rw [longer]
      intro other member
      rcases List.mem_append.1 member with old | new
      · exact ready.known other old
      · rw [List.mem_singleton.1 new]
        exact ⟨text, supplies.known⟩

namespace Walker

variable {walker next last : Walker}

/-- The walker carries an instruction out that shows nothing. -/
def Ran (walker next : Walker) : Prop :=
  walker.move = .ran next

/-- The walker gets to `rest` and leaves everything but the functions as it was. -/
structure Passes (walker : Walker) (rest : List Piece) (next : Walker) : Prop where
  ran : Relation.ReflTransGen Ran walker next
  code : next.code = rest
  blocks : next.blocks = walker.blocks
  store : next.store = walker.store

theorem Passes.trans {middle rest : List Piece} (first : walker.Passes middle next) (second : next.Passes rest last) :
    walker.Passes rest last where
  ran := first.ran.trans second.ran
  code := second.code
  blocks := second.blocks.trans first.blocks
  store := second.store.trans first.store

theorem passes_define {place stop : Location} {heading : Heading} {body : List Item} {rest : List Piece}
    (code : walker.code = .item (.define place heading body stop) :: rest) :
    ∃ next definition, walker.Passes rest next ∧
      next.functions = walker.functions.insert heading.name (.user walker.tape definition place body) := by
  have begun : walker.move = walker.perform (.define place heading body stop) rest := by rw [move, code]
  have ran : Relation.ReflTransGen Ran walker _ := .head begun (.head rfl (.single rfl))
  exact ⟨_, ⟨heading, walker.ip + 1, walker.ip + 3 + span body⟩, ⟨ran, rfl, rfl, rfl⟩, rfl⟩

theorem machine_atWork (walker : Walker) : walker.machine.AtWork :=
  ⟨walker.machine_calm, rfl⟩

theorem Placed.tick_of_ran (placed : walker.Placed) (ran : walker.Ran next) (settings : Settings) (levels : Nat)
    (workspace : Workspace) :
    Run.Tick settings (levels + 1) (⟨walker.machine, []⟩, workspace) (⟨next.machine, []⟩, workspace) ∧ next.Placed := by
  have agrees := placed.agrees
  rw [show walker.move = _ from ran] at agrees
  refine ⟨?_, agrees.2⟩
  rw [Run.Tick, Run.executeWithin_of_atWork walker.machine_atWork, Run.advance, agrees.1]
  rfl

theorem Placed.ticks_of_ran (placed : walker.Placed) (ran : Relation.ReflTransGen Ran walker next) (settings : Settings)
    (levels : Nat) (workspace : Workspace) :
    Relation.ReflTransGen (Run.Tick settings (levels + 1)) (⟨walker.machine, []⟩, workspace)
        (⟨next.machine, []⟩, workspace) ∧ next.Placed := by
  induction ran with
  | refl => exact ⟨.refl, placed⟩
  | tail _ last ih =>
    obtain ⟨tick, onward⟩ := ih.2.tick_of_ran last settings levels workspace
    exact ⟨ih.1.tail tick, onward⟩

/-- A walker before an import begins to run the module. -/
theorem Placed.tick_import {place : Location} {name : String} {rest : List Piece} {kept : List Item} {settings : Settings}
    {before opened : Workspace} (placed : walker.Placed) (code : walker.code = .item (.imports place name) :: rest)
    (entered : settings.enterModule name place before = (.ok kept, opened)) (levels : Nat) :
    Run.Tick settings (levels + 1) (⟨walker.machine, []⟩, before)
      (Run.within walker.machine (⟨.start settings.capacity (.ofItems kept), []⟩, opened)) := by
  have agrees := placed.agrees
  rw [show walker.move = .imports name place by rw [move, code]; rfl] at agrees
  have here : walker.machine.step = .imports name place walker.machine := agrees
  rw [Run.Tick, Run.executeWithin_of_atWork walker.machine_atWork, Run.advance, here]
  dsimp only
  rw [entered]
  rfl

/-- A module that has come to its end is adopted. -/
theorem Placed.tick_adopt {module : Walker} {capacity : Nat} (placed : module.Placed) (code : module.code = [])
    (blocks : module.blocks = []) (fresh : module.store = .start capacity) (settings : Settings) (levels : Nat)
    (workspace : Workspace) (rest : List Piece) :
    Run.Tick settings (levels + 2) (Run.within walker.machine (⟨module.machine, []⟩, workspace))
      (⟨(walker.resume module rest).machine, []⟩, workspace.close) := by
  have agrees := placed.agrees
  rw [show module.move = .ends by rw [move, code, blocks]] at agrees
  obtain ⟨event, later, farewell, finish⟩ := module.finish_machine
  rw [fresh, show (Store.start capacity).farewell = [.stopped] from rfl] at farewell
  cases farewell
  have ends : module.machine.step = .shows .stopped { module.machine with phase := .finished } :=
    (show module.machine.step = _ from agrees).trans finish
  have finished : Run.executeWithin settings 1 (levels + 1) ⟨module.machine, []⟩ workspace =
      (.stopped, ⟨{ module.machine with phase := .finished }, []⟩, workspace) := by
    rw [Run.executeWithin_of_atWork module.machine_atWork, Run.advance, ends]
  rw [Run.Tick, Run.within, Run.executeWithin_of_atWork walker.machine_atWork, Run.advance]
  dsimp only
  rw [finished]
  dsimp only
  rw [Run.advance, Run.adopt_machine rest rfl]

end Walker

namespace Dictionary

variable {α : Type}

theorem get?_insertAll_eq (dictionary : Dictionary α) (entries : List (String × α))
    (nodup : (entries.map Prod.fst).Nodup) (name : String) :
    (dictionary.insertAll entries).get? name =
      ((entries.find? fun entry => entry.1 == name).map Prod.snd).or (dictionary.get? name) := by
  induction entries generalizing dictionary with
  | nil => rfl
  | cons entry rest ih =>
    rw [List.map_cons, List.nodup_cons] at nodup
    show ((dictionary.insert entry.1 entry.2).insertAll rest).get? name = _
    rw [ih _ nodup.2, get?_insert]
    by_cases same : entry.1 = name
    · have absent : rest.find? (fun other => other.1 == name) = none := by
        rw [List.find?_eq_none]
        intro other member found
        have named : other.1 = name := by simpa using found
        exact nodup.1 (same ▸ named ▸ List.mem_map_of_mem member)
      simp [same, absent]
    · simp [same]

/-- The other dictionary comes first. -/
theorem get?_merge_eq (first second : Dictionary α) (name : String) :
    (first.merge second).get? name = (second.get? name).or (first.get? name) :=
  get?_insertAll_eq first second.entries second.nodup name

end Dictionary

/-- Two walkers through the same program. One of them runs a module when he comes to its import, and has a workspace for
that; the other one finds the modules spliced. -/
structure Pair where
  lazy : Walker
  spliced : Walker
  workspace : Workspace

namespace Pair

variable {modules : Dictionary String} {final : Sources} {settings : Settings} {outer : String → Option Routine}
  {pair next last : Pair}

/-- The lazy one, where he stands. -/
def state (pair : Pair) : Run × Workspace :=
  (⟨pair.lazy.machine, []⟩, pair.workspace)

/-- Whatever the lazy one finds under a name, the other one finds, if the functions in `outer` are behind those of the
lazy one. -/
structure Shares (modules : Dictionary String) (final : Sources) (outer : String → Option Routine) (pair : Pair) :
    Prop where
  placed : pair.lazy.Placed
  functions : ∀ name, Routine.Mirrors (Resolved modules final) (pair.workspace.sources.Near final)
    ((pair.lazy.functions.get? name).or (outer name)) (pair.spliced.functions.get? name)
  builtins : ∀ word : Builtin, pair.lazy.functions.get? word.name = some (.builtin word)

/-- The lazy one has got to `rest`, and the other one to `rest'`, and nothing but their functions and the table of files
has changed. -/
structure Passes (modules : Dictionary String) (rest rest' : List Piece) (pair next : Pair) : Prop where
  code : next.lazy.code = rest
  blocks : next.lazy.blocks = pair.lazy.blocks
  store : next.lazy.store = pair.lazy.store
  grown : Sources.Grown modules pair.workspace.sources next.workspace.sources
  chain : next.workspace.chain = pair.workspace.chain
  spliced : pair.spliced.Passes rest' next.spliced

theorem Passes.trans {middle middle' rest rest' : List Piece} (first : pair.Passes modules middle middle' next)
    (second : next.Passes modules rest rest' last) : pair.Passes modules rest rest' last where
  code := second.code
  blocks := second.blocks.trans first.blocks
  store := second.store.trans first.store
  grown := first.grown.trans second.grown
  chain := second.chain.trans first.chain
  spliced := first.spliced.trans second.spliced

/-- Imports whose modules are nested no deeper than `depth` are passed: the lazy one runs the module, and the other one
the items that stand in the place of the import. -/
def PassesImports (settings : Settings) (modules : Dictionary String) (final : Sources) (depth : Nat) : Prop :=
  ∀ {chain : List String} {name : String} {included : List Item} {place : Location} {rest rest' : List Piece}
    {levels : Nat} {outer : String → Option Routine} {pair : Pair}, Resolves modules final depth chain name included →
    spareBuiltins included = true → pair.workspace.Ready modules final chain →
    modules.entries.length < levels + pair.workspace.chain.length → pair.lazy.code = .item (.imports place name) :: rest →
    pair.spliced.code = Piece.ofItems included ++ rest' → pair.Shares modules final outer →
    ∃ next : Pair, Relation.TransGen (Run.Tick settings (levels + 1)) pair.state next.state ∧
      pair.Passes modules rest rest' next ∧ next.Shares modules final outer

/-- Both put a function into their tables. -/
theorem Shares.define {place place' stop stop' : Location} {heading : Heading} {body body' : List Item}
    {rest rest' : List Piece} (shares : pair.Shares modules final outer)
    (code : pair.lazy.code = .item (.define place heading body stop) :: rest)
    (code' : pair.spliced.code = .item (.define place' heading body' stop') :: rest')
    (near : pair.workspace.sources.Near final place place')
    (inner : Mirrors (Resolved modules final) (pair.workspace.sources.Near final) body body')
    (spared : (Builtin.find? heading.name).isNone = true) (settings : Settings) (levels : Nat) :
    ∃ next : Pair, Relation.ReflTransGen (Run.Tick settings (levels + 1)) pair.state next.state ∧
      pair.Passes modules rest rest' next ∧ next.Shares modules final outer := by
  obtain ⟨lazy, definition, passes, functions⟩ := Walker.passes_define code
  obtain ⟨spliced, definition', passes', functions'⟩ := Walker.passes_define code'
  obtain ⟨ticks, placed⟩ := shares.placed.ticks_of_ran passes.ran settings levels pair.workspace
  refine ⟨⟨lazy, spliced, pair.workspace⟩, ticks,
    ⟨passes.code, passes.blocks, passes.store, .refl _, rfl, passes'⟩, placed, ?_, ?_⟩
  · intro name
    dsimp only
    rw [functions, functions', Dictionary.get?_insert, Dictionary.get?_insert]
    by_cases same : heading.name = name
    · rw [if_pos same, if_pos same]
      exact .user near inner
    · rw [if_neg same, if_neg same]
      exact shares.functions name
  · intro word
    dsimp only
    rw [functions, Dictionary.get?_insert, if_neg (Builtin.ne_name_of_find? spared word)]
    exact shares.builtins word

/-- The walkers go through a module, which is in the file `file` of the lazy one's table. -/
theorem passes_definitions {depth levels file file' : Nat} {chain : List String} {kept included : List Item}
    {found found' : SourceFile} {rest' : List Piece} (shares : pair.Shares modules final outer)
    (imports : PassesImports settings modules final depth)
    (unfolds : Unfolds (Resolves modules final depth chain) (Location.Moved file file') kept included)
    (defines : onlyDefines kept = true) (spares : spareBuiltins included = true)
    (here : pair.workspace.sources.get? file = some found) (there : final.get? file' = some found')
    (named : found.name = found'.name) (ready : pair.workspace.Ready modules final chain)
    (room : modules.entries.length < levels + pair.workspace.chain.length) (code : pair.lazy.code = Piece.ofItems kept)
    (code' : pair.spliced.code = Piece.ofItems included ++ rest') :
    ∃ next : Pair, Relation.ReflTransGen (Run.Tick settings (levels + 1)) pair.state next.state ∧
      pair.Passes modules [] rest' next ∧ next.Shares modules final outer := by
  induction unfolds generalizing pair with
  | nil => exact ⟨pair, .refl, ⟨code, rfl, rfl, .refl _, rfl, .refl, code', rfl, rfl⟩, shares⟩
  | define place stop body later _ ih =>
    rw [spareBuiltins, Item.sparesBuiltins, Bool.and_eq_true, Bool.and_eq_true] at spares
    have nearing := fun place place' => @Sources.near_of_moved _ _ place place' _ _ _ _ here there named
    have resolving := fun name included resolved => (⟨depth, chain, resolved⟩ : Resolved modules final name included)
    obtain ⟨middle, ticks, passes, shares⟩ := shares.define code code' (nearing _ _ place)
      ⟨body.mono resolving nearing, spares.1.2⟩ spares.1.1 settings levels
    obtain ⟨next, ticks', passes', shares⟩ := ih shares defines spares.2 (passes.grown.get? here)
      (ready.grow passes.grown passes.chain) (passes.chain ▸ room) passes.code passes.spliced.code
    exact ⟨next, ticks.trans ticks', passes.trans passes', shares⟩
  | @imports _ _ included _ others resolved _ ih =>
    rw [spareBuiltins_append, Bool.and_eq_true] at spares
    rw [Piece.ofItems, List.map_append, List.append_assoc] at code'
    obtain ⟨middle, ticks, passes, shares⟩ := imports resolved spares.1 ready room code code' shares
    obtain ⟨next, ticks', passes', shares⟩ := ih shares defines spares.2 (passes.grown.get? here)
      (ready.grow passes.grown passes.chain) (passes.chain ▸ room) passes.code passes.spliced.code
    exact ⟨next, ticks.to_reflTransGen.trans ticks', passes.trans passes', shares⟩
  | number | string | word | branch | choice | repeats | loop | bind | cell => cases defines

theorem start_builtins (capacity : Nat) (items : List Item) (word : Builtin) :
    (Walker.start capacity items).functions.get? word.name = some (.builtin word) := by
  rw [Walker.start, Builtin.ofList_all, Dictionary.get?_map]
  cases found : Builtin.table.get? word.name with
  | none => exact absurd found word.table_name
  | some other =>
    cases Builtin.name_injective (Builtin.name_of_table found)
    rfl

/-- A module begins with nothing but builtins of its own. -/
theorem Shares.start (shares : pair.Shares modules final outer) (kept : List Item) (capacity : Nat) (opened : Workspace)
    (grown : Sources.Grown modules pair.workspace.sources opened.sources) :
    Shares modules final (fun name => (pair.lazy.functions.get? name).or (outer name))
      ⟨.start capacity kept, pair.spliced, opened⟩ := by
  refine ⟨Walker.start_placed capacity kept, fun name => ?_, start_builtins capacity kept⟩
  have mirrored := (shares.functions name).mono fun place place' => @Sources.Near.grow _ _ _ _ place place' grown
  cases found : (Walker.start capacity kept).functions.get? name with
  | none => rwa [Option.none_or]
  | some routine =>
    rw [Walker.start, Builtin.ofList_all, Dictionary.get?_map] at found
    obtain ⟨word, listed, rfl⟩ := Option.map_eq_some_iff.1 found
    obtain rfl := Builtin.name_of_table listed
    rwa [shares.builtins word] at mirrored

/-- Behind the module its functions are the lazy one's. -/
theorem Shares.resume {module : Walker} {spliced : Walker} {place : Location} {name : String} {rest : List Piece}
    {workspace : Workspace} (shares : pair.Shares modules final outer)
    (code : pair.lazy.code = .item (.imports place name) :: rest)
    (theirs : Shares modules final (fun name => (pair.lazy.functions.get? name).or (outer name))
      ⟨module, spliced, workspace⟩) :
    Shares modules final outer ⟨pair.lazy.resume module rest, spliced, workspace.close⟩ := by
  refine ⟨Walker.resume_placed shares.placed theirs.placed code, fun name => ?_, fun word => ?_⟩
  · dsimp only [Walker.resume]
    rw [Dictionary.get?_merge_eq, Option.or_assoc]
    exact theirs.functions name
  · dsimp only [Walker.resume]
    rw [Dictionary.get?_merge_eq, theirs.builtins word]
    rfl

theorem passesImports (library : settings.library = .memory modules) (lazy : settings.splice = false) (depth : Nat) :
    PassesImports settings modules final depth := by
  induction depth with
  | zero =>
    intro _ _ _ _ _ _ _ _ _ resolved
    exact resolved.elim
  | succ depth ih =>
    intro chain name included place rest rest' levels outer pair resolved spares ready room code code' shares
    obtain ⟨fresh, file, text, supplies, builds⟩ := resolved
    obtain ⟨other, kept, opened, entered, built, here, grown, longer, inside⟩ :=
      Settings.enterModule_of_supplies library lazy supplies fresh ready
        (fun other => (builds other).imp fun _ built => built.1) place
    obtain ⟨_, built', defines, unfolds⟩ := builds other
    cases built.symm.trans built'
    have nested := ready.length_le
    obtain ⟨levels, rfl⟩ : ∃ less, levels = less + 1 := ⟨levels - 1, by omega⟩
    have roomy : modules.entries.length < levels + opened.chain.length := by
      rw [longer, List.length_append, List.length_singleton]
      omega
    obtain ⟨next, ticks, passes, theirs⟩ := passes_definitions
      (shares.start kept settings.capacity opened grown) ih unfolds defines spares here supplies.stored rfl inside roomy
      rfl code'
    have begins := shares.placed.tick_import code entered (levels + 1)
    rw [← Walker.start_machine] at begins
    have runs := ticks.lift (Run.within pair.lazy.machine) fun _ _ tick => tick.within pair.lazy.machine_atWork
    have ends := @Walker.Placed.tick_adopt pair.lazy _ _ theirs.placed passes.code passes.blocks passes.store settings
      levels next.workspace rest
    have closed : next.workspace.close.chain = pair.workspace.chain := by
      rw [Workspace.close, passes.chain, longer, List.dropLast_concat]
    exact ⟨⟨pair.lazy.resume next.lazy rest, next.spliced, next.workspace.close⟩, .trans (.head' begins runs) (.single ends),
      ⟨rfl, rfl, rfl, grown.trans passes.grown, closed, passes.spliced⟩, shares.resume code theirs⟩

end Pair

end TapeMachine
