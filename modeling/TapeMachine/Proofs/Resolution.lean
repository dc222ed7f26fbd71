import Mathlib
import TapeMachine.Proofs.Unfolding

namespace TapeMachine

/-- The same bytes of two files. -/
structure Location.Moved (file file' : Nat) (place place' : Location) : Prop where
  file : place.file = file
  file' : place'.file = file'
  start : place.start = place'.start
  stop : place.stop = place'.stop

namespace Lexer

variable {file' : Nat} {mode next : Mode} {offset : Nat}

theorem step_moved (file : Nat) {c : Char} {token' : Option Token}
    (stepped : step file' offset mode c = .ok (token', next)) :
    ∃ token, step file offset mode c = .ok (token, next) ∧
      List.Forall₂ (Token.Near (Location.Moved file file')) token.toList token'.toList := by
  cases mode with
  | blank =>
    simp only [step] at stepped ⊢
    by_cases blank : isBlank c = true
    · rw [if_pos blank] at stepped ⊢
      cases stepped
      exact ⟨none, rfl, .nil⟩
    · rw [if_neg blank] at stepped ⊢
      by_cases quote : c = '"'
      · rw [if_pos quote] at stepped ⊢
        cases stepped
        exact ⟨none, rfl, .nil⟩
      · rw [if_neg quote] at stepped ⊢
        cases stepped
        exact ⟨none, rfl, .nil⟩
  | word start read =>
    simp only [step] at stepped ⊢
    by_cases blank : isBlank c = true
    · rw [if_pos blank] at stepped ⊢
      cases stepped
      exact ⟨some _, rfl, .cons ⟨rfl, rfl, rfl, rfl, rfl⟩ .nil⟩
    · rw [if_neg blank] at stepped ⊢
      cases stepped
      exact ⟨none, rfl, .nil⟩
  | string start read =>
    simp only [step] at stepped ⊢
    by_cases quote : c = '"'
    · rw [if_pos quote] at stepped ⊢
      cases stepped
      exact ⟨some _, rfl, .cons ⟨rfl, rfl, rfl, rfl, rfl⟩ .nil⟩
    · rw [if_neg quote] at stepped ⊢
      by_cases backslash : c = '\\'
      · rw [if_pos backslash] at stepped ⊢
        cases stepped
        exact ⟨none, rfl, .nil⟩
      · rw [if_neg backslash] at stepped ⊢
        cases stepped
        exact ⟨none, rfl, .nil⟩
  | escape start read backslash =>
    simp only [step] at stepped ⊢
    by_cases hex : c = 'x'
    · rw [if_pos hex] at stepped ⊢
      cases stepped
      exact ⟨none, rfl, .nil⟩
    · rw [if_neg hex] at stepped ⊢
      cases meant : escaped? c with
      | some char =>
        rw [meant] at stepped
        cases stepped
        exact ⟨none, rfl, .nil⟩
      | none =>
        rw [meant] at stepped
        cases stepped
  | hex start read backslash digits =>
    cases digits with
    | nil =>
      cases stepped
      exact ⟨none, rfl, .nil⟩
    | cons first others =>
      simp only [step] at stepped ⊢
      cases meant : hexByte? [first, c] with
      | some byte =>
        rw [meant] at stepped
        cases stepped
        exact ⟨none, rfl, .nil⟩
      | none =>
        rw [meant] at stepped
        cases stepped

theorem finish_moved (file : Nat) {token' : Option Token} (finished : finish file' offset mode = .ok token') :
    ∃ token, finish file offset mode = .ok token ∧
      List.Forall₂ (Token.Near (Location.Moved file file')) token.toList token'.toList := by
  cases mode with
  | blank => cases finished; exact ⟨none, rfl, .nil⟩
  | word start read => cases finished; exact ⟨some _, rfl, .cons ⟨rfl, rfl, rfl, rfl, rfl⟩ .nil⟩
  | string | escape => cases finished
  | hex start read backslash digits =>
    simp only [finish] at finished
    split at finished <;> cases finished

theorem scan_moved (file : Nat) (chars : List Char) {found found' tokens' : List Token}
    (before : List.Forall₂ (Token.Near (Location.Moved file file')) found found')
    (scanned : scan file' offset mode found' chars = .ok tokens') :
    ∃ tokens, scan file offset mode found chars = .ok tokens ∧
      List.Forall₂ (Token.Near (Location.Moved file file')) tokens tokens' := by
  induction chars generalizing offset mode found found' with
  | nil =>
    rw [scan] at scanned
    cases finished : finish file' offset mode with
    | error => rw [finished] at scanned; cases scanned
    | ok token' =>
      rw [finished] at scanned
      cases scanned
      obtain ⟨token, here, same⟩ := finish_moved file finished
      refine ⟨(token.toList ++ found).reverse, by rw [scan, here], ?_⟩
      exact List.rel_reverse (List.rel_append same before)
  | cons c rest ih =>
    rw [scan] at scanned
    cases stepped : step file' offset mode c with
    | error => rw [stepped] at scanned; cases scanned
    | ok result =>
      obtain ⟨token', next⟩ := result
      obtain ⟨token, here, same⟩ := step_moved file stepped
      rw [stepped] at scanned
      rw [scan, here]
      cases token' with
      | none =>
        cases token with
        | none => exact ih before scanned
        | some token => cases same
      | some token' =>
        cases token with
        | none => cases same
        | some token =>
          cases same with
          | cons same _ => exact ih (.cons same before) scanned

end Lexer

/-- A text has the same tokens in every file. -/
theorem Token.ofText_moved {file' : Nat} {text : String} {tokens' : List Token} (file : Nat)
    (read : ofText file' text = .ok tokens') :
    ∃ tokens, ofText file text = .ok tokens ∧ List.Forall₂ (Near (Location.Moved file file')) tokens tokens' :=
  Lexer.scan_moved file text.toList .nil read

namespace Assembly

/-- The program of a text in the file of this number, with its imports kept. -/
def keptProgram (file : Nat) (text : String) : Option (List Item) :=
  match Token.ofText file text with
  | .ok tokens => (run keepImports {} tokens {}).1.toOption
  | .error _ => none

theorem keptProgram_of_run {file : Nat} {text : String} {tokens : List Token} {items : List Item}
    (read : Token.ofText file text = .ok tokens)
    (runs : ∀ others, run keepImports {} tokens others = (.ok items, others)) :
    keptProgram file text = some items := by
  simp only [keptProgram, read, runs]
  rfl

/-- The program of a text whose characters are known, which nobody has to decode. -/
theorem keptProgram_ofList (file : Nat) (characters : List Char) :
    keptProgram file (String.ofList characters) =
      match Lexer.scan file 0 .blank [] characters with
      | .ok tokens => (run keepImports {} tokens {}).1.toOption
      | .error _ => none := by
  rw [keptProgram, Token.ofText, String.toList_ofList]

theorem start_unfolds (resolves : String → List Item → Prop) (near : Location → Location → Prop) :
    ({} : Assembly).Unfolds resolves near {} :=
  ⟨.item, .nil, .nil, id⟩

end Assembly

open Assembly (keptProgram)

/-- An import stays an import. -/
def StaysImport (name : String) (included : List Item) : Prop :=
  ∃ place, included = [.imports place name]

theorem keepImports_resolving :
    Assembly.keepImports.Resolving StaysImport (fun _ => True) (fun _ => True) where
  forth _ _ _ := id
  back _ _ _ := id
  imports := by
    intro name place workspace included after _ _ kept
    cases kept
    exact ⟨place, rfl⟩

/-- The program of a text is the same in every file. -/
theorem keptProgram_moved {file' : Nat} {text : String} {items' : List Item}
    (built : keptProgram file' text = some items') (file : Nat) :
    ∃ items, keptProgram file text = some items ∧ Unfolds StaysImport (Location.Moved file file') items items' := by
  unfold Assembly.keptProgram at built
  split at built
  · rename_i tokens' read
    obtain ⟨tokens, here, same⟩ := Token.ofText_moved file read
    cases result : Assembly.run Assembly.keepImports {} tokens' {} with
    | mk outcome after =>
    rw [result] at built
    cases outcome with
    | error failure => cases built
    | ok found =>
      cases built
      obtain ⟨items, runs, unfolds⟩ := Assembly.unfolds_of_run keepImports_resolving same
        (Assembly.start_unfolds _ _) trivial trivial result
      exact ⟨items, Assembly.keptProgram_of_run here runs, unfolds⟩
  · cases built

/-- Nothing but definitions and imports stands outside all blocks. -/
def onlyDefines (items : List Item) : Bool :=
  items.all fun
    | .define .. | .imports .. => true
    | _ => false

theorem onlyDefines_of_unfolds {near : Location → Location → Prop} {items items' : List Item}
    (unfolds : Unfolds StaysImport near items items') (defines : onlyDefines items = true) :
    onlyDefines items' = true := by
  induction unfolds with
  | nil => rfl
  | define _ _ _ _ _ ih => exact ih defines
  | imports stays _ ih =>
    obtain ⟨place, rfl⟩ := stays
    exact ih defines
  | number | string | word | branch | choice | repeats | loop | bind | cell => cases defines

/-- The module of this name has this text, in the library as in the file of the table. -/
structure Supplies (modules : Dictionary String) (final : Sources) (name : String) (file : Nat) (text : String) :
    Prop where
  plain : Workspace.isRelative name = false
  known : modules.get? name = some text
  found : final.find? name = some file
  stored : final.get? file = some ⟨name, text⟩

/-- The definitions of a module that come to stand in the place of its import, when the modules in `chain` are being
imported. Modules are nested no deeper than `depth`. -/
def Resolves (modules : Dictionary String) (final : Sources) :
    (depth : Nat) → (chain : List String) → (name : String) → (included : List Item) → Prop
  | 0, _, _, _ => False
  | depth + 1, chain, name, included =>
    name ∉ chain ∧ ∃ file text, Supplies modules final name file text ∧
      ∀ other, ∃ kept, keptProgram other text = some kept ∧ onlyDefines kept = true ∧
        Unfolds (Resolves modules final depth (chain ++ [name])) (Location.Moved other file) kept included

section

variable {modules : Dictionary String} {root final : Sources} {tokens : List Token}

/-- Some splicing of modules no deeper than `depth` makes a program of the tokens, on the way from `root` to `final`. -/
def Splices (modules : Dictionary String) (root final : Sources) (tokens : List Token) (depth : Nat) : Prop :=
  ∃ workspace items after, Sources.Grown modules root workspace.sources ∧ Sources.Grown modules after.sources final ∧
    Assembly.run (Assembly.spliceImports (.memory modules) depth) {} tokens workspace = (.ok items, after)

/-- If modules are spliced as their imports resolve, the importer does so whichever modules are being imported. -/
theorem spliceImports_resolving {depth : Nat} (chain : List String)
    (resolves : ∀ {name place workspace included after}, Sources.Grown modules root workspace.sources →
      Sources.Grown modules after.sources final →
      Assembly.spliceImports (.memory modules) depth name place workspace = (.ok included, after) →
      Resolves modules final depth workspace.chain name included) :
    (Assembly.spliceImports (.memory modules) depth).Resolving (Resolves modules final depth chain)
      (fun workspace => workspace.chain = chain ∧ Sources.Grown modules root workspace.sources)
      (fun workspace => Sources.Grown modules workspace.sources final) where
  forth := by
    rintro name place workspace ⟨same, early⟩
    exact ⟨(Assembly.spliceImports_keepsChain _ _ name place workspace).trans same,
      early.trans (Assembly.grown_spliceImports modules depth name place workspace)⟩
  back name place workspace late := (Assembly.grown_spliceImports modules depth name place workspace).trans late
  imports := by
    rintro name place workspace included after ⟨same, early⟩ late spliced
    exact same ▸ resolves early late spliced

/-- What is spliced is what the import resolves to, if the tokens of the root are not among what is included. -/
theorem resolves_of_spliceImports {rootName rootText : String} (first : root = ({} : Sources).add rootName rootText)
    (rootRead : Token.ofText 0 rootText = .ok tokens)
    (definitions : ∀ name text items, modules.get? name = some text → keptProgram 0 text = some items →
      onlyDefines items = true)
    {depth : Nat} (least : ∀ less < depth, ¬Splices modules root final tokens less) {name : String} {place : Location}
    {workspace after : Workspace} {included : List Item} (early : Sources.Grown modules root workspace.sources)
    (late : Sources.Grown modules after.sources final)
    (spliced : Assembly.spliceImports (.memory modules) depth name place workspace = (.ok included, after)) :
    Resolves modules final depth workspace.chain name included := by
  induction depth generalizing name place workspace included after with
  | zero => cases spliced
  | succ depth ih =>
    obtain ⟨less, inner, opened, closed, same, opens, assembled, rfl⟩ := Assembly.spliceImports_eq_ok spliced
    cases same
    obtain ⟨file, text, here, there, read⟩ := opens.file
    have opening := early.trans opens.grown
    have closing : Sources.Grown modules opened.sources closed.sources := by
      have growing := Assembly.grown_run (Assembly.grown_spliceImports modules depth) {} inner opened
      rw [assembled] at growing
      exact growing
    have new : root.get? file = none := by
      cases old : root.get? file with
      | none => rfl
      | some found =>
        subst first
        cases file with
        | succ file => cases old
        | zero =>
          cases there.symm.trans (opening.get? (show Sources.get? _ 0 = some ⟨rootName, rootText⟩ from rfl))
          cases read.symm.trans rootRead
          exact (least depth (Nat.lt_succ_self depth) ⟨opened, included, closed, opening, late, assembled⟩).elim
    have known := opening.get?_new there new
    refine ⟨opens.fresh, file, text,
      ⟨opens.plain, known, (closing.trans late).find? here, (closing.trans late).get? there⟩, fun other => ?_⟩
    obtain ⟨tokens', read', near⟩ := Token.ofText_moved other read
    have resolving := spliceImports_resolving (workspace.chain ++ [name])
      (ih fun less below => least less (Nat.lt_succ_of_lt below))
    obtain ⟨kept, runs, unfolds⟩ := Assembly.unfolds_of_run resolving near (Assembly.start_unfolds _ _)
      ⟨opens.chain, opening⟩ (show Sources.Grown modules closed.sources final from late) assembled
    have built := Assembly.keptProgram_of_run read' runs
    obtain ⟨items, alone, stays⟩ := keptProgram_moved built 0
    exact ⟨kept, built, onlyDefines_of_unfolds stays (definitions name text items known alone), unfolds⟩

/-- A program that can be compiled with its imports spliced can be compiled with its imports kept, and unfolds to the
other one. -/
theorem unfolds_of_compile {settings : Settings} {name text : String} {program : List Item} {after : Workspace}
    (library : settings.library = .memory modules) (spliced : settings.splice = true)
    (definitions : ∀ name text items, modules.get? name = some text → keptProgram 0 text = some items →
      onlyDefines items = true)
    (compiled : settings.compile name text {} = (.ok program, after)) :
    Sources.Grown modules (({} : Sources).add name text) after.sources ∧
      ∃ kept depth chain, keptProgram 0 text = some kept ∧
        Unfolds (Resolves modules after.sources depth chain) (Location.Moved 0 0) kept program := by
  obtain ⟨tokens, read, run, grown⟩ := spliced_of_compile library spliced compiled
  refine ⟨grown, ?_⟩
  -- At the least depth the root cannot be among the modules it includes, since it would need less depth there.
  have splices : ∃ depth, Splices modules (({} : Sources).add name text) after.sources tokens depth :=
    ⟨settings.depth, _, program, after, .refl _, .refl _, run⟩
  obtain ⟨depth, ⟨workspace, items, last, early, late, built⟩, least⟩ :
      ∃ depth, Splices modules (({} : Sources).add name text) after.sources tokens depth ∧
        ∀ less < depth, ¬Splices modules (({} : Sources).add name text) after.sources tokens less := by
    classical exact ⟨Nat.find splices, Nat.find_spec splices, fun less below => Nat.find_min splices below⟩
  have same : items = program := by
    obtain ⟨flat, includes, runs, -⟩ := Assembly.flat_of_run
      (Assembly.spliceImports_flattens modules after.sources settings.depth)
      (Assembly.grown_spliceImports modules settings.depth) tokens (Assembly.named_of_item rfl) run (.refl _)
    obtain ⟨flat', includes', runs', -⟩ := Assembly.flat_of_run
      (Assembly.spliceImports_flattens modules after.sources depth)
      (Assembly.grown_spliceImports modules depth) tokens (Assembly.named_of_item rfl) built late
    have runs := runs {}
    rw [includes.unique includes'] at runs
    cases (runs' {}).symm.trans runs
    rfl
  subst same
  have resolving := spliceImports_resolving workspace.chain (resolves_of_spliceImports rfl read definitions least)
  obtain ⟨tokens', read', near⟩ := Token.ofText_moved 0 read
  cases read.symm.trans read'
  obtain ⟨kept, runs, unfolds⟩ := Assembly.unfolds_of_run resolving near (Assembly.start_unfolds _ _)
    ⟨rfl, early⟩ late built
  exact ⟨kept, depth, workspace.chain, Assembly.keptProgram_of_run read runs, unfolds⟩

end

end TapeMachine
