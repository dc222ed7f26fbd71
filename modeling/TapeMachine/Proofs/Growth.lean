import Mathlib
import TapeMachine.Proofs.Chain

namespace TapeMachine

namespace Sources

variable {modules : Dictionary String} {first second third : Sources} {name : String} {file : Nat}

/-- What a table of files becomes while modules are read: files of the library's modules are added at its end. -/
def Grown (modules : Dictionary String) (before after : Sources) : Prop :=
  ∃ added, after.files = before.files ++ added ∧ ∀ file ∈ added, modules.get? file.name = some file.text

theorem Grown.refl (sources : Sources) : Grown modules sources sources :=
  ⟨[], by simp, by simp⟩

theorem Grown.trans (earlier : Grown modules first second) (later : Grown modules second third) :
    Grown modules first third := by
  obtain ⟨added, files, known⟩ := earlier
  obtain ⟨more, files', known'⟩ := later
  refine ⟨added ++ more, by rw [files', files, List.append_assoc], fun file member => ?_⟩
  rcases List.mem_append.1 member with old | new
  · exact known file old
  · exact known' file new

theorem grown_add (sources : Sources) {text : String} (known : modules.get? name = some text) :
    Grown modules sources (sources.add name text) := by
  refine ⟨[⟨name, text⟩], rfl, fun file member => ?_⟩
  rw [List.mem_singleton.1 member]
  exact known

theorem Grown.get? (grown : Grown modules first second) {found : SourceFile} (known : first.get? file = some found) :
    second.get? file = some found := by
  obtain ⟨added, files, -⟩ := grown
  obtain ⟨bound, -⟩ := List.getElem?_eq_some_iff.1 known
  rw [Sources.get?, files, List.getElem?_append_left bound]
  exact known

theorem Grown.find? (grown : Grown modules first second) (known : first.find? name = some file) :
    second.find? name = some file := by
  obtain ⟨added, files, -⟩ := grown
  unfold Sources.find? at known ⊢
  rw [files, List.findIdx?_append, known]
  rfl

/-- A file that was not in the table before is a module's. -/
theorem Grown.get?_new (grown : Grown modules first second) {found : SourceFile}
    (known : second.get? file = some found) (new : first.get? file = none) :
    modules.get? found.name = some found.text := by
  obtain ⟨added, files, library⟩ := grown
  unfold Sources.get? at known new
  rw [files, List.getElem?_append_right (List.getElem?_eq_none_iff.1 new)] at known
  exact library found (List.mem_of_getElem? known)

/-- The file that a name leads to has the name. -/
theorem get?_of_find? {sources : Sources} (known : sources.find? name = some file) :
    ∃ text, sources.get? file = some ⟨name, text⟩ := by
  obtain ⟨bound, same, -⟩ := List.findIdx?_eq_some_iff_getElem.1 known
  refine ⟨sources.files[file].text, ?_⟩
  rw [get?, List.getElem?_eq_getElem bound, ← beq_iff_eq.1 same]

theorem find?_add {sources : Sources} (absent : sources.find? name = none) (text : String) :
    (sources.add name text).find? name = some sources.size := by
  unfold find? at absent ⊢
  rw [add, List.findIdx?_append, absent, Option.none_or]
  simp [size]

/-- The text that is read for a module: that of the file of its name, and if there is none the library's. -/
def textOf (sources : Sources) (modules : Dictionary String) (name : String) : Option String :=
  match sources.find? name with
  | some file => (sources.get? file).map SourceFile.text
  | none => modules.get? name

theorem textOf_of_get? {sources : Sources} {text : String} (known : sources.find? name = some file)
    (found : sources.get? file = some ⟨name, text⟩) : sources.textOf modules name = some text := by
  simp only [textOf, known, found, Option.map_some]

/-- Reading modules does not change what is read for a module. -/
theorem Grown.textOf (grown : Grown modules first second) (name : String) :
    second.textOf modules name = first.textOf modules name := by
  cases known : first.find? name with
  | some file =>
    obtain ⟨text, found⟩ := get?_of_find? known
    rw [textOf_of_get? known found, textOf_of_get? (grown.find? known) (grown.get? found)]
  | none =>
    cases later : second.find? name with
    | none => rw [Sources.textOf, Sources.textOf, known, later]
    | some file =>
      obtain ⟨text, found⟩ := get?_of_find? later
      have new : first.get? file = none := by
        cases old : first.get? file with
        | none => rfl
        | some other =>
          cases (grown.get? old).symm.trans found
          have absent := List.findIdx?_eq_none_iff.1 known ⟨name, text⟩ (List.mem_of_getElem? old)
          simp at absent
      rw [textOf_of_get? later found, Sources.textOf, known]
      exact (grown.get?_new found new).symm

end Sources

namespace Workspace

variable {modules : Dictionary String} {name : String} {place : Location} {workspace after : Workspace}

theorem grown_enlist (workspace : Workspace) {text : String} (known : modules.get? name = some text) :
    Sources.Grown modules workspace.sources (workspace.enlist name text).2.sources := by
  unfold enlist
  split
  · exact .refl _
  · exact workspace.sources.grown_add known

/-- Behind its enlistment a module has a file, and that has the text that is read for the module. -/
theorem enlist_spec (workspace : Workspace) {text : String} (known : modules.get? name = some text) :
    ∃ found, (workspace.enlist name text).2.sources.find? name = some (workspace.enlist name text).1 ∧
      (workspace.enlist name text).2.sources.get? (workspace.enlist name text).1 = some ⟨name, found⟩ ∧
      workspace.sources.textOf modules name = some found := by
  unfold enlist
  split
  · rename_i file here
    obtain ⟨found, there⟩ := Sources.get?_of_find? here
    exact ⟨found, here, there, Sources.textOf_of_get? here there⟩
  · rename_i absent
    refine ⟨text, Sources.find?_add absent text, Sources.get?_add_size .., ?_⟩
    rw [Sources.textOf, absent]
    exact known

/-- Where a module's name is a plain one that is not on the chain, what comes of the module is up to its text. -/
theorem openModule_known {text : String} (place : Location) (plain : isRelative name = false)
    (fresh : name ∉ workspace.chain) (known : modules.get? name = some text) :
    workspace.openModule (.memory modules) name place =
      match (workspace.enlist name text).2.tokens (workspace.enlist name text).1 with
      | .error failure => (.error failure, (workspace.enlist name text).2)
      | .ok tokens =>
        (.ok tokens, { (workspace.enlist name text).2 with chain := workspace.chain ++ [name] }) := by
  have loaded : (Library.memory modules).load name = .ok ⟨name, text⟩ := by simp only [Library.load, known]
  rewrite [← workspace.chain_enlist name text, openModule, if_neg (by simp [plain]), if_neg fresh, loaded]
  rfl

/-- Otherwise the module is not even read. -/
theorem openModule_unknown (workspace : Workspace) (place : Location)
    (unknown : isRelative name = true ∨ name ∈ workspace.chain ∨ modules.get? name = none) :
    ∃ failure, workspace.openModule (.memory modules) name place = (.error failure, workspace) := by
  rw [openModule]
  split
  · exact ⟨_, rfl⟩
  · rename_i plain
    split
    · exact ⟨_, rfl⟩
    · rename_i fresh
      have absent : modules.get? name = none := (unknown.resolve_left plain).resolve_left fresh
      have refused : (Library.memory modules).load name = .error (.noModule name) := by simp only [Library.load, absent]
      rw [refused]
      exact ⟨_, rfl⟩

theorem known_or_unknown (workspace : Workspace) (modules : Dictionary String) (name : String) :
    (isRelative name = false ∧ name ∉ workspace.chain ∧ ∃ text, modules.get? name = some text) ∨
      (isRelative name = true ∨ name ∈ workspace.chain ∨ modules.get? name = none) := by
  cases isRelative name <;> cases modules.get? name <;> by_cases name ∈ workspace.chain <;> simp_all

/-- What the opening of a module comes to if it works. -/
structure Opens (modules : Dictionary String) (name : String) (before : Workspace) (tokens : List Token)
    (after : Workspace) : Prop where
  plain : isRelative name = false
  fresh : name ∉ before.chain
  known : ∃ text, modules.get? name = some text
  grown : Sources.Grown modules before.sources after.sources
  chain : after.chain = before.chain ++ [name]
  file : ∃ file text, after.sources.find? name = some file ∧ after.sources.get? file = some ⟨name, text⟩ ∧
    Token.ofText file text = .ok tokens

theorem opens_of_openModule {tokens : List Token}
    (opened : workspace.openModule (.memory modules) name place = (.ok tokens, after)) :
    Opens modules name workspace tokens after := by
  rcases workspace.known_or_unknown modules name with ⟨plain, fresh, text, known⟩ | unknown
  · obtain ⟨found, here, there, -⟩ := workspace.enlist_spec known
    have grown := workspace.grown_enlist known
    rw [openModule_known place plain fresh known, Workspace.tokens, there] at opened
    dsimp only at opened
    split at opened
    · cases opened
    · rename_i read
      cases opened
      exact ⟨plain, fresh, ⟨text, known⟩, grown, rfl, _, _, here, there, read⟩
  · obtain ⟨failure, failed⟩ := workspace.openModule_unknown place unknown
    cases failed.symm.trans opened

/-- A module whose name is a plain one that is not on the chain can be opened wherever its text can be read. -/
theorem openModule_of_textOf {text found : String} (place : Location) (plain : isRelative name = false)
    (fresh : name ∉ workspace.chain) (known : modules.get? name = some text)
    (effective : workspace.sources.textOf modules name = some found) :
    ∃ file opened, Sources.Grown modules workspace.sources opened.sources ∧ opened.chain = workspace.chain ++ [name] ∧
      opened.sources.get? file = some ⟨name, found⟩ ∧
      ∀ tokens, Token.ofText file found = .ok tokens →
        workspace.openModule (.memory modules) name place = (.ok tokens, opened) := by
  obtain ⟨found', here, there, same⟩ := workspace.enlist_spec known
  cases effective.symm.trans same
  refine ⟨(workspace.enlist name text).1, { (workspace.enlist name text).2 with chain := workspace.chain ++ [name] },
    workspace.grown_enlist known, rfl, there, fun tokens read => ?_⟩
  rw [openModule_known place plain fresh known, Workspace.tokens, there]
  simp only [read]

theorem grown_openModule (workspace : Workspace) (modules : Dictionary String) (name : String) (place : Location) :
    Sources.Grown modules workspace.sources (workspace.openModule (.memory modules) name place).2.sources := by
  rcases workspace.known_or_unknown modules name with ⟨plain, fresh, text, known⟩ | unknown
  · have grown := workspace.grown_enlist known
    rw [openModule_known place plain fresh known]
    split <;> exact grown
  · obtain ⟨failure, failed⟩ := workspace.openModule_unknown place unknown
    rw [failed]
    exact .refl _

end Workspace

namespace Assembly

variable {modules : Dictionary String}

theorem grown_run {importer : Importer}
    (imports : ∀ name place workspace,
      Sources.Grown modules workspace.sources (importer name place workspace).2.sources)
    (assembly : Assembly) (tokens : List Token) (workspace : Workspace) :
    Sources.Grown modules workspace.sources (run importer assembly tokens workspace).2.sources :=
  @run_related importer (fun before after => Sources.Grown modules before.sources after.sources) (fun _ => .refl _)
    (fun earlier later => earlier.trans later) imports assembly tokens workspace

theorem grown_spliceImports (modules : Dictionary String) (depth : Nat) (name : String) (place : Location)
    (workspace : Workspace) :
    Sources.Grown modules workspace.sources (spliceImports (.memory modules) depth name place workspace).2.sources := by
  induction depth generalizing name place workspace with
  | zero => exact .refl _
  | succ depth ih =>
    have opening := workspace.grown_openModule modules name place
    rw [spliceImports]
    cases opened : workspace.openModule (.memory modules) name place with
    | mk outcome after =>
    rw [opened] at opening
    cases outcome with
    | error failure => exact opening
    | ok tokens => exact opening.trans (grown_run ih {} tokens after)

end Assembly

end TapeMachine
