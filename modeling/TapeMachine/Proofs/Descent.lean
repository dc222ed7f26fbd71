import Mathlib
import TapeMachine.Proofs.Growth

namespace TapeMachine

namespace Assembly

/-- The program of tokens whose imports are spliced, with no bound on how deep modules are nested. Where a module is
imported it is opened, its tokens are assembled on their own, it is closed, and its items take the place of the import. -/
inductive Assembles (library : Library) : Assembly → List Token → Workspace → Build (List Item) → Prop
  | finished {assembly workspace} : Assembles library assembly [] workspace (assembly.finish, workspace)
  | rejected {assembly token rest workspace failure} : assembly.read token = .error failure →
      Assembles library assembly (token :: rest) workspace (.error failure, workspace)
  | next {assembly token next rest workspace build} : assembly.read token = .ok (.next next) →
      Assembles library next rest workspace build → Assembles library assembly (token :: rest) workspace build
  | unopened {assembly token name place next rest workspace failure after} :
      assembly.read token = .ok (.imports name place next) →
      workspace.openModule library name place = (.error failure, after) →
      Assembles library assembly (token :: rest) workspace (.error failure, after)
  | broken {assembly token name place next rest workspace inner opened failure after} :
      assembly.read token = .ok (.imports name place next) →
      workspace.openModule library name place = (.ok inner, opened) →
      Assembles library {} inner opened (.error failure, after) →
      Assembles library assembly (token :: rest) workspace (.error failure, after.close)
  | spliced {assembly token name place next rest workspace inner opened included between build} :
      assembly.read token = .ok (.imports name place next) →
      workspace.openModule library name place = (.ok inner, opened) →
      Assembles library {} inner opened (.ok included, between) →
      Assembles library (next.addAll included) rest between.close build →
      Assembles library assembly (token :: rest) workspace build

variable {library : Library} {assembly : Assembly} {tokens : List Token} {workspace : Workspace}
variable {build build' : Build (List Item)}

/-- At every token there is one way to go on. -/
theorem Assembles.unique (first : Assembles library assembly tokens workspace build)
    (second : Assembles library assembly tokens workspace build') : build = build' := by
  induction first generalizing build' with
  | finished =>
    cases second
    rfl
  | rejected read =>
    cases second with
    | rejected read' => cases read.symm.trans read'; rfl
    | next read' | unopened read' | broken read' | spliced read' => cases read.symm.trans read'
  | next read _ ih =>
    cases second with
    | next read' later => cases read.symm.trans read'; exact ih later
    | rejected read' | unopened read' | broken read' | spliced read' => cases read.symm.trans read'
  | unopened read failed =>
    cases second with
    | unopened read' failed' => cases read.symm.trans read'; cases failed.symm.trans failed'; rfl
    | broken read' opened | spliced read' opened => cases read.symm.trans read'; cases failed.symm.trans opened
    | rejected read' | next read' => cases read.symm.trans read'
  | broken read opened _ ih =>
    cases second with
    | unopened read' failed => cases read.symm.trans read'; cases opened.symm.trans failed
    | broken read' opened' inside =>
      cases read.symm.trans read'
      cases opened.symm.trans opened'
      cases ih inside
      rfl
    | spliced read' opened' inside =>
      cases read.symm.trans read'
      cases opened.symm.trans opened'
      cases ih inside
    | rejected read' | next read' => cases read.symm.trans read'
  | spliced read opened _ _ insideIh laterIh =>
    cases second with
    | unopened read' failed => cases read.symm.trans read'; cases opened.symm.trans failed
    | broken read' opened' inside =>
      cases read.symm.trans read'
      cases opened.symm.trans opened'
      cases insideIh inside
    | spliced read' opened' inside later =>
      cases read.symm.trans read'
      cases opened.symm.trans opened'
      cases insideIh inside
      exact laterIh later
    | rejected read' | next read' => cases read.symm.trans read'

theorem Assembles.chain_eq (assembles : Assembles library assembly tokens workspace build) :
    build.2.chain = workspace.chain := by
  induction assembles with
  | finished => rfl
  | rejected => rfl
  | next _ _ ih => exact ih
  | unopened _ failed => exact Workspace.chain_of_notOpened failed
  | broken _ opened _ ih => exact Workspace.chain_close (ih.trans (Workspace.chain_of_opened opened).2)
  | spliced _ opened _ _ insideIh laterIh =>
    exact laterIh.trans (Workspace.chain_close (insideIh.trans (Workspace.chain_of_opened opened).2))

theorem Assembles.grown {modules : Dictionary String}
    (assembles : Assembles (.memory modules) assembly tokens workspace build) :
    Sources.Grown modules workspace.sources build.2.sources := by
  have opens : ∀ {workspace : Workspace} {name place outcome after},
      workspace.openModule (.memory modules) name place = (outcome, after) →
        Sources.Grown modules workspace.sources after.sources := by
    intro workspace name place outcome after opened
    have growing := workspace.grown_openModule modules name place
    rw [opened] at growing
    exact growing
  induction assembles with
  | finished => exact .refl _
  | rejected => exact .refl _
  | next _ _ ih => exact ih
  | unopened _ failed => exact opens failed
  | broken _ opened _ ih => exact (opens opened).trans ih
  | spliced _ opened _ _ insideIh laterIh => exact ((opens opened).trans insideIh).trans laterIh

end Assembly

namespace Dictionary

variable {modules : Dictionary String} {name text : String} {chain : List String}

/-- How many modules there are that are not being imported. -/
def unused (modules : Dictionary String) (chain : List String) : Nat :=
  ((modules.entries.map Prod.fst).filter (· ∉ chain)).length

theorem unused_le (modules : Dictionary String) (chain : List String) : modules.unused chain ≤ modules.entries.length := by
  rw [← List.length_map Prod.fst]
  exact List.length_filter_le ..

theorem mem_of_get? (known : modules.get? name = some text) : name ∈ modules.entries.map Prod.fst := by
  obtain ⟨entry, found, rfl⟩ := Option.map_eq_some_iff.1 known
  have same : entry.1 = name := by simpa using List.find?_some found
  exact same ▸ List.mem_map_of_mem (List.mem_of_find?_eq_some found)

/-- A module that is opened is one of them, and then there is one less. -/
theorem unused_lt (known : modules.get? name = some text) (fresh : name ∉ chain) :
    modules.unused (chain ++ [name]) < modules.unused chain := by
  have fewer : (modules.entries.map Prod.fst).filter (· ∉ chain ++ [name]) =
      ((modules.entries.map Prod.fst).filter (· ∉ chain)).filter (· ≠ name) := by
    rw [List.filter_filter]
    refine List.filter_congr fun other _ => ?_
    simp [not_or, Bool.and_comm]
  rw [unused, unused, fewer, List.length_filter_lt_length_iff_exists]
  exact ⟨name, List.mem_filter.2 ⟨mem_of_get? known, decide_eq_true fresh⟩, by simp⟩

end Dictionary

namespace Assembly

variable {modules : Dictionary String}

/-- A bound on the depth that exceeds the number of unused modules is never reached. -/
theorem assembles_run {depth : Nat} (assembly : Assembly) (tokens : List Token) {workspace : Workspace}
    (bound : modules.unused workspace.chain < depth) :
    Assembles (.memory modules) assembly tokens workspace
      (run (spliceImports (.memory modules) depth) assembly tokens workspace) := by
  induction depth generalizing assembly tokens workspace with
  | zero => cases bound
  | succ depth deeper =>
    induction tokens generalizing assembly workspace with
    | nil => exact .finished
    | cons token rest ih =>
      cases read : assembly.read token with
      | error failure =>
        rw [run, read]
        exact .rejected read
      | ok step =>
        cases step with
        | next next =>
          rw [run, read]
          exact .next read (ih next bound)
        | imports name place next =>
          have kept := spliceImports_keepsChain (.memory modules) (depth + 1) name place workspace
          rw [run, read]
          dsimp only
          rw [spliceImports] at kept ⊢
          cases opened : workspace.openModule (.memory modules) name place with
          | mk outcome between =>
          rw [opened] at kept
          cases outcome with
          | error failure => exact .unopened read opened
          | ok inner =>
            have opens := Workspace.opens_of_openModule opened
            obtain ⟨text, known⟩ := opens.known
            have less := Dictionary.unused_lt known opens.fresh
            rw [← opens.chain] at less
            have inside := deeper {} inner (show modules.unused between.chain < depth by omega)
            simp only [Build.andThen] at kept ⊢
            cases assembled : run (spliceImports (.memory modules) depth) {} inner between with
            | mk result last =>
            rw [assembled] at inside kept
            cases result with
            | error failure => exact .broken read opened inside
            | ok included => exact .spliced read opened inside (ih _ (by rw [kept]; exact bound))

end Assembly

/-- The program in `text`, which becomes the next file of the table, with no bound on how deep modules are nested. -/
inductive Compiles (library : Library) (name text : String) (workspace : Workspace) : Build (List Item) → Prop
  | unread {failure : Failure} : Token.ofText workspace.sources.size text = .error failure →
      Compiles library name text workspace
        (.error failure, { workspace with sources := workspace.sources.add name text })
  | assembled {tokens : List Token} {build : Build (List Item)} :
      Token.ofText workspace.sources.size text = .ok tokens →
      Assembly.Assembles library {} tokens { workspace with sources := workspace.sources.add name text } build →
      Compiles library name text workspace build

theorem Compiles.unique {library : Library} {name text : String} {workspace : Workspace}
    {build build' : Build (List Item)} (first : Compiles library name text workspace build)
    (second : Compiles library name text workspace build') : build = build' := by
  cases first with
  | unread read =>
    cases second with
    | unread read' => cases read.symm.trans read'; rfl
    | assembled read' => cases read.symm.trans read'
  | assembled read assembles =>
    cases second with
    | unread read' => cases read.symm.trans read'
    | assembled read' assembles' =>
      cases read.symm.trans read'
      exact assembles.unique assembles'

/-- The bound that is set on the depth of imports changes nothing: without it a program comes to the same end. -/
theorem Settings.compiles {modules : Dictionary String} {settings : Settings}
    (library : settings.library = .memory modules) (spliced : settings.splice = true) (name text : String)
    (workspace : Workspace) : Compiles (.memory modules) name text workspace (settings.compile name text workspace) := by
  rw [compile]
  cases read : Token.ofText workspace.sources.size text with
  | error failure => exact .unread read
  | ok tokens =>
    refine .assembled read ?_
    dsimp only
    rw [assemble, importer, if_pos spliced, library]
    refine Assembly.assembles_run {} tokens ?_
    have bound := modules.unused_le workspace.chain
    rw [depth, library, Library.names, List.length_map]
    exact Nat.lt_succ_of_le bound

end TapeMachine
