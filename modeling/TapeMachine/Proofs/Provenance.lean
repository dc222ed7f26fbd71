import TapeMachine.Proofs.Places
import TapeMachine.Proofs.Spelling
import TapeMachine.Typing

namespace TapeMachine

namespace Sources

variable {sources later before between after : Sources} {place : Location} {failure : Failure}

/-- The files of a table stay where they are, and more may come behind them. -/
def Grows (before after : Sources) : Prop :=
  before.files <+: after.files

theorem Grows.refl (sources : Sources) : sources.Grows sources :=
  List.prefix_rfl

theorem Grows.trans (first : before.Grows between) (second : between.Grows after) : before.Grows after :=
  List.IsPrefix.trans first second

/-- A file is added behind those that have been read. -/
theorem grows_add (sources : Sources) (name text : String) : sources.Grows (sources.add name text) :=
  List.prefix_append ..

/-- The number of a file stays its number. -/
theorem Grows.get? (grows : sources.Grows later) {number : Nat} {file : SourceFile}
    (known : sources.get? number = some file) : later.get? number = some file := by
  obtain ⟨more, same⟩ := grows
  obtain ⟨bound, -⟩ := List.getElem?_eq_some_iff.1 known
  rw [Sources.get?, ← same, List.getElem?_append_left bound]
  exact known

/-- The place is that of a token of a file in the table. -/
def Marks (sources : Sources) (place : Location) : Prop :=
  ∃ file tokens, sources.get? place.file = some file ∧ Token.ofText place.file file.text = .ok tokens ∧
    ∃ token ∈ tokens, token.place = place

theorem Marks.grow (marks : sources.Marks place) (grows : sources.Grows later) : later.Marks place := by
  obtain ⟨file, tokens, known, read, member⟩ := marks
  exact ⟨file, tokens, grows.get? known, read, member⟩

def MarksAll (sources : Sources) (places : List Location) : Prop :=
  ∀ place ∈ places, sources.Marks place

theorem MarksAll.grow {places : List Location} (marks : sources.MarksAll places) (grows : sources.Grows later) :
    later.MarksAll places :=
  fun place member => (marks place member).grow grows

/-- The tokens of a text that is known as a file mark their own places in it. -/
theorem marks_of_ofText {number : Nat} {file : SourceFile} {tokens : List Token}
    (known : sources.get? number = some file)
    (read : Token.ofText number file.text = .ok tokens) : sources.MarksAll (tokens.map Token.place) := by
  intro place member
  obtain ⟨token, there, rfl⟩ := List.mem_map.1 member
  obtain ⟨here, -⟩ := (Lexer.reads_ofText number file.text).covers read there
  rw [← here] at known read
  exact ⟨file, tokens, known, read, token, there, rfl⟩

theorem marksAll_block {stop : Location} {body : List Item}
    (marks : sources.MarksAll (place :: stop :: placesOf body)) :
    sources.Marks place ∧ sources.MarksAll (placesOf body) := by
  rw [MarksAll, List.forall_mem_cons, List.forall_mem_cons] at marks
  exact ⟨marks.1, marks.2.2⟩

theorem marksAll_halves {middle stop : Location} {first second : List Item}
    (marks : sources.MarksAll (place :: middle :: stop :: (placesOf first ++ placesOf second))) :
    sources.Marks place ∧ sources.MarksAll (placesOf first) ∧ sources.MarksAll (placesOf second) := by
  rw [MarksAll, List.forall_mem_cons, List.forall_mem_cons, List.forall_mem_cons, List.forall_mem_append] at marks
  exact ⟨marks.1, marks.2.2.2⟩

/-- What a failure may point at: a token, or the text of a file that cannot be read. An interruption may come where
there is nothing to point at. -/
inductive Shows (sources : Sources) : Failure → Prop
  | token {cause : Cause} {place : Location} : sources.Marks place → Shows sources ⟨cause, some place⟩
  | misspelled {number : Nat} {file : SourceFile} {failure : Failure} : sources.get? number = some file →
      Token.ofText number file.text = .error failure → Shows sources failure
  | nowhere : Shows sources ⟨.interrupted, none⟩

theorem Shows.grow (shown : sources.Shows failure) (grows : sources.Grows later) : later.Shows failure := by
  cases shown with
  | token marks => exact .token (marks.grow grows)
  | misspelled known failed => exact .misspelled (grows.get? known) failed
  | nowhere => exact .nowhere

/-- A failure at the place of a token shows that token. -/
theorem shows_of_marks (located : failure.place = some place) (marks : sources.Marks place) :
    sources.Shows failure := by
  obtain ⟨cause, _⟩ := failure
  cases located
  exact .token marks

end Sources

namespace Build

variable {α β : Type} {places : α → List Location} {places' : β → List Location} {before : Sources} {build : Build α}

/-- A stage keeps the files it finds, the places in what it makes are those of tokens, and if it fails, the failure
shows where. -/
structure Traced (places : α → List Location) (before : Sources) (build : Build α) : Prop where
  grows : before.Grows build.2.sources
  marks : ∀ made, build.1 = .ok made → build.2.sources.MarksAll (places made)
  failed : ∀ failure, build.1 = .error failure → build.2.sources.Shows failure

theorem traced_ok {made : α} {workspace : Workspace} (grows : before.Grows workspace.sources)
    (marks : workspace.sources.MarksAll (places made)) :
    Traced places before (.ok made, workspace) := by
  refine ⟨grows, ?_, nofun⟩
  rintro _ ⟨⟩
  exact marks

theorem traced_error {failure : Failure} {workspace : Workspace} (grows : before.Grows workspace.sources)
    (failed : workspace.sources.Shows failure) : Traced places before (.error failure, workspace) := by
  refine ⟨grows, nofun, ?_⟩
  rintro _ ⟨⟩
  exact failed

/-- What has been traced from later files on has been traced from earlier ones. -/
theorem Traced.since {earlier : Sources} (traced : Traced places before build) (grows : earlier.Grows before) :
    Traced places earlier build :=
  ⟨grows.trans traced.grows, traced.marks, traced.failed⟩

/-- In a sequence the second part starts with the files that the first has left, and with places that are marked
there. -/
theorem Traced.andThen {next : α → Workspace → Build β} (traced : Traced places before build)
    (later : ∀ made after, before.Grows after.sources → after.sources.MarksAll (places made) →
      Traced places' after.sources (next made after)) : Traced places' before (build.andThen next) := by
  obtain ⟨outcome, workspace⟩ := build
  cases outcome with
  | error failure => exact traced_error traced.grows (traced.failed failure rfl)
  | ok made =>
    exact (later made workspace traced.grows (traced.marks made rfl)).since traced.grows

end Build

/-- A module is found, and the places of its tokens are marked, or else the import fails where it stands. -/
theorem Workspace.traced_openModule (workspace : Workspace) (library : Library) (name : String) {place : Location}
    (here : workspace.sources.Marks place) :
    Build.Traced (fun tokens => tokens.map Token.place) workspace.sources
      (workspace.openModule library name place) := by
  have fails : ∀ cause, Build.Traced (fun tokens : List Token => tokens.map Token.place) workspace.sources
      (.error ⟨cause, some place⟩, workspace) :=
    fun cause => Build.traced_error (.refl _) (.token here)
  unfold openModule
  split
  · exact fails _
  · split
    · exact fails _
    · split
      · exact fails _
      · rename_i found _
        have grows : workspace.sources.Grows (workspace.enlist found.path found.text).2.sources := by
          unfold enlist
          split
          · exact .refl _
          · exact workspace.sources.grows_add ..
        generalize workspace.enlist found.path found.text = enlisted at grows
        obtain ⟨number, enlisted⟩ := enlisted
        dsimp only at grows ⊢
        split
        · rename_i failure failed
          unfold tokens at failed
          split at failed
          · rename_i known
            exact Build.traced_error grows (.misspelled known failed)
          · cases failed
        · rename_i made read
          unfold tokens at read
          split at read
          · rename_i known
            exact Build.traced_ok grows (Sources.marks_of_ofText known read)
          · cases read
            exact Build.traced_ok grows nofun

namespace Assembly

/-- The places of a program are those of tokens if they are in what its imports bring. -/
theorem traced_run {importer : Importer}
    (imports : ∀ name place workspace, workspace.sources.Marks place →
      Build.Traced placesOf workspace.sources (importer name place workspace))
    {assembly : Assembly} {tokens : List Token} {workspace : Workspace}
    (remembers : assembly.Remembers workspace.sources.Marks)
    (marks : workspace.sources.MarksAll (tokens.map Token.place)) :
    Build.Traced placesOf workspace.sources (run importer assembly tokens workspace) := by
  induction tokens generalizing assembly workspace with
  | nil =>
    have kept := keeps_finish remembers
    rw [run]
    cases finished : assembly.finish with
    | error failure =>
      rw [finished] at kept
      obtain ⟨place, located, known⟩ := kept
      exact Build.traced_error (.refl _) (Sources.shows_of_marks located known)
    | ok items =>
      rw [finished] at kept
      exact Build.traced_ok (.refl _) kept
  | cons token rest ih =>
    rw [List.map_cons, Sources.MarksAll, List.forall_mem_cons] at marks
    have kept := keeps_read remembers marks.1
    rw [run]
    cases made : assembly.read token with
    | error failure =>
      rw [made] at kept
      obtain ⟨place, located, known⟩ := kept
      exact Build.traced_error (.refl _) (Sources.shows_of_marks located known)
    | ok step =>
      rw [made] at kept
      cases step with
      | next next => exact ih kept marks.2
      | imports name place next =>
        have imported := imports name place workspace kept.1
        dsimp only
        split
        · rename_i failed
          rw [failed] at imported
          exact imported
        · rename_i items after brought
          rw [brought] at imported
          have remembers := kept.2.mono fun _ known => known.grow imported.grows
          have onward := ih (remembers.addAll (imported.marks items rfl)) (Sources.MarksAll.grow marks.2 imported.grows)
          exact onward.since imported.grows

theorem remembers_nothing (known : Location → Prop) : Remembers known {} :=
  ⟨nofun, nofun, nofun, nofun⟩

/-- The induction is on the depth that is left. At the bottom the import fails where it stands. -/
theorem traced_spliceImports (library : Library) (depth : Nat) (name : String) {place : Location}
    (workspace : Workspace) (here : workspace.sources.Marks place) :
    Build.Traced placesOf workspace.sources (spliceImports library depth name place workspace) := by
  induction depth generalizing name place workspace with
  | zero => exact Build.traced_error (.refl _) (.token here)
  | succ depth ih =>
    refine (workspace.traced_openModule library name here).andThen fun tokens opened _ marks => ?_
    have run := traced_run (fun name place workspace here => ih name workspace here) (remembers_nothing _) marks
    exact ⟨run.grows, run.marks, run.failed⟩

end Assembly

namespace Settings

/-- Both ways to treat imports bring marked places only: a kept one has its own place, and a spliced one those of its
module. -/
theorem traced_assemble (settings : Settings) {tokens : List Token} {workspace : Workspace}
    (marks : workspace.sources.MarksAll (tokens.map Token.place)) :
    Build.Traced placesOf workspace.sources (settings.assemble tokens workspace) := by
  refine Assembly.traced_run ?_ (Assembly.remembers_nothing _) marks
  intro name place workspace here
  unfold importer
  split
  · exact Assembly.traced_spliceImports settings.library settings.depth name workspace here
  · exact Build.traced_ok (.refl _) (List.forall_mem_singleton.2 here)

/-- A text becomes a file before it is read, so its failures can show it. -/
theorem traced_compile (settings : Settings) (name text : String) (workspace : Workspace) :
    Build.Traced placesOf workspace.sources (settings.compile name text workspace) := by
  have grows := workspace.sources.grows_add name text
  have known := workspace.sources.get?_add_size name text
  unfold compile
  dsimp only
  split
  · rename_i failed
    exact Build.traced_error grows (.misspelled known failed)
  · rename_i tokens read
    exact (settings.traced_assemble (Sources.marks_of_ofText known read)).since grows

theorem traced_enterModule (settings : Settings) (name : String) {place : Location} (workspace : Workspace)
    (here : workspace.sources.Marks place) :
    Build.Traced placesOf workspace.sources (settings.enterModule name place workspace) := by
  refine (workspace.traced_openModule settings.library name here).andThen fun tokens opened _ marks => ?_
  have assembled := settings.traced_assemble marks
  generalize settings.assemble tokens opened = build at assembled ⊢
  obtain ⟨outcome, after⟩ := build
  cases outcome with
  | error failure => exact Build.traced_error assembled.grows (assembled.failed failure rfl)
  | ok items => exact assembled

end Settings

namespace Typing

/-- Of what a check makes no place is remembered. -/
abbrev Traced {α : Type} (before : Sources) (build : Build α) : Prop :=
  Build.Traced (fun _ => []) before build

theorem traced_placed {α : Type} (outcome : Outcome α) {place : Location} {workspace : Workspace}
    (here : workspace.sources.Marks place) : Traced workspace.sources (placed outcome place workspace) := by
  cases outcome with
  | error cause => exact Build.traced_error (.refl _) (.token here)
  | ok made => exact Build.traced_ok (.refl _) nofun

mutual

/-- A check that fails shows where, and it keeps the files it finds. -/
theorem traced_check {modules : Modules}
    (imports : ∀ name place workspace, workspace.sources.Marks place →
      Traced workspace.sources (modules name place workspace))
    (typing : Typing) {item : Item} {workspace : Workspace} (marks : workspace.sources.MarksAll item.places) :
    Traced workspace.sources (check modules typing item workspace) := by
  cases item with
  | number place n => exact traced_placed _ (marks place List.mem_cons_self)
  | string place text => exact traced_placed _ (marks place List.mem_cons_self)
  | word place name => exact traced_placed _ (marks place List.mem_cons_self)
  | imports place name =>
    refine (imports name place workspace (marks place List.mem_cons_self)).andThen fun signatures after _ _ => ?_
    exact Build.traced_ok (.refl _) nofun
  | branch place body stop =>
    obtain ⟨here, inner⟩ := Sources.marksAll_block marks
    refine (traced_placed (typing.operand "if") here).andThen fun opened after grows _ => ?_
    have checked := traced_checkAll imports opened (inner.grow grows)
    refine checked.andThen fun closed last grows' _ => ?_
    split
    · exact Build.traced_ok (.refl _) nofun
    · exact traced_placed _ ((here.grow grows).grow grows')
  | choice place first middle second stop =>
    obtain ⟨here, consequent, alternative⟩ := Sources.marksAll_halves marks
    refine (traced_placed (typing.operand "if") here).andThen fun opened after grows _ => ?_
    refine (traced_checkAll imports opened (consequent.grow grows)).andThen fun one between grows' _ => ?_
    have here := (here.grow grows).grow grows'
    have checked := traced_checkAll imports { one with stack := opened.stack } ((alternative.grow grows).grow grows')
    refine checked.andThen fun two last grows'' _ => ?_
    split
    · exact Build.traced_ok (.refl _) nofun
    · exact traced_placed _ (here.grow grows'')
  | repeats place body stop =>
    obtain ⟨here, inner⟩ := Sources.marksAll_block marks
    refine (traced_placed (typing.operand "repeat") here).andThen fun opened after grows _ => ?_
    exact traced_checkAll imports opened (inner.grow grows)
  | loop place test middle body stop =>
    obtain ⟨here, before, inner⟩ := Sources.marksAll_halves marks
    refine (traced_checkAll imports typing before).andThen fun tested after grows _ => ?_
    have here := here.grow grows
    split
    · refine (traced_placed (tested.operand "while") here).andThen fun opened last grows' _ => ?_
      exact traced_checkAll imports opened ((inner.grow grows).grow grows')
    · exact traced_placed _ here
  | bind place names body stop =>
    obtain ⟨here, inner⟩ := Sources.marksAll_block marks
    refine (traced_placed (typing.bind names) here).andThen fun opened after grows _ => ?_
    have checked := traced_checkAll imports opened (inner.grow grows)
    exact checked.andThen fun closed last _ _ => Build.traced_ok (.refl _) nofun
  | cell place name body stop =>
    obtain ⟨here, inner⟩ := Sources.marksAll_block marks
    have checked := traced_checkAll imports (typing.cell name) inner
    exact checked.andThen fun closed last _ _ => Build.traced_ok (.refl _) nofun
  | define place heading body stop =>
    obtain ⟨here, inner⟩ := Sources.marksAll_block marks
    refine (traced_placed heading.signature here).andThen fun signature first grows _ => ?_
    have here := here.grow grows
    refine (traced_placed (typing.enter heading.name signature) here).andThen fun opened second grows' _ => ?_
    have here := here.grow grows'
    have checked := traced_checkAll imports opened ((inner.grow grows).grow grows')
    refine checked.andThen fun closed third grows'' _ => ?_
    refine (traced_placed (closed.conclude heading.name signature) (here.grow grows'')).andThen fun _ last _ _ => ?_
    exact Build.traced_ok (.refl _) nofun

theorem traced_checkAll {modules : Modules}
    (imports : ∀ name place workspace, workspace.sources.Marks place →
      Traced workspace.sources (modules name place workspace))
    (typing : Typing) {items : List Item} {workspace : Workspace}
    (marks : workspace.sources.MarksAll (placesOf items)) :
    Traced workspace.sources (checkAll modules typing items workspace) := by
  match items with
  | [] => exact Build.traced_ok (.refl _) nofun
  | item :: rest =>
    rw [placesOf, Sources.MarksAll, List.forall_mem_append] at marks
    refine (traced_check imports typing marks.1).andThen fun next after grows _ => ?_
    exact traced_checkAll imports next (Sources.MarksAll.grow marks.2 grows)

end

/-- Types are left over only behind an item. -/
theorem traced_checkProgram {modules : Modules}
    (imports : ∀ name place workspace, workspace.sources.Marks place →
      Traced workspace.sources (modules name place workspace))
    {items : List Item} {workspace : Workspace} (marks : workspace.sources.MarksAll (placesOf items)) :
    Traced workspace.sources (checkProgram modules items workspace) := by
  cases reversed : items.getLast? with
  | none =>
    rw [List.getLast?_eq_none_iff.1 reversed]
    exact Build.traced_ok (.refl _) nofun
  | some item =>
    have last : workspace.sources.Marks item.last :=
      marks item.last (mem_placesOf.2 ⟨item, List.mem_of_getLast? reversed, item.last_mem_places⟩)
    refine (traced_checkAll imports start marks).andThen fun typing after grows _ => ?_
    split
    · exact Build.traced_ok (.refl _) nofun
    · rw [reversed]
      exact Build.traced_error (.refl _) (.token (last.grow grows))

end Typing

namespace Settings

theorem traced_moduleSignatures (settings : Settings) (depth : Nat) (name : String) {place : Location}
    (workspace : Workspace) (here : workspace.sources.Marks place) :
    Typing.Traced workspace.sources (settings.moduleSignatures depth name place workspace) := by
  induction depth generalizing name place workspace with
  | zero => exact Build.traced_error (.refl _) (.token here)
  | succ depth ih =>
    refine (settings.traced_enterModule name workspace here).andThen fun items opened _ marks => ?_
    have checked := Typing.traced_checkProgram (fun name place workspace here => ih name workspace here) marks
    generalize Typing.checkProgram (settings.moduleSignatures depth) items opened = build at checked ⊢
    obtain ⟨outcome, after⟩ := build
    cases outcome with
    | error failure => exact Build.traced_error checked.grows (checked.failed failure rfl)
    | ok typing => exact Build.traced_ok checked.grows nofun

theorem traced_check (settings : Settings) {items : List Item} {workspace : Workspace}
    (marks : workspace.sources.MarksAll (placesOf items)) :
    Typing.Traced workspace.sources (settings.check items workspace) :=
  Typing.traced_checkProgram (fun name _ workspace here => settings.traced_moduleSignatures _ name workspace here) marks

end Settings

end TapeMachine
