import TapeMachine.Library
import TapeMachine.Token.Lexer

namespace TapeMachine

/-- What the stages of a build share: the files read so far, and the modules that are being imported,
outermost first. -/
structure Workspace where
  sources : Sources := {}
  chain : List String := []
  deriving Inhabited

/-- What a stage makes, and the workspace behind it, which is there also if the stage fails. -/
abbrev Build (α : Type) := Except Failure α × Workspace

/-- Go on with what a stage has made. -/
@[inline]
def Build.andThen {α β : Type} (build : Build α) (next : α → Workspace → Build β) : Build β :=
  match build with
  | (.ok made, workspace) => next made workspace
  | (.error failure, workspace) => (.error failure, workspace)

namespace Workspace

/-- The module that was opened last is done. -/
def close (workspace : Workspace) : Workspace :=
  { workspace with chain := workspace.chain.dropLast }

/-- The number of the file at `path`, which is read once however often it is imported. -/
def enlist (workspace : Workspace) (path text : String) : Nat × Workspace :=
  match workspace.sources.find? path with
  | some file => (file, workspace)
  | none =>
    (workspace.sources.size, { workspace with sources := workspace.sources.add path text })

/-- The tokens of a file of the table. -/
def tokens (workspace : Workspace) (file : Nat) : Except Failure (List Token) :=
  match workspace.sources.get? file with
  | some found => Token.ofText file found.text
  | none => .ok []

/-- Does the name try to leave the library? -/
def isRelative (name : String) : Bool :=
  name.toList.head? == some '.' || name.toList.any fun c => c == '/' || c == '\\'

/-- Find the module `name`, which is wanted at `place`, and read its tokens. If that works, the module
is on the chain until it is closed. -/
def openModule (workspace : Workspace) (library : Library) (name : String) (place : Location) :
    Build (List Token) :=
  if isRelative name then (.error ⟨.relativeImport name, some place⟩, workspace)
  else if name ∈ workspace.chain then
    (.error ⟨.importCycle workspace.chain name, some place⟩, workspace)
  else
    match library.load name with
    | .error error => (.error ⟨.moduleNotLoaded name error.text, some place⟩, workspace)
    | .ok found =>
      let (file, enlisted) := workspace.enlist found.path found.text
      match enlisted.tokens file with
      | .error failure => (.error failure, enlisted)
      | .ok tokens => (.ok tokens, { enlisted with chain := enlisted.chain ++ [name] })

end Workspace

end TapeMachine
