import TapeMachine.Assembly

namespace TapeMachine

/-- How programs are put together and run. -/
structure Settings where
  library : Library
  /-- Do the items of a module take the place of its import, or is it run when it is reached? -/
  splice : Bool := true
  /-- How many slots the heap of a machine has. -/
  capacity : Nat := 300000

namespace Settings

/-- More modules than this cannot be nested in one another. -/
def depth (settings : Settings) : Nat :=
  settings.library.names.length + 1

def importer (settings : Settings) : Assembly.Importer :=
  if settings.splice then Assembly.spliceImports settings.library settings.depth
  else Assembly.keepImports

/-- The program that tokens spell. -/
def assemble (settings : Settings) (tokens : List Token) (workspace : Workspace) : Build (List Item) :=
  Assembly.run settings.importer {} tokens workspace

/-- The program in `text`, which becomes the next file of the table. -/
def compile (settings : Settings) (name text : String) (workspace : Workspace) :
    Build (List Item) :=
  let enlisted := { workspace with sources := workspace.sources.add name text }
  match Token.ofText workspace.sources.size text with
  | .error failure => (.error failure, enlisted)
  | .ok tokens => settings.assemble tokens enlisted

/-- The program of the module `name`. If there is one, the module stays on the chain until it is
closed. -/
def enterModule (settings : Settings) (name : String) (place : Location) (workspace : Workspace) :
    Build (List Item) :=
  (workspace.openModule settings.library name place).andThen fun tokens opened =>
    match settings.assemble tokens opened with
    | (.error failure, after) => (.error failure, after.close)
    | (.ok items, after) => (.ok items, after)

end Settings

end TapeMachine
