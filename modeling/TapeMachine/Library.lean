import TapeMachine.Dictionary
import TapeMachine.FileTree

namespace TapeMachine

/-- A module as it was found: the path under which it is reported, and its text. -/
structure ModuleText where
  path : String
  text : String
  deriving DecidableEq

/-- Why a module could not be loaded. -/
inductive LoadError
  | noModule (name : String)
  | noDirectory (path : String)
  | badPath (error : PathError)
  deriving DecidableEq

def LoadError.text : LoadError → String
  | noModule name => s!"no module named {name}"
  | noDirectory path => s!"{path} isn't a directory"
  | badPath error => error.text

/-- Where modules come from: a table by name, or a directory of files. -/
inductive Library
  | memory (modules : Dictionary String)
  | directory (tree : FileTree) (path : String)

namespace Library

/-- The file ending that a module's name may leave out. -/
def ending : String := ".tape"

/-- Find the module `name`. In a directory a file of exactly this name comes before the one with the
usual ending. -/
def load (library : Library) (name : String) : Except LoadError ModuleText :=
  match library with
  | memory modules =>
    match modules.get? name with
    | some text => .ok ⟨name, text⟩
    | none => .error (.noModule name)
  | directory tree path =>
    if !tree.isDirectory path then .error (.noDirectory path)
    else
      let exact := FileTree.join path name
      let found := if tree.isFile exact then exact else FileTree.join path (name ++ ending)
      match tree.read found with
      | .ok text => .ok ⟨found, text⟩
      | .error error => .error (.badPath error)

/-- A file's name, and what is left of it without the usual ending. -/
def spellings (file : String) : List String :=
  let short := file.toList.length - ending.toList.length
  if file.toList.drop short == ending.toList then [file, String.ofList (file.toList.take short)]
  else [file]

/-- The plain names under which modules can be found. -/
def names : Library → List String
  | memory modules => modules.entries.map Prod.fst
  | directory tree _ => tree.files.flatMap fun file => (file.1.getLast?.map spellings).getD []

end Library

end TapeMachine
