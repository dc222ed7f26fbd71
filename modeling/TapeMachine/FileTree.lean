namespace TapeMachine

/-- A path that leads nowhere, or not where it should. -/
inductive PathError
  | missing
  | notADirectory
  | isADirectory
  | nameTooLong
  | hasNul
  deriving DecidableEq, Repr

def PathError.text : PathError → String
  | missing => "No such file or directory (os error 2)"
  | notADirectory => "Not a directory (os error 20)"
  | isADirectory => "Is a directory (os error 21)"
  | nameTooLong => "File name too long (os error 36)"
  | hasNul => "file name contained an unexpected NUL byte"

/-- What stands at a path. -/
inductive Entry
  | file (text : String)
  | directory
  deriving DecidableEq

/-- `text` cut at each `separator`. -/
def cut (separator : Char) : List Char → List (List Char)
  | [] => [[]]
  | c :: rest =>
    match cut separator rest with
    | [] => [[c]]
    | first :: others => if c = separator then [] :: first :: others else (c :: first) :: others

/-- The files that can be read, each under the names that lead to it from the root, and the directory
`top` that paths start from unless they start at the root. A directory is there if it is listed, or if a
file or a listed directory is below it; so are the root and `top`. -/
structure FileTree where
  top : List String := []
  directories : List (List String) := []
  files : List (List String × String) := []

namespace FileTree

/-- The names that a path is made of. -/
def names (path : String) : List String :=
  (cut '/' path.toList).map String.ofList

def isAbsolute (path : String) : Bool :=
  path.toList.head? == some '/'

/-- The directory in which a path starts. -/
def origin (tree : FileTree) (path : String) : List String :=
  if isAbsolute path then [] else tree.top

/-- The names that lead to a path from the root, for a path that does not go upwards. -/
def resolve (tree : FileTree) (path : String) : List String :=
  tree.origin path ++ (names path).filter fun name => name ≠ "" && name ≠ "."

/-- The tree with one more file. -/
def add (tree : FileTree) (path text : String) : FileTree :=
  { tree with files := tree.files ++ [(tree.resolve path, text)] }

/-- The tree with one more directory. -/
def addDirectory (tree : FileTree) (path : String) : FileTree :=
  { tree with directories := tree.directories ++ [tree.resolve path] }

def addAll (tree : FileTree) (files : List (String × String)) : FileTree :=
  files.foldl (fun result file => result.add file.1 file.2) tree

/-- The entry under exactly these names. -/
def entry? (tree : FileTree) (path : List String) : Option Entry :=
  match tree.files.find? fun file => file.1 == path with
  | some file => some (.file file.2)
  | none =>
    let known := tree.top :: tree.directories ++ tree.files.map Prod.fst
    if known.any fun other => path.isPrefixOf other then some .directory else none

/-- How many bytes a name may have. -/
def nameLimit : Nat := 255

/-- How many bytes a path may have. -/
def pathLimit : Nat := 4095

/-- Follow names from the directory `here`. What a path goes through must be a directory. -/
def walk (tree : FileTree) (here : List String) : List String → Except PathError Entry
  | [] => .ok .directory
  | name :: rest =>
    if name = "" || name = "." then walk tree here rest
    else if name = ".." then walk tree here.dropLast rest
    else if nameLimit < name.utf8ByteSize then .error .nameTooLong
    else
      match tree.entry? (here ++ [name]) with
      | none => .error .missing
      | some .directory => walk tree (here ++ [name]) rest
      | some (.file text) => if rest.isEmpty then .ok (.file text) else .error .notADirectory

/-- What stands at a path. -/
def find (tree : FileTree) (path : String) : Except PathError Entry :=
  if path.toList.any (·.toNat == 0) then .error .hasNul
  else if path.isEmpty then .error .missing
  else if pathLimit < path.utf8ByteSize then .error .nameTooLong
  else tree.walk (tree.origin path) (names path)

def isDirectory (tree : FileTree) (path : String) : Bool :=
  match tree.find path with
  | .ok .directory => true
  | _ => false

def isFile (tree : FileTree) (path : String) : Bool :=
  match tree.find path with
  | .ok (.file _) => true
  | _ => false

/-- The text of the file at a path. -/
def read (tree : FileTree) (path : String) : Except PathError String :=
  match tree.find path with
  | .ok (.file text) => .ok text
  | .ok .directory => .error .isADirectory
  | .error error => .error error

/-- The path of `name` inside `directory`. A name that starts at the root stays as it is. -/
def join (directory name : String) : String :=
  if isAbsolute name || directory.isEmpty then name
  else if directory.toList.getLast? == some '/' then directory ++ name
  else directory ++ "/" ++ name

end FileTree

end TapeMachine
