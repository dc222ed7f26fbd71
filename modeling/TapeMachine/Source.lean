namespace TapeMachine

/-- The bytes from `start` up to `stop` of a file, which is given by its place in the table. -/
structure Location where
  file : Nat
  start : Nat
  stop : Nat
  deriving DecidableEq, Repr, Inhabited

/-- The least location of the same file that covers both. -/
def Location.cover (a b : Location) : Location where
  file := a.file
  start := min a.start b.start
  stop := max a.stop b.stop

def Location.contains (place : Location) (offset : Nat) : Bool :=
  place.start ≤ offset && offset < place.stop

structure SourceFile where
  name : String
  text : String
  deriving DecidableEq, Inhabited

/-- Line and column of the character that starts `offset` bytes into `text`, if `text` itself starts
at the given line and column. -/
def lineColumnFrom : (line column : Nat) → (text : List Char) → (offset : Nat) → Nat × Nat
  | line, column, [], _ => (line, column)
  | line, column, c :: rest, offset =>
    if offset = 0 then (line, column)
    else if c = '\n' then lineColumnFrom (line + 1) 1 rest (offset - c.utf8Size)
    else lineColumnFrom line (column + 1) rest (offset - c.utf8Size)

/-- Line and column of a byte offset, both counted from 1, columns in characters. -/
def SourceFile.lineColumn (file : SourceFile) (offset : Nat) : Nat × Nat :=
  lineColumnFrom 1 1 file.text.toList offset

/-- The files that took part in a build, in the order in which they were read. -/
structure Sources where
  files : List SourceFile := []
  deriving DecidableEq, Inhabited

namespace Sources

def size (sources : Sources) : Nat :=
  sources.files.length

def get? (sources : Sources) (file : Nat) : Option SourceFile :=
  sources.files[file]?

/-- The table with one more file, which gets the next number. -/
def add (sources : Sources) (name text : String) : Sources where
  files := sources.files ++ [⟨name, text⟩]

/-- The number of the first file of this name. -/
def find? (sources : Sources) (name : String) : Option Nat :=
  sources.files.findIdx? fun file => file.name == name

theorem get?_add_size (sources : Sources) (name text : String) :
    (sources.add name text).get? sources.size = some ⟨name, text⟩ := by
  simp [add, get?, size]

end Sources

end TapeMachine
