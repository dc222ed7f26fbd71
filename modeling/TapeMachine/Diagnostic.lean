import TapeMachine.Fault
import TapeMachine.Text.Blank

namespace TapeMachine

/-- A failure as readers see it: its kind, its place and its words. -/
structure Diagnostic where
  code : Code
  place : Option Location
  text : String

def Failure.diagnostic (failure : Failure) : Diagnostic where
  code := failure.cause.code
  place := failure.place
  text := failure.cause.text

/-- A colour as a terminal's escape sequence selects it. -/
structure Paint where
  selector : String

namespace Paint

def red : Paint := ⟨"31"⟩

def yellow : Paint := ⟨"33"⟩

def gray : Paint := ⟨"38;5;8"⟩

def apply (paint : Paint) (text : String) : String :=
  "\x1b[" ++ paint.selector ++ "m" ++ text ++ "\x1b[0m"

/-- Painted text, or the text itself where colours are off. -/
def applyIf (coloured : Bool) (paint : Paint) (text : String) : String :=
  if coloured then paint.apply text else text

end Paint

/-- A line of a text with the offset of its first byte. It keeps its line ending. -/
structure Line where
  start : Nat
  chars : List Char

/-- The lines from `offset` on. The line that `offset` stands in began at `start`, what has been read
of it is latest first, and so are the lines before it. -/
def linesFrom : (start offset : Nat) → (read : List Char) → (found : List Line) → List Char →
    List Line
  | start, _, read, found, [] =>
    (if read.isEmpty then found else ⟨start, read.reverse⟩ :: found).reverse
  | start, offset, read, found, c :: rest =>
    if c = '\n' then
      linesFrom (offset + c.utf8Size) (offset + c.utf8Size) []
        (⟨start, (c :: read).reverse⟩ :: found) rest
    else linesFrom start (offset + c.utf8Size) (c :: read) found rest

/-- The lines of a text. A newline belongs to the line it ends. -/
def linesOf (text : String) : List Line :=
  linesFrom 0 0 [] [] text.toList

namespace Line

def size (line : Line) : Nat :=
  line.chars.foldl (fun size c => size + c.utf8Size) 0

/-- Does the line share a byte with `place`, where an empty place counts as one byte long? -/
def meets (line : Line) (place : Location) : Bool :=
  place.start < line.start + line.size && line.start < max place.stop (place.start + 1)

/-- The characters of a line without its ending; those inside `place` stand out where colours are
on. -/
def render (line : Line) (place : Location) (coloured : Bool) : String :=
  let painted := (chomp line.chars).foldl (fun (out, offset) c =>
    let paint := if place.contains offset then Paint.yellow else Paint.gray
    (out ++ paint.applyIf coloured c.toString, offset + c.utf8Size)) ("", line.start)
  "| " ++ painted.1 ++ "\n"

end Line

namespace Diagnostic

/-- Name a place. A diagnostic that has one keeps it, so the innermost place is the one reported. -/
def locate (diagnostic : Diagnostic) (place : Location) : Diagnostic :=
  { diagnostic with place := diagnostic.place.or (some place) }

/-- The lines of `text` that `place` touches. -/
def excerpt (text : String) (place : Location) (coloured : Bool) : String :=
  String.join (((linesOf text).filter (·.meets place)).map (·.render place coloured))

def headline (diagnostic : Diagnostic) : String :=
  diagnostic.code.label ++ (if diagnostic.text.isEmpty then "" else "; " ++ diagnostic.text)

/-- Where a place is, as file, line and column, and the lines it covers. -/
def whereabouts (sources : Sources) (place : Location) (coloured : Bool) : String :=
  match sources.get? place.file with
  | some file =>
    let (line, column) := file.lineColumn place.start
    s!"at: {file.name}:{line}:{column}\n" ++ excerpt file.text place coloured
  | none => ""

/-- The report of a failure for its reader. -/
def render (sources : Sources) (diagnostic : Diagnostic) (coloured : Bool) : String :=
  Paint.red.applyIf coloured "error: " ++ diagnostic.headline ++ "\n" ++
    match diagnostic.place with
    | some place => whereabouts sources place coloured
    | none => ""

/-- The failure in one line, with the bytes it covers. -/
def summary (diagnostic : Diagnostic) : String :=
  diagnostic.code.label ++
    (match diagnostic.place with
      | some place => s!" at {place.start}..{place.stop}"
      | none => "") ++
    (if diagnostic.text.isEmpty then "" else "; " ++ diagnostic.text)

/-- The summary as it shows inside other values. -/
def debug (diagnostic : Diagnostic) : String :=
  "Error \x7b " ++ diagnostic.summary ++ " \x7d"

end Diagnostic

/-- The report of a failure against the files of `sources`. -/
def Failure.render (sources : Sources) (failure : Failure) (coloured : Bool) : String :=
  failure.diagnostic.render sources coloured

end TapeMachine
