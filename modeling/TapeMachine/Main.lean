import TapeMachine.CommandLine.Job

namespace TapeMachine

/-- Is there a directory at `path`? -/
def isDirectoryAt (path : String) : IO Bool := do
  try
    (← IO.FS.realPath path).isDir
  catch _ => return false

/-- The file or the directory at `path`, if there is one. -/
def readPath (tree : FileTree) (path : String) : IO FileTree := do
  try
    return tree.add path (← IO.FS.readFile path)
  catch _ =>
    if ← isDirectoryAt path then return tree.addDirectory path else return tree

/-- A directory with the files in it. -/
def readDirectory (tree : FileTree) (path : String) : IO FileTree := do
  let mut result ← readPath tree path
  if ← isDirectoryAt path then
    for entry in ← (← IO.FS.realPath path).readDir do
      result ← readPath result (FileTree.join path entry.fileName)
  return result

/-- The files that a command may read. -/
def gather (options : Options) (std : Option String) : IO FileTree := do
  let tree ← readPath {} options.file
  match options.std.or std with
  | some path => readDirectory tree path
  | none => return tree

/-- Write what an ending says. -/
def conclude (ending : Ending) : IO UInt32 := do
  IO.print ending.output
  IO.eprint ending.errors
  return ending.code.toUInt32

/-- Serve the demands of a job until it ends. -/
partial def serve (job : Job) : IO UInt32 := do
  let (demand, next) := job.next
  match demand with
  | .proceed => serve next
  | .write text =>
    IO.print text
    (← IO.getStdout).flush
    serve next
  | .warn text =>
    IO.eprint text
    serve next
  | .ask prompt =>
    IO.print prompt
    (← IO.getStdout).flush
    let line ← (← IO.getStdin).getLine
    serve (next.answer (if line.isEmpty then none else some line))
  | .exit ending => conclude ending

end TapeMachine

open TapeMachine in
/-- Run the program that the command line names. -/
def main (arguments : List String) : IO UInt32 := do
  let std ← IO.getEnv "TAPE_STD"
  let tree ← match Options.ofArguments arguments with
    | .ok options => gather options std
    | .error _ => pure {}
  match Job.launch arguments ⟨tree, std⟩ with
  | .ok job => serve job
  | .error ending => conclude ending
