import TapeMachine.CommandLine.Options
import TapeMachine.Diagnostic
import TapeMachine.Library.Bundled
import TapeMachine.Run
import TapeMachine.Tape.Listing
import TapeMachine.Typing

namespace TapeMachine

/-- The end of a command: the exit code, and what is to be written before it. -/
structure Ending where
  code : Nat
  output : String := ""
  errors : String := ""
  deriving DecidableEq, Inhabited

/-- What a command finds where it is called: the files, and the directory that the environment names for
the library. -/
structure Surroundings where
  tree : FileTree
  std : Option String := none

namespace Options

/-- The library: an option comes before the environment, and that before the bundled modules. -/
def library (options : Options) (surroundings : Surroundings) : Library :=
  match options.std.or surroundings.std with
  | some path => .directory surroundings.tree path
  | none => .bundled

def settings (options : Options) (surroundings : Surroundings) : Settings where
  library := options.library surroundings
  splice := !options.has .lazyImports
  capacity := options.heap.getD 300000

/-- The listing that is asked for. -/
def listing (options : Options) (sources : Sources) (tape : Tape) : String :=
  match sources.find? options.file with
  | some file => if options.has .dumpMain then tape.listingOnly file else tape.listing
  | none => tape.listing

end Options

/-- A program that is being run from the command line. -/
structure Job where
  settings : Settings
  coloured : Bool
  run : Run
  workspace : Workspace

/-- What a job wants next. -/
inductive Demand
  | write (text : String)
  | ask (prompt : String)
  | warn (text : String)
  | proceed
  | exit (ending : Ending)

namespace Job

/-- How many turns a slice has. -/
def cycles : Nat := 5000

def versionText : String := "tape 0.3.0\n"

def usageText : String := "Usage: tape [OPTIONS] <FILE>\n"

def helpText : String :=
"Check and run a tape program

Usage: tape [OPTIONS] <FILE>

Arguments:
  <FILE>  Program to run

Options:
      --std <STD>     Standard library directory [default: $TAPE_STD or the bundled std]
      --heap <HEAP>   Heap size in slots
      --lazy-imports  Resolve imports when reached instead of splicing them in
      --dump          Print the associated tape and exit
      --dump-main     Like --dump, but only instructions from the program file itself
      --no-check      Skip the stack-effect check
      --no-color      Plain diagnostics
  -h, --help          Print help
  -V, --version       Print version
"

/-- What is said where there is nothing to run. -/
def refuse : Refusal → Ending
  | .help => { code := 0, output := helpText }
  | .version => { code := 0, output := versionText }
  | .misuse => { code := 2, errors := usageText }

/-- A failure ends the command. -/
def fatal (workspace : Workspace) (failure : Failure) (coloured : Bool) : Ending where
  code := 1
  errors := failure.render workspace.sources coloured

/-- Compile and check the program whose text is given. -/
def prepare (options : Options) (surroundings : Surroundings) (text : String) : Except Ending Job :=
  let settings := options.settings surroundings
  match settings.compile options.file text {} with
  | (.error failure, workspace) => .error (fatal workspace failure options.coloured)
  | (.ok items, workspace) =>
    let tape := Tape.ofItems items
    if options.has .dump || options.has .dumpMain then
      .error { code := 0, output := options.listing workspace.sources tape }
    else
      let job := fun workspace => ⟨settings, options.coloured, .start settings tape, workspace⟩
      if options.has .noCheck then .ok (job workspace)
      else
        match settings.check items workspace with
        | (.error failure, workspace) => .error (fatal workspace failure options.coloured)
        | (.ok _, workspace) => .ok (job workspace)

/-- Read the program that arguments name, and prepare it. -/
def launch (arguments : List String) (surroundings : Surroundings) : Except Ending Job :=
  match Options.ofArguments arguments with
  | .error refusal => .error (refuse refusal)
  | .ok options =>
    match surroundings.tree.read options.file with
    | .error error => .error { code := 1, errors := error.text ++ "\n" }
    | .ok text => prepare options surroundings text

/-- What is said of regions that nobody has given back. -/
def leakWarning (regions slots : Nat) : String :=
  s!"warning: memory leak: {regions} region(s), {slots} slot(s) still allocated"

/-- Execute a slice, and say what it asks for. -/
def next (job : Job) : Demand × Job :=
  let (event, run, workspace) := job.run.execute job.settings cycles job.workspace
  let demand := match event with
    | .running => .proceed
    | .print text => .write text
    | .input prompt => .ask prompt
    | .leak regions slots =>
      .warn (Paint.yellow.applyIf job.coloured (leakWarning regions slots) ++ "\n")
    | .error failure => .exit (fatal workspace failure job.coloured)
    | .stopped => .exit { code := 0 }
  (demand, { job with run, workspace })

/-- Answer a demand for a line: with the line, or with nothing where input has ended. -/
def answer (job : Job) (line : Option String) : Job :=
  match line with
  | some line => { job with run := job.run.enter line }
  | none => { job with run := job.run.closeInput }

end Job

end TapeMachine
