/-
This module is the program of the command line as a function: from the files around it and its
arguments to what it prints and writes.

What it says on the way goes to the error output in the order in which it happens, and a failure is
the last thing said. A failure of the unit ends with exit code 1, one of the arguments, the
configuration or the files with exit code 2, and any other with exit code 3.
-/
import MacroAssembler.CommandLine.Arguments
import MacroAssembler.Compilation
import MacroAssembler.Document.Reader
import MacroAssembler.Text.ControlSequence

namespace MacroAssembler.CommandLine

/-! ### Outcomes -/

/-- A text for a file. -/
structure Written where
  path : String
  content : String
deriving DecidableEq, Repr

structure Outcome where
  exitCode : Nat := 0
  output : String := ""
  errors : String := ""
  written : Option Written := none
deriving DecidableEq, Repr

/-- The text of lines for the error output, where halves of pairs are spelled. -/
def linesText (lines : List String) : String :=
  Text.carried (Text.released (String.join (lines.map (· ++ "\n"))))

inductive Trouble
  | step (failure : Failure)
  | layoutNotAnObject (path : String)
  | layoutNotAnInteger (path key : String)
  | file (path : String) (problem : FileProblem)
  | unencodable (halves : Text.HalfRun)
deriving DecidableEq, Repr

namespace Trouble

def verdict : Trouble → Nat × String
  | .step (.diagnostic problem) =>
    match problem.kind with
    | .configuration | .undefinedSetting => (2, "Configuration error: " ++ problem.message)
    | .general => (1, "Error: " ++ problem.message)
    | _ => (1, problem.message)
  | .step (.fault fault) =>
    if fault.kind = .unreadable then (2, "Error: " ++ fault.message)
    else (3, "Internal error: " ++ fault.message)
  | .layoutNotAnObject path => (2, "Error: " ++ path ++ ": expected a JSON object")
  | .layoutNotAnInteger path key =>
    (2, "Error: " ++ path ++ ": value of '" ++ key ++ "' is not an integer")
  | .file path .missing => (2, "Error: " ++ FileProblem.missing.message path)
  | .file path problem => (3, "Internal error: " ++ problem.message path)
  | .unencodable halves => (3, "Internal error: " ++ halves.message)

def outcome (trouble : Trouble) (said : List String) : Outcome :=
  let (exitCode, line) := trouble.verdict
  { exitCode := exitCode, errors := linesText (said ++ [Text.plain line]) }

end Trouble

/-! ### Files -/

def readFile (surroundings : Surroundings) (path : String) : Except Trouble String :=
  match surroundings.look path with
  | .ok (.file content) => .ok content
  | .ok .directory => .error (.file path .directory)
  | .error problem => .error (.file path problem)

def readDocument (surroundings : Surroundings) (path : String) : Except Trouble Value := do
  let content ← readFile surroundings path
  match Value.read (String.ofList (Text.unifyLineEnds content.toList)) with
  | .ok document => return document
  | .error message => .error (.step (.fault (.unreadable message)))

def layoutConstant (path : String) : String × Value → Except Trouble (String × Int)
  | (key, .integer value) => .ok (key, value)
  | (key, _) => .error (.layoutNotAnInteger path key)

def readLayout (surroundings : Surroundings) (path : String) :
    Except Trouble (List (String × Int)) := do
  match ← readDocument surroundings path with
  | .object fields => fields.mapM (layoutConstant (Path.shown path))
  | _ => .error (.layoutNotAnObject (Path.shown path))

def readConfiguration (surroundings : Surroundings) (settings : Settings) :
    Except Trouble Configuration := do
  let layout ← match settings.layout with
    | some path => readLayout surroundings path
    | none => pure []
  match Configuration.ofDefines settings.backend settings.defines layout with
  | .ok configuration => return configuration
  | .error failure => .error (.step failure)

def outputProblem? (surroundings : Surroundings) (path : String) : Option FileProblem :=
  match surroundings.look path with
  | .ok .directory => some .directory
  | .ok (.file _) => none
  | .error .missing =>
    match surroundings.look (Path.parent path) with
    | .ok .directory => none
    | .ok (.file _) => some .belowFile
    | .error problem => some problem
  | .error problem => some problem

/-! ### Compiling -/

/-- A run of the passes, with what was said on the way. -/
structure Desk where
  run : Compilation
  verbose : Bool
  said : List String

def say (line : String) : Action Desk Unit :=
  modify fun desk => { desk with said := desk.said ++ [Text.plain line] }

def sayIfVerbose (line : String) : Action Desk Unit := do
  if (← get).verbose then say line

/-- The line for a notice, if it has one. Warnings are always told. -/
def noticeLine? (verbose : Bool) (notice : Notice) : Option String :=
  if verbose then some (notice.channel ++ ": " ++ notice.message)
  else if notice.isWarning then some notice.message
  else none

/-- Do a step of the run and tell the notices that it leaves, also when it fails. -/
def narrated {α : Type} (step : Compilation.Run α) : Action Desk α :=
  Action.ofFunction fun desk =>
    let (outcome, run) := step.perform desk.run
    let fresh := run.notices.drop desk.run.notices.length
    (outcome,
      { desk with run := run, said := desk.said ++ fresh.filterMap (noticeLine? desk.verbose) })

def listed (words : List String) : String :=
  if words.isEmpty then "none" else ", ".intercalate words

def describeUnit (tree : Node) : Action Desk Unit := do
  say ("Settings used: " ++ listed (← tree.settingsUsed))
  let constants ← tree.layoutConstantsUsed
  say ("Layout constants used: " ++ listed (constants.map Node.layoutText))

/-- Compile a document. The result is the text to deliver. -/
def compileDocument (settings : Settings) (document : Value) : Action Desk String := do
  let tree ← narrated (Compilation.load document (Path.fileName settings.unit))
  if settings.verbose then describeUnit tree
  let _ ← narrated Compilation.fold
  let expanded ← narrated Compilation.expand
  if settings.dumpTree then
    let dumped ← expanded.dump
    return dumped ++ "\n"
  else
    let _ ← narrated Compilation.lower
    let emission ← narrated Compilation.emit
    if settings.listExterns then
      emission.externLabels.forM fun name => say ("extern " ++ name)
    return emission.text

/-- Deliver a text to the output file, or print it, after some lines were said. A text that cannot
be encoded leaves the output file empty. -/
def deliver (surroundings : Surroundings) (settings : Settings) (text : String)
    (said : List String) : Outcome :=
  match settings.output with
  | none =>
    let printed := Text.plain text
    match Text.encodingProblem? printed with
    | some halves => (Trouble.unencodable halves).outcome said
    | none => { output := printed, errors := linesText said }
  | some output =>
    let path := Path.shown output
    match outputProblem? surroundings path, Text.encodingProblem? text with
    | some problem, _ => (Trouble.file path problem).outcome said
    | none, some halves =>
      { (Trouble.unencodable halves).outcome said with written := some ⟨path, ""⟩ }
    | none, none =>
      let report := "Wrote " ++ Text.decimal (Text.lineCount text) ++ " lines to " ++ path
      { errors := linesText (said ++ if settings.verbose then [Text.plain report] else [])
        written := some ⟨path, text⟩ }

def compileUnit (surroundings : Surroundings) (settings : Settings) : Outcome :=
  match readConfiguration surroundings settings with
  | .error trouble => trouble.outcome []
  | .ok configuration =>
    let opening :=
      if settings.verbose then
        [Text.plain ("Configuration: " ++ configuration.describe),
         Text.plain ("Compiling " ++ Path.shown settings.unit ++ "...")]
      else []
    match readDocument surroundings settings.unit with
    | .error trouble => trouble.outcome opening
    | .ok document =>
      let run := Compilation.start configuration .empty settings.includePrelude
      let (outcome, desk) :=
        (compileDocument settings document).perform ⟨run, settings.verbose, opening⟩
      match outcome with
      | .error failure => (Trouble.step failure).outcome desk.said
      | .ok text => deliver surroundings settings text desk.said

/-! ### The program -/

def versionText : String := "oasm, version 1.0.0\n"

def usageLine : String := "Usage: oasm [OPTIONS] INPUT_FILE\n"

def helpText : String :=
  usageLine ++ "
  Compile a parsed offline macro-assembly unit.

  INPUT_FILE is the JSON interchange document produced by the parser.

  Examples:
      oasm unit.json                   # ARM64 to stdout
      oasm -b X86_64 unit.json -o u.h  # Specify backend and output
      oasm -D ASSERT_ENABLED unit.json # Enable the debug trailer

Options:
  -b, --backend TEXT        Target backend: ARM64, ARM64E, X86_64, RISCV64,
                            ARMv7 or C_LOOP  [default: ARM64]
  -D, --define TEXT         Define setting (format: NAME or NAME=VALUE, can be
                            repeated)
  -o, --output FILE         Output file (default: stdout)
  --layout FILE             JSON file of host layout constants
  --prelude / --no-prelude  Provide the narrow/wide16/wide32/commonOp/op
                            macros when the unit does not
  --externs                 List labels referenced but not defined in the unit
                            (on stderr)
  --dump                    Print the folded and expanded tree instead of
                            emitting code
  -v, --verbose             Verbose output
  --version                 Show the version and exit.
  --help                    Show this message and exit.
"

def UsageProblem.outcome (problem : UsageProblem) : Outcome :=
  let usage := if problem.showsUsage then usageLine ++ "Try 'oasm --help' for help.\n\n" else ""
  { exitCode := 2, errors := usage ++ linesText [Text.plain ("Error: " ++ problem.message)] }

def run (surroundings : Surroundings) (arguments : List String) : Outcome :=
  match readCommand surroundings arguments with
  | .error problem => problem.outcome
  | .ok .showVersion => { output := versionText }
  | .ok .showHelp => { output := helpText }
  | .ok (.compile settings) => compileUnit surroundings settings

/-! ### What is looked up -/

def pathsOfInterest (arguments : List String) : List String :=
  match readArguments arguments with
  | .error _ => []
  | .ok (given, others) =>
    let settings := given.foldl Settings.add { unit := others.head?.getD "" }
    let outputs := match settings.output with
      | some path => [path, Path.shown path, Path.parent (Path.shown path)]
      | none => []
    settings.unit :: (settings.layout.toList ++ outputs)

end MacroAssembler.CommandLine
