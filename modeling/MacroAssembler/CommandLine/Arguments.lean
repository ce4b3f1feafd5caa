/-
This module reads the arguments of the command line.

Options and the unit to compile may come in any order, and of an option that is given twice the last
value counts, except that all defines are kept. Problems are found in this order: options that
cannot be read, then files that cannot be used in the order of their options and the unit last, then
arguments that are left over.
-/
import MacroAssembler.CommandLine.Files
import MacroAssembler.Text.Similarity

namespace MacroAssembler.CommandLine

/-! ### Options -/

inductive ValuedOption
  | backend
  | define
  | output
  | layout
deriving DecidableEq, Repr

/-- The options that have none. -/
inductive Switch
  | prelude (included : Bool)
  | externs
  | dump
  | verbose
  | version
  | help
deriving DecidableEq, Repr

inductive Choice
  | valued (option : ValuedOption)
  | switch (switch : Switch)
deriving DecidableEq, Repr

def longOptions : List (String × Choice) :=
  [("--backend", .valued .backend), ("--define", .valued .define), ("--output", .valued .output),
   ("--layout", .valued .layout), ("--prelude", .switch (.prelude true)),
   ("--no-prelude", .switch (.prelude false)), ("--externs", .switch .externs),
   ("--dump", .switch .dump), ("--verbose", .switch .verbose), ("--version", .switch .version),
   ("--help", .switch .help)]

def shortOption? : Char → Option Choice
  | 'b' => some (.valued .backend)
  | 'D' => some (.valued .define)
  | 'o' => some (.valued .output)
  | 'v' => some (.switch .verbose)
  | _ => none

def ValuedOption.hint : ValuedOption → String
  | .backend => "'-b' / '--backend'"
  | .define => "'-D' / '--define'"
  | .output => "'-o' / '--output'"
  | .layout => "'--layout'"

/-! ### Problems -/

inductive UsageProblem
  | noSuchOption (name : String) (similar : List String)
  | missingValue (name : String)
  | unexpectedValue (name : String)
  | missingUnit
  | missingFile (hint path : String)
  | directoryForFile (hint path : String)
  | leftOver (arguments : List String)
deriving DecidableEq, Repr

namespace UsageProblem

def message : UsageProblem → String
  | .noSuchOption name [] => "No such option: " ++ name
  | .noSuchOption name [similar] =>
    "No such option: " ++ name ++ " Did you mean " ++ similar ++ "?"
  | .noSuchOption name similar =>
    "No such option: " ++ name ++ " (Possible options: " ++ ", ".intercalate similar ++ ")"
  | .missingValue name => "Option " ++ Text.quoted name ++ " requires an argument."
  | .unexpectedValue name => "Option " ++ Text.quoted name ++ " does not take a value."
  | .missingUnit => "Missing argument 'INPUT_FILE'."
  | .missingFile hint path =>
    "Invalid value for " ++ hint ++ ": File " ++ Text.quoted path ++ " does not exist."
  | .directoryForFile hint path =>
    "Invalid value for " ++ hint ++ ": File " ++ Text.quoted path ++ " is a directory."
  | .leftOver [argument] => "Got unexpected extra argument (" ++ argument ++ ")"
  | .leftOver arguments =>
    "Got unexpected extra arguments (" ++ " ".intercalate arguments ++ ")"

def showsUsage : UsageProblem → Bool
  | .missingValue _ | .unexpectedValue _ => false
  | _ => true

end UsageProblem

/-! ### Reading -/

inductive Given
  | value (option : ValuedOption) (value : String)
  | switch (switch : Switch)
deriving DecidableEq, Repr

/-- The options of short names after one hyphen, and the option that still needs a value, with
its name. What follows the name of an option with a value is its value. -/
def readShortNames :
    List Char → Except UsageProblem (List Given × Option (ValuedOption × String))
  | [] => .ok ([], none)
  | c :: rest =>
    match shortOption? c with
    | none => .error (.noSuchOption (String.ofList ['-', c]) [])
    | some (.switch switch) => do
      let (others, pending) ← readShortNames rest
      return (.switch switch :: others, pending)
    | some (.valued option) =>
      if rest.isEmpty then .ok ([], some (option, String.ofList ['-', c]))
      else .ok ([.value option (String.ofList rest)], none)

def splitLongName (argument : String) : String × Option String :=
  let characters := argument.toList
  let name := String.ofList (characters.takeWhile (· ≠ '='))
  match characters.dropWhile (· ≠ '=') with
  | [] => (name, none)
  | _ :: value => (name, some (String.ofList value))

def isOption (argument : String) : Bool :=
  match argument.toList with
  | '-' :: _ :: _ => true
  | _ => false

def hasTwoHyphens (argument : String) : Bool :=
  match argument.toList with
  | '-' :: '-' :: _ => true
  | _ => false

/-- The options of one argument, and the option that still needs a value, with its name. -/
def readOption (argument : String) :
    Except UsageProblem (List Given × Option (ValuedOption × String)) :=
  let (name, explicit) := splitLongName argument
  match Association.get? longOptions name, explicit with
  | some (.valued option), some value => .ok ([.value option value], none)
  | some (.valued option), none => .ok ([], some (option, name))
  | some (.switch switch), none => .ok ([.switch switch], none)
  | some (.switch _), some _ => .error (.unexpectedValue name)
  | none, _ =>
    if hasTwoHyphens argument then
      .error (.noSuchOption name (Text.similarWords name (Association.keys longOptions)))
    else
      readShortNames (argument.toList.drop 1)

def readArguments : List String → Except UsageProblem (List Given × List String)
  | [] => .ok ([], [])
  | argument :: rest =>
    if argument = "--" then .ok ([], rest)
    else if !isOption argument then do
      let (given, others) ← readArguments rest
      return (given, argument :: others)
    else do
      let (given, pending) ← readOption argument
      match pending with
      | none =>
        let (later, others) ← readArguments rest
        return (given ++ later, others)
      | some (option, name) =>
        match rest with
        | [] => .error (.missingValue name)
        | value :: after =>
          let (later, others) ← readArguments after
          return (given ++ .value option value :: later, others)

/-! ### Meaning -/

structure Settings where
  unit : String
  backend : String := "ARM64"
  defines : List String := []
  output : Option String := none
  layout : Option String := none
  includePrelude : Bool := false
  listExterns : Bool := false
  dumpTree : Bool := false
  verbose : Bool := false
deriving DecidableEq, Repr

inductive Command
  | compile (settings : Settings)
  | showVersion
  | showHelp
deriving DecidableEq, Repr

def Settings.add (settings : Settings) : Given → Settings
  | .value .backend value => { settings with backend := value }
  | .value .define value => { settings with defines := settings.defines ++ [value] }
  | .value .output value => { settings with output := some value }
  | .value .layout value => { settings with layout := some value }
  | .switch (.prelude included) => { settings with includePrelude := included }
  | .switch .externs => { settings with listExterns := true }
  | .switch .dump => { settings with dumpTree := true }
  | .switch .verbose => { settings with verbose := true }
  | .switch .version => settings
  | .switch .help => settings

def immediateCommand? : Given → Option Command
  | .switch .version => some .showVersion
  | .switch .help => some .showHelp
  | _ => none

def requireFile (surroundings : Surroundings) (hint path : String) : Except UsageProblem Unit :=
  match surroundings.entry? path with
  | none => .error (.missingFile hint path)
  | some .directory => .error (.directoryForFile hint path)
  | some (.file _) => .ok ()

/-- The value of an option has to be usable. An output file need not be there yet. -/
def checkOption (surroundings : Surroundings) (settings : Settings) :
    Given → Except UsageProblem Unit
  | .value .output _ =>
    match settings.output with
    | some path =>
      match surroundings.entry? path with
      | some .directory => .error (.directoryForFile ValuedOption.output.hint path)
      | _ => .ok ()
    | none => .ok ()
  | .value .layout _ =>
    match settings.layout with
    | some path => requireFile surroundings ValuedOption.layout.hint path
    | none => .ok ()
  | _ => .ok ()

def readCommand (surroundings : Surroundings) (arguments : List String) :
    Except UsageProblem Command := do
  let (given, others) ← readArguments arguments
  match given.findSome? immediateCommand? with
  | some command => return command
  | none =>
    let settings := given.foldl Settings.add { unit := others.head?.getD "" }
    given.forM (checkOption surroundings settings)
    match others with
    | [] => .error .missingUnit
    | unit :: rest =>
      requireFile surroundings "'INPUT_FILE'" unit
      if rest.isEmpty then return .compile settings else .error (.leftOver rest)

end MacroAssembler.CommandLine
