/-
This module holds configurations: the settings that conditions test, the spelling of registers,
and the layout of the host's data.

Exactly one of the settings named for the architectures is true, so a configuration holds that
architecture itself and the other settings beside it.
-/
import MacroAssembler.Register
import MacroAssembler.Text.Lowercase

namespace MacroAssembler

/-! ### Defines -/

def falseWords : List String := ["0", "false", "no", "off"]

def trueWords : List String := ["1", "true", "yes", "on"]

/-- The number that the value of a define writes: hexadecimal after a dollar sign or `0x`, and
decimal otherwise. -/
def defineNumber? (written : String) : Option Int :=
  match written.toList with
  | '$' :: digits => Text.readInteger? .hexadecimal (String.ofList digits)
  | '0' :: 'x' :: digits => Text.readInteger? .hexadecimal (String.ofList digits)
  | '0' :: 'X' :: digits => Text.readInteger? .hexadecimal (String.ofList digits)
  | _ => Text.readInteger? .decimal written

def defineValue? (written : String) : Option Bool :=
  let word := Text.lowercase written
  if falseWords.contains word then some false
  else if trueWords.contains word then some true
  else (defineNumber? written).map fun number => decide (number ≠ 0)

def parseDefine (define : String) : Checked (String × Bool) :=
  let characters := define.toList
  let name := Text.strip (String.ofList (characters.takeWhile (· ≠ '=')))
  match characters.dropWhile (· ≠ '=') with
  | [] => if name = "" then report .emptyDefine else .ok (name, true)
  | _ :: value =>
    if name = "" then report (.invalidDefine define)
    else
      match defineValue? (Text.strip (String.ofList value)) with
      | some truth => .ok (name, truth)
      | none => report (.invalidDefineValue define)

/-! ### Configurations -/

structure Configuration where
  architecture : Architecture
  features : List (String × Bool)
  registerNames : RegisterTable
  layout : List (String × Int)
deriving Inhabited

namespace Configuration

/-- Settings that are defined even if nothing sets them. -/
def defaultFeatures : List (String × Bool) := [("ASSERT_ENABLED", false)]

def architectureFlags (selected : Architecture → Bool) : List (String × Bool) :=
  Architecture.all.map fun architecture => (architecture.name, selected architecture)

def ofFlags (flags : List (String × Bool)) (registerNames : RegisterTable)
    (layout : List (String × Int)) : Checked Configuration :=
  let isSelected := fun (architecture : Architecture) =>
    (Association.get? flags architecture.name).getD false
  match Architecture.all.filter isSelected with
  | [architecture] =>
    let features := flags.filter fun flag => (Architecture.ofName? flag.1).isNone
    .ok ⟨architecture, Association.update defaultFeatures features, registerNames, layout⟩
  | selected => report (.architectureCount (selected.map Architecture.name))

/-- The parameters of a configuration that no setting can be named after, besides the layout. -/
def reservedNames : List String := ["cls", "name"]

def requireUnreserved (features : List (String × Bool)) : Checked Unit :=
  if Association.holds features "layout" then
    refuse (.repeatedKeyword "offlineasm.settings.Configuration.for_backend" "layout")
  else
    match (Association.keys features).find? reservedNames.contains with
    | some taken => refuse (.repeatedParameter "Configuration.for_backend" taken)
    | none => .ok ()

/-- A configuration for the named backend, with its register table and some settings. -/
def forBackend (name : String) (layout : List (String × Int)) (features : List (String × Bool)) :
    Checked Configuration := do
  requireUnreserved features
  let architecture ← Architecture.ofBackendName name
  let selected := architectureFlags fun other => decide (other = architecture)
  ofFlags (Association.update selected features) (RegisterTable.ofArchitecture architecture) layout

def ofDefines (backend : String) (defines : List String) (layout : List (String × Int)) :
    Checked Configuration := do
  let features ← defines.mapM parseDefine
  forBackend backend layout (Association.update [] features)

def commaParts (text : String) : List String := text.splitOn ","

/-- A configuration from the environment: the backend, ARM64 if it is absent or empty, and
defines between commas, of which blank ones are left out. -/
def ofEnvironment (environment : List (String × String)) : Checked Configuration :=
  let backend := (Association.get? environment "OFFLINEASM_BACKEND").getD ""
  let defines := (Association.get? environment "OFFLINEASM_DEFINES").getD ""
  ofDefines (if backend = "" then "ARM64" else backend)
    ((commaParts defines).filter fun define => decide (Text.strip define ≠ "")) []

def flags (config : Configuration) : List (String × Bool) :=
  (architectureFlags fun architecture => decide (architecture = config.architecture)) ++
    config.features

/-- A configuration with some settings changed. The spelling of registers stays. -/
def withFlags (config : Configuration) (changes : List (String × Bool)) :
    Checked Configuration :=
  if Association.holds changes "self" then
    refuse (.repeatedParameter "Configuration.with_flags" "self")
  else ofFlags (Association.update config.flags changes) config.registerNames
    config.layout

def withLayout (config : Configuration) (changes : List (String × Int)) : Configuration :=
  { config with layout := Association.update config.layout changes }

/-! ### Questions -/

def setting? (config : Configuration) (name : String) : Option Bool :=
  match Architecture.ofName? name with
  | some architecture => some (decide (architecture = config.architecture))
  | none => Association.get? config.features name

def isDefined (config : Configuration) (name : String) : Bool :=
  (config.setting? name).isSome

def isSet (config : Configuration) (name : String) (origin : Option Origin) :
    Checked Bool :=
  match config.setting? name with
  | some value => .ok value
  | none => report (.undefinedSetting name) origin

/-- The spelling of a register. Without a table entry it is spelled by its own name in host code,
and not at all in assembly. -/
def registerName? (config : Configuration) (name : String) : Option String :=
  match Association.get? config.registerNames name with
  | some spelling => some spelling
  | none => if config.architecture.emitsHostCode then some name else none

def layoutValue? (config : Configuration) (key : String) : Option Int :=
  Association.get? config.layout key

/-- The settings that are true besides the architecture, in alphabetical order. -/
def enabledFeatures (config : Configuration) : List String :=
  (Association.keys (config.features.filter (·.2))).mergeSort fun left right =>
    decide (left ≤ right)

def describe (config : Configuration) : String :=
  let enabled := config.enabledFeatures
  if enabled.isEmpty then config.architecture.name
  else config.architecture.name ++ " [" ++ ", ".intercalate enabled ++ "]"

end Configuration

end MacroAssembler
