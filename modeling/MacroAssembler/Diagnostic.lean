/-
This module holds what can go wrong while a unit is configured, loaded and compiled.

The cause of a diagnostic alone decides its kind, its summary and its hint, so no two places word
one problem differently.
-/
import MacroAssembler.Origin

namespace MacroAssembler

inductive DiagnosticKind
  | general
  | configuration
  | undefinedSetting
  | compilation
  | malformedNode
  | nameResolution
  | undefinedMacro
  | macroArity
  | unboundVariable
  | expansion
  | labelDeclaration
  | emission
  | unhandledOpcode
  | stage
deriving DecidableEq, Repr

inductive Cause
  /- Configurations -/
  | unknownBackend (name : String) (known : List String)
  | emptyDefine
  | invalidDefine (define : String)
  | invalidDefineValue (define : String)
  | architectureCount (selected : List String)
  | undefinedSetting (name : String)
  /- Malformed nodes -/
  | notAnObject (typeName : String)
  | badOrigin (shown : String)
  | unknownKind (shown : String) (known : List String)
  | missingField (kind field : String)
  | fieldNotList (field : String)
  | badImmediate (shown : String)
  | unknownDeclaration (shown : String)
  | badBase (shown : String)
  | badOffset (shown : String)
  | badIndex (shown : String)
  | badScale (shown : String)
  | unusableScale (shown : String)
  | offsetNotLiteral (shown : String)
  | referenceToNonLabel (shown : String)
  | referenceToNonLocalLabel (shown : String)
  | callWithoutOperands (name : String)
  | constantOfNonVariable (shown : String)
  | predicateNotBoolean
  /- Names -/
  | undefinedMacro (name : String) (similar : Option String)
  | macroArity (name : String) (expected actual : Int)
  | unboundVariable (name : String)
  /- Macro expansion -/
  | macroRedefined (name first : String)
  | macroAsValue (name : String)
  | strayMacro
  | nestedMacro
  | notBoundToMacro (name : String)
  | expansionTooDeep (limit : Int)
  | cannotInterpolate (parameter : String)
  /- Label declarations -/
  | globalTwice (name first : String)
  | alignedTwice (name : String) (alignment : Int)
  /- Emission -/
  | noLayoutValue (key : String)
  | notAnImmediate (shown : String)
  | notMemory (shown : String)
  | expectsRegister (opcode shown : String)
  | expectsMemory (opcode shown : String)
  | expectsLabel (opcode shown : String)
  | operandCount (opcode : String) (expected : List Nat) (actual : Nat)
  | strayString
  | noSuchRegister (name backend : String)
  | unfoldedExpression
  | unfoldedConditional
  | unexpandedMacro (name : String)
  | unexpandedCall (name : String)
  | cannotAddress (backend shown : String)
  | absoluteUnsupported (backend : String)
  | indexedWithOffsetOrScale
  | indexedWithOffset
  | offsetTooWide (offset : Int)
  | unhandledOpcode (opcode backend : String)
  /- Stages -/
  | afterAbort (action : String)
  | outOfOrder (action stage required : String)
  /- Problems that a caller words itself -/
  | reported (kind : DiagnosticKind) (summary : String) (hint : Option String)
deriving DecidableEq, Repr

namespace Cause

def kind : Cause → DiagnosticKind
  | unknownBackend .. | emptyDefine | invalidDefine .. | invalidDefineValue ..
  | architectureCount .. => .configuration
  | undefinedSetting .. => .undefinedSetting
  | notAnObject .. | badOrigin .. | unknownKind .. | missingField .. | fieldNotList ..
  | badImmediate .. | unknownDeclaration .. | badBase .. | badOffset .. | badIndex ..
  | badScale .. | unusableScale .. | offsetNotLiteral .. | referenceToNonLabel ..
  | referenceToNonLocalLabel .. | callWithoutOperands .. | constantOfNonVariable ..
  | predicateNotBoolean => .malformedNode
  | undefinedMacro .. => .undefinedMacro
  | macroArity .. => .macroArity
  | unboundVariable .. => .unboundVariable
  | macroRedefined .. | macroAsValue .. | strayMacro | nestedMacro | notBoundToMacro ..
  | expansionTooDeep .. | cannotInterpolate .. => .expansion
  | globalTwice .. | alignedTwice .. => .labelDeclaration
  | noLayoutValue .. | notAnImmediate .. | notMemory .. | expectsRegister .. | expectsMemory ..
  | expectsLabel .. | operandCount .. | strayString | noSuchRegister .. | unfoldedExpression
  | unfoldedConditional | unexpandedMacro .. | unexpandedCall .. | cannotAddress ..
  | absoluteUnsupported .. | indexedWithOffsetOrScale | indexedWithOffset
  | offsetTooWide .. => .emission
  | unhandledOpcode .. => .unhandledOpcode
  | afterAbort .. | outOfOrder .. => .stage
  | reported kind .. => kind

def summary : Cause → String
  | unknownBackend name known =>
    "unknown backend '" ++ name ++ "' (expected one of " ++ ", ".intercalate known ++ ")"
  | emptyDefine => "empty define"
  | invalidDefine define => "invalid define '" ++ define ++ "'"
  | invalidDefineValue define => "invalid value in define '" ++ define ++ "'"
  | architectureCount selected =>
    "exactly one architecture flag must be set (got " ++
      (if selected.isEmpty then "none" else ", ".intercalate selected) ++ ")"
  | undefinedSetting name => "undefined setting '" ++ name ++ "'"
  | notAnObject typeName => "expected a node object, got " ++ typeName
  | badOrigin shown => "bad origin " ++ shown
  | unknownKind shown _ => "unknown node kind " ++ shown
  | missingField kind field => kind ++ " node is missing field '" ++ field ++ "'"
  | fieldNotList field => "field '" ++ field ++ "' must be a list"
  | badImmediate shown => "bad immediate " ++ shown
  | unknownDeclaration shown => "unknown label declaration " ++ shown
  | badBase shown => "bad base for address: " ++ shown
  | badOffset shown => "bad offset for address: " ++ shown
  | badIndex shown => "bad index for address: " ++ shown
  | badScale shown => "bad scale: " ++ shown
  | unusableScale shown => "bad scale: " ++ shown
  | offsetNotLiteral shown => "cannot add to non-literal offset " ++ shown
  | referenceToNonLabel shown => "label reference to non-label " ++ shown
  | referenceToNonLocalLabel shown => "local label reference to non-local-label " ++ shown
  | callWithoutOperands name => "macro call '" ++ name ++ "' has no operands"
  | constantOfNonVariable shown => "const declaration of non-variable " ++ shown
  | predicateNotBoolean => "conditional predicate is not a boolean expression"
  | undefinedMacro name _ => "undefined macro '" ++ name ++ "'"
  | macroArity name expected actual =>
    "macro '" ++ name ++ "' takes " ++ Text.decimal expected ++ " operand(s) but was given " ++
      Text.decimal actual
  | unboundVariable name => "unbound variable '" ++ name ++ "'"
  | macroRedefined name _ => "macro '" ++ name ++ "' is defined more than once"
  | macroAsValue name => "macro '" ++ name ++ "' used as a value"
  | strayMacro => "anonymous macro used outside an operand list"
  | nestedMacro => "macro definitions are only allowed at top level"
  | notBoundToMacro name => "'" ++ name ++ "' is not bound to a macro"
  | expansionTooDeep _ => "macro expansion too deep"
  | cannotInterpolate parameter => "cannot interpolate '" ++ parameter ++ "' into a label name"
  | globalTwice name _ => "label '" ++ name ++ "' is declared global twice"
  | alignedTwice name _ => "label '" ++ name ++ "' is declared aligned twice"
  | noLayoutValue key => "no layout value for '" ++ key ++ "'"
  | notAnImmediate shown => "expected an immediate, got " ++ shown
  | notMemory shown => "expected a memory operand, got " ++ shown
  | expectsRegister opcode shown => "'" ++ opcode ++ "' expects a register, got " ++ shown
  | expectsMemory opcode shown => "'" ++ opcode ++ "' expects a memory operand, got " ++ shown
  | expectsLabel opcode shown => "'" ++ opcode ++ "' expects a label, got " ++ shown
  | operandCount opcode expected actual =>
    let counts := expected.map fun (count : Nat) => Text.decimal count
    "'" ++ opcode ++ "' takes " ++ " or ".intercalate counts ++ " operand(s), got " ++
      Text.decimal actual
  | strayString => "string literal outside 'emit'"
  | noSuchRegister name backend =>
    "register '" ++ name ++ "' does not exist on " ++ backend
  | unfoldedExpression => "configuration expression reached emission unfolded"
  | unfoldedConditional => "conditional reached emission unfolded"
  | unexpandedMacro name => "macro '" ++ name ++ "' reached emission"
  | unexpandedCall name => "unexpanded invocation of macro '" ++ name ++ "'"
  | cannotAddress backend shown => backend ++ " cannot address " ++ shown
  | absoluteUnsupported backend => "absolute addresses are not supported on " ++ backend
  | indexedWithOffsetOrScale =>
    "ARM64 register-offset addressing takes scale 1 or 8 and no offset"
  | indexedWithOffset => "ARMv7 base-index addressing takes no offset"
  | offsetTooWide offset =>
    "offset " ++ Text.decimal offset ++ " does not fit a RISCV64 load/store"
  | unhandledOpcode opcode _ => "unhandled opcode '" ++ opcode ++ "'"
  | afterAbort action => "cannot " ++ action ++ ": the compilation was aborted"
  | outOfOrder action stage _ => "cannot " ++ action ++ " in stage '" ++ stage ++ "'"
  | reported _ summary _ => summary

/-- What to do about a problem, where there is something to say. -/
def hint : Cause → Option String
  | unknownKind _ known => some ("expected one of " ++ ", ".intercalate known)
  | badBase _ => some "the base of an address must be a register"
  | badOffset _ => some "the offset of an address must be an immediate"
  | badScale _ => some "scale must be one of 1, 2, 4 or 8"
  | undefinedMacro _ similar => similar.map fun name => "did you mean '" ++ name ++ "'?"
  | unboundVariable _ => some "declare it with 'const' or pass it as a macro operand"
  | macroRedefined _ first => some ("first defined at " ++ first)
  | expansionTooDeep limit =>
    some ("invocations nest more than " ++ Text.decimal limit ++
      " levels; check for a macro that invokes itself")
  | globalTwice _ first => some ("first declared at " ++ first)
  | alignedTwice _ alignment => some ("already aligned to " ++ Text.decimal alignment)
  | noLayoutValue _ => some "add it to the layout table of the configuration"
  | unfoldedExpression | unfoldedConditional => some "run the configuration folding pass first"
  | unexpandedMacro _ | unexpandedCall _ => some "run the macro expansion pass first"
  | unhandledOpcode _ backend => some ("no lowering rule in the " ++ backend ++ " backend")
  | outOfOrder action _ required => some (action ++ " requires stage '" ++ required ++ "'")
  | reported _ _ hint => hint
  | _ => none

end Cause

structure Diagnostic where
  cause : Cause
  location : Option Origin := none
  construct : Option String := none
deriving DecidableEq, Repr

namespace Diagnostic

def kind (diagnostic : Diagnostic) : DiagnosticKind := diagnostic.cause.kind

/-- The summary of a compilation problem with its location, unless that is no place at all. -/
def headline (diagnostic : Diagnostic) : String :=
  match diagnostic.location with
  | some origin =>
    if origin = .nowhere then "error: " ++ diagnostic.cause.summary
    else origin.text ++ ": error: " ++ diagnostic.cause.summary
  | none => "error: " ++ diagnostic.cause.summary

def constructLines (diagnostic : Diagnostic) : List String :=
  match diagnostic.construct with
  | some text => if text = "" then [] else ["    " ++ Text.strip text]
  | none => []

def hintLines (diagnostic : Diagnostic) : List String :=
  match diagnostic.cause.hint with
  | some text => if text = "" then [] else ["hint: " ++ text]
  | none => []

/-- A diagnostic as it is shown. Problems of a configuration concern no construct, and of them
only an undefined setting has a location, which is then always shown. -/
def message (diagnostic : Diagnostic) : String :=
  match diagnostic.kind with
  | .general | .configuration => diagnostic.cause.summary
  | .undefinedSetting =>
    match diagnostic.location with
    | some origin => origin.text ++ ": error: " ++ diagnostic.cause.summary
    | none => "error: " ++ diagnostic.cause.summary
  | _ =>
    "\n".intercalate
      (diagnostic.headline :: diagnostic.constructLines ++ diagnostic.hintLines)

end Diagnostic

end MacroAssembler
