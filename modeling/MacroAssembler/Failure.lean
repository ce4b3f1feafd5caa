/-
This module holds the outcome of a step that may fail, and the two ways it can.

A diagnostic is a problem of the unit or of its configuration, worded for its author. A fault is
a request that is not of the right type in the first place. The state that a failed step leaves
behind is kept, because later steps can observe it.
-/
import MacroAssembler.Diagnostic
import MacroAssembler.Document.Value

namespace MacroAssembler

inductive FaultKind
  | type
  | value
  | overflow
  | property
  | key
  | unreadable
deriving DecidableEq, Repr

inductive Fault
  /-- A list or an object in the place of a name. -/
  | notAName (typeName : String)
  | notANumber (typeName : String)
  /-- A value that has no items. -/
  | notIterable (typeName : String)
  | notSearchable (typeName : String)
  /-- A part of a text that is no text itself. -/
  | notText (index : Nat) (typeName : String)
  /-- A parameter of an action that is given twice, by its place and by its name. -/
  | repeatedParameter (action name : String)
  /-- A parameter of an action that is given by its name twice. -/
  | repeatedKeyword (action name : String)
  | wrongParameters (name : String)
  /-- Two names that have no order. -/
  | notOrdered (left right : String)
  | notAnInteger (shown : String)
  /-- A number that no integer is near to. -/
  | notFinite (infinite : Bool)
  | noProperty (typeName property : String)
  /-- A key that is not in a table. -/
  | unknownKey (shown : String)
  | unreadable (message : String)
deriving DecidableEq, Repr

namespace Fault

def kind : Fault → FaultKind
  | notAName .. | notANumber .. | notIterable .. | notSearchable .. | notText ..
  | repeatedParameter .. | repeatedKeyword .. | wrongParameters .. | notOrdered .. => .type
  | notAnInteger .. => .value
  | notFinite infinite => if infinite then .overflow else .value
  | noProperty .. => .property
  | unknownKey .. => .key
  | unreadable .. => .unreadable

def message : Fault → String
  | notAName typeName => "unhashable type: '" ++ typeName ++ "'"
  | notANumber typeName =>
    "int() argument must be a string, a bytes-like object or a real number, not '" ++
      typeName ++ "'"
  | notIterable typeName => "'" ++ typeName ++ "' object is not iterable"
  | notSearchable typeName => "argument of type '" ++ typeName ++ "' is not iterable"
  | notText index typeName =>
    "sequence item " ++ Text.decimal index ++ ": expected str instance, " ++ typeName ++ " found"
  | repeatedParameter action name =>
    action ++ "() got multiple values for argument '" ++ name ++ "'"
  | repeatedKeyword action name =>
    action ++ "() got multiple values for keyword argument '" ++ name ++ "'"
  | wrongParameters name => "wrong arguments for '" ++ name ++ "'"
  | notOrdered left right =>
    "'<' not supported between instances of '" ++ left ++ "' and '" ++ right ++ "'"
  | notAnInteger shown => "invalid literal for int() with base 10: " ++ shown
  | notFinite infinite =>
    if infinite then "cannot convert float infinity to integer"
    else "cannot convert float NaN to integer"
  | noProperty typeName property =>
    "'" ++ typeName ++ "' object has no attribute '" ++ property ++ "'"
  | unknownKey shown => shown
  | unreadable message => message

end Fault

/-- Why a step failed. -/
inductive Failure
  | diagnostic (diagnostic : Diagnostic)
  | fault (fault : Fault)
deriving DecidableEq, Repr

def Failure.message : Failure → String
  | .diagnostic problem => problem.message
  | .fault refusal => refusal.message

abbrev Checked (α : Type) := Except Failure α

def report {α : Type} (cause : Cause) (location : Option Origin := none)
    (construct : Option String := none) : Checked α :=
  .error (.diagnostic ⟨cause, location, construct⟩)

def refuse {α : Type} (fault : Fault) : Checked α := .error (.fault fault)

/-- A step on a state that may fail and keeps the state when it does. -/
abbrev Action (σ : Type) := ExceptT Failure (StateM σ)

namespace Action

variable {σ τ α : Type}

def perform (action : Action σ α) (state : σ) : Checked α × σ :=
  (ExceptT.run action).run state

def ofFunction (step : σ → Checked α × σ) : Action σ α := ExceptT.mk (fun state => step state)

def within (part : σ → τ) (replace : σ → τ → σ) (action : Action τ α) : Action σ α :=
  ofFunction fun state =>
    let (outcome, after) := action.perform (part state)
    (outcome, replace state after)

@[simp]
theorem perform_ofFunction (step : σ → Checked α × σ) (state : σ) :
    (ofFunction step).perform state = step state := rfl

end Action

end MacroAssembler
