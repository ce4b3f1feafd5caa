/-
This module holds the notices that a compilation run leaves behind. A notice says what a step did;
it changes nothing.
-/
import MacroAssembler.Folding
import MacroAssembler.Stage

namespace MacroAssembler

/-- What a step of a run has to say. -/
inductive Notice
  | loaded (count : Nat) (filename : String)
  | folded (counts : FoldCounts) (configuration : String)
  | expanding (origin : Origin) (name : String) (operands : Nat)
  | expanded (expansions macros constants : Nat)
  | constantRedeclared (origin : Origin) (name : String)
  | constantRebound (origin : Origin) (name before after : String)
  | specialized (label : String) (entries : Nat)
  | preludeAdded (count : Nat)
  | advanced (backend : String) (before after : Stage)
  | aborted (backend : String) (stage : Stage) (message : String)
  | emitted (backend : String) (lines externals : Nat)
deriving DecidableEq, Repr

namespace Notice

def channel : Notice → String
  | .loaded .. => "offlineasm.loader"
  | .folded .. => "offlineasm.folding"
  | .expanding .. | .expanded .. | .constantRedeclared .. | .constantRebound .. =>
    "offlineasm.macros"
  | .specialized .. => "offlineasm.widths"
  | .preludeAdded .. | .advanced .. | .aborted .. | .emitted .. => "offlineasm.compiler"

def isWarning : Notice → Bool
  | .constantRebound .. => true
  | _ => false

def message : Notice → String
  | .loaded count filename => "Loaded " ++ Text.decimal count ++ " nodes from " ++ filename
  | .folded counts configuration =>
    "Folded " ++ Text.decimal counts.folded ++ " conditionals for " ++ configuration ++ " (" ++
      Text.decimal counts.pruned ++ " dead branches pruned)"
  | .expanding origin name operands =>
    origin.text ++ ": expanding " ++ name ++ "/" ++ Text.decimal operands
  | .expanded expansions macros constants =>
    "Expanded " ++ Text.decimal expansions ++ " macro invocations (" ++ Text.decimal macros ++
      " macros, " ++ Text.decimal constants ++ " constants)"
  | .constantRedeclared origin name => origin.text ++ ": constant '" ++ name ++ "' redeclared"
  | .constantRebound origin name before after =>
    origin.text ++ ": constant '" ++ name ++ "' rebound from " ++ before ++ " to " ++ after
  | .specialized label entries =>
    "Specialized " ++ label ++ " into " ++ Text.decimal entries ++ " entry points"
  | .preludeAdded count => "Prelude: injected " ++ Text.decimal count ++ " macros"
  | .advanced backend before after => backend ++ ": " ++ before.name ++ " -> " ++ after.name
  | .aborted backend stage message =>
    backend ++ ": aborted in stage '" ++ stage.name ++ "': " ++ message
  | .emitted backend lines externals =>
    backend ++ ": emitted " ++ Text.decimal lines ++ " lines, " ++ Text.decimal externals ++
      " extern labels"

end Notice

end MacroAssembler
