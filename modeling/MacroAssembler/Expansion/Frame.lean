/-
This module holds what names mean while a macro body is expanded.

A macro that is bound carries the scopes its free names are resolved in, so it means the same
wherever it is invoked. The scopes of a frame are listed from the innermost outwards; the scope of
the unit itself lies around every frame and is not part of it.
-/
import MacroAssembler.SymbolTable

namespace MacroAssembler

structure Definition where
  origin : Origin
  name : Value
  parameters : List Node
  body : Node

namespace Definition

def title (definition : Definition) : String :=
  (definition.name.orElse (.text "<anonymous>")).display

def nameOr (definition : Definition) (invoked : Value) : String :=
  (definition.name.orElse invoked).display

end Definition

/-- The bindings of one expansion, and its renamed local labels under the names they were written
with. -/
structure Scope (β : Type) where
  bindings : List (String × β) := []
  labels : List (Name × LocalLabel) := []

inductive Bound
  | operand (node : Node)
  | closure (definition : Definition) (frame : List (Scope Bound))

/-- The scopes around a statement, from the innermost outwards. -/
abbrev Frame := List (Scope Bound)

namespace Frame

def binding? (frame : Frame) (name : String) : Option Bound :=
  frame.findSome? fun scope => Association.get? scope.bindings name

def labelIn? (labels : List (Name × LocalLabel)) (name : Name) : Option LocalLabel :=
  (labels.find? fun entry => decide (entry.1.key = name.key)).map (·.2)

def label? (frame : Frame) (name : Name) : Option LocalLabel :=
  frame.findSome? fun scope => labelIn? scope.labels name

end Frame

mutual

/-- The local labels that a macro body defines as statements, those of macros inside it left
out. -/
def Node.localLabels : Node → List LocalLabel
  | .localLabel mark => [mark]
  | .sequence _ items => localLabelsOf items
  | .conditional _ _ thenCase elseCase => thenCase.localLabels ++ elseCase.localLabels
  | _ => []

def Node.localLabelsOf : List Node → List LocalLabel
  | [] => []
  | item :: rest => item.localLabels ++ localLabelsOf rest

end

end MacroAssembler
