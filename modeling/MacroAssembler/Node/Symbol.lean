/-
This module says which nodes are the same node, and lists the names that a tree depends on.

An interned node is identified by its kind and its name, and the two truth values are one node
each; every other node stands for itself alone.
-/
import MacroAssembler.Node.Spelling

namespace MacroAssembler

inductive SymbolKey
  | register (kind : RegisterClass) (name : String)
  | var (name : String)
  | expression (text : String)
  | fieldOffset (key : String)
  | size (struct : Name)
  | setting (name : String)
  | label (name : String)
  | localLabel (name : Name)
  | truth (value : Bool)
deriving DecidableEq, Repr

namespace Node

def symbolKey? : Node → Option SymbolKey
  | .register _ .special _ => none
  | .register _ kind name => some (.register kind name)
  | .var binding => some (.var binding.name)
  | .layout _ (.expression source) => some (.expression source)
  | .layout _ (.offset struct field) =>
    some (.fieldOffset (LayoutConstant.key (.offset struct field)))
  | .layout _ (.size struct) => some (.size struct.key)
  | .setting _ name => some (.setting name)
  | .label mark => some (.label mark.name)
  | .localLabel mark => some (.localLabel mark.name.key)
  | .truth value => some (.truth value)
  | _ => none

/-- The nodes of a list without repetitions of interned ones, given the identities seen before. -/
def distinctFrom (seen : List SymbolKey) : List Node → List Node
  | [] => []
  | node :: rest =>
    match node.symbolKey? with
    | some key =>
      if seen.contains key then distinctFrom seen rest
      else node :: distinctFrom (key :: seen) rest
    | none => node :: distinctFrom seen rest

/-- The nodes of a list without repetitions, each at its first place. -/
def distinct (nodes : List Node) : List Node := distinctFrom [] nodes

def settingName? : Node → Option String
  | .setting _ name => some name
  | _ => none

def isLayoutConstant : Node → Bool
  | .layout .. => true
  | _ => false

/-- The names of the settings that occur in a tree, in alphabetical order. -/
def settingsUsed (tree : Node) : Checked (List String) := do
  let nodes ← tree.walk
  return (nodes.filterMap settingName?).eraseDups.mergeSort fun left right =>
    decide (left ≤ right)

def layoutText : Node → String
  | .layout _ which => which.spelling
  | _ => ""

/-- The layout constants that occur in a tree, in alphabetical order of their written forms. -/
def layoutConstantsUsed (tree : Node) : Checked (List Node) := do
  let nodes ← tree.walk
  return (distinct (nodes.filter isLayoutConstant)).mergeSort fun left right =>
    decide (left.layoutText ≤ right.layoutText)

end Node

end MacroAssembler
