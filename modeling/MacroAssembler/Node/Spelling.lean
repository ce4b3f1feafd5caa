/-
This module writes a tree in the notation of macro-assembly source.

The spelling of a node is a text, with two exceptions: a variable shows the name it had before a
renaming and a reference to a local label shows the label's name, and a document may give either
as another value.
-/
import MacroAssembler.Failure
import MacroAssembler.Node.Basic

namespace MacroAssembler

def textsFrom (position : Nat) : List Value → Checked (List String)
  | [] => .ok []
  | .text part :: rest => do
    let parts ← textsFrom (position + 1) rest
    return part :: parts
  | part :: _ => refuse (.notText position part.typeName)

def joinTexts (separator : String) (parts : List Value) : Checked String := do
  let texts ← textsFrom 0 parts
  return separator.intercalate texts

namespace Node

mutual

def spelling : Node → Checked Value
  | .immediate _ value => .ok (.text (Text.decimal value))
  | .text _ value => .ok (.text ("\"" ++ value ++ "\""))
  | .register _ _ name => .ok (.text name)
  | .var binding => .ok binding.displayName
  | .layout _ which => .ok (.text which.spelling)
  | .setting _ name => .ok (.text name)
  | .truth value => .ok (.text (if value then "true" else "false"))
  | .address _ base offset => do
    let offsetText ← offset.spelling
    let baseText ← base.spelling
    return .text (offsetText.display ++ "[" ++ baseText.display ++ "]")
  | .indexed _ base index scale offset => do
    let offsetText ← offset.spelling
    let baseText ← base.spelling
    let indexText ← index.spelling
    let scaleText ← scale.spelling
    return .text (offsetText.display ++ "[" ++ baseText.display ++ ", " ++ indexText.display ++
      ", " ++ scaleText.display ++ "]")
  | .absolute _ place => do
    let placeText ← place.spelling
    return .text (placeText.display ++ "[]")
  | .binary _ operator left right => do
    let leftText ← left.spelling
    let rightText ← right.spelling
    return .text ("(" ++ leftText.display ++ " " ++ operator.spelling ++ " " ++
      rightText.display ++ ")")
  | .unary _ operator child => do
    let childText ← child.spelling
    return .text ("(" ++ operator.spelling ++ childText.display ++ ")")
  | .label mark => .ok (.text (mark.name ++ ":"))
  | .localLabel mark => .ok (.text (mark.name.display ++ ":"))
  | .labelReference _ mark offset =>
    if offset = 0 then .ok (.text mark.name)
    else .ok (.text (mark.name ++ " + " ++ Text.decimal offset))
  | .localReference _ mark => .ok mark.name.toValue
  | .instruction _ opcode operands _ => do
    let parts ← spellings operands
    let joined ← joinTexts ", " parts
    return .text (Text.stripRight ("\t" ++ opcode ++ " " ++ joined))
  | .call _ name operands _ writtenName => do
    let parts ← spellings operands
    let joined ← joinTexts ", " parts
    return .text ("\t" ++ (writtenName.orElse (.text name)).display ++ "(" ++ joined ++ ")")
  | .sequence _ items => do
    let parts ← spellings items
    let joined ← joinTexts "\n" parts
    return .text joined
  | .conditional _ predicate thenCase elseCase => do
    let predicateText ← predicate.spelling
    let thenText ← thenCase.spelling
    let elseText ← elseCase.spelling
    return .text ("if " ++ predicateText.display ++ "\n" ++ thenText.display ++ "\nelse\n" ++
      elseText.display ++ "\nend")
  | .skip _ => .ok (.text "\tskip")
  | .trap _ => .ok (.text "\terror")
  | .constant _ binding value => do
    let valueText ← value.spelling
    return .text ("const " ++ binding.displayName.display ++ " = " ++ valueText.display)
  | .definition _ name parameters body => do
    let parts ← spellings parameters
    let joined ← joinTexts ", " parts
    let bodyText ← body.spelling
    return .text ("macro " ++ (name.orElse (.text "")).display ++ "(" ++ joined ++ ")\n" ++
      bodyText.display ++ "\nend")
  | .plain _ (.truth true) => .ok (.text "True")
  | .plain _ value => refuse (.noProperty value.typeName "dump")

def spellings : List Node → Checked (List Value)
  | [] => .ok []
  | node :: rest => do
    let first ← node.spelling
    let others ← spellings rest
    return first :: others

end

def dump (node : Node) : Checked String := do
  let spelled ← node.spelling
  return spelled.display

/-- The spelling of a node as a text, which has to be one where blanks are taken off its ends. -/
def spelledText (node : Node) : Checked String := do
  match ← node.spelling with
  | .text content => return content
  | other => refuse (.noProperty other.typeName "strip")

def construct (node : Node) : Checked (Option String) := do
  let spelled ← node.spelling
  if spelled.isPresent then
    let content ← node.spelledText
    return some content
  else return none

def describe (node : Node) : Checked String := do
  let content ← node.spelledText
  return "<" ++ node.typeName ++ " " ++ Text.quoted (Text.strip content) ++ " at " ++
    node.origin.text ++ ">"

/-- A node followed by all nodes below it, which must not hold a bare value. -/
def walk (node : Node) : Checked (List Node) :=
  match node.flatten.find? isOpaque with
  | some found => refuse (.noProperty found.typeName "flatten")
  | none => .ok node.flatten

end Node

end MacroAssembler
