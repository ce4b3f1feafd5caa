/-
This module answers questions about single nodes. Which properties a node has depends on its
kind, and asking for another one is a fault.
-/
import MacroAssembler.SymbolTable

namespace MacroAssembler

inductive Property
  | name
  | value
  | cleanName
  | displayName
  | writtenName
  | key
  | scaleValue
  | scaleShift
  | isExternal
  | offset
  | opcode
  | comment
  | isRegister
  | isImmediate
  | isAddress
  | isLabel
deriving DecidableEq, Repr

namespace Property

def title : Property → String
  | .name => "name"
  | .value => "value"
  | .cleanName => "clean_name"
  | .displayName => "display_name"
  | .writtenName => "original_name"
  | .key => "key"
  | .scaleValue => "scale_value"
  | .scaleShift => "scale_shift"
  | .isExternal => "is_extern"
  | .offset => "offset"
  | .opcode => "opcode"
  | .comment => "annotation"
  | .isRegister => "is_register"
  | .isImmediate => "is_immediate"
  | .isAddress => "is_address"
  | .isLabel => "is_label"

def all : List Property :=
  [.name, .value, .cleanName, .displayName, .writtenName, .key, .scaleValue, .scaleShift,
   .isExternal, .offset, .opcode, .comment, .isRegister, .isImmediate, .isAddress, .isLabel]

def ofTitle? (title : String) : Option Property :=
  all.find? fun property => decide (property.title = title)

inductive Answer
  | node (node : Node)
  | value (value : Value)

end Property

/-- The name of a local label as an assembler symbol, in which a leading dot becomes an
underscore. -/
def LocalLabel.cleanName (mark : LocalLabel) : Checked String :=
  match mark.name with
  | .text content =>
    match content.toList with
    | '.' :: rest => .ok (String.ofList ('_' :: rest))
    | _ => .ok content
  | other => refuse (.noProperty other.toValue.typeName "startswith")

namespace Node

def property (table : SymbolTable) (property : Property) (node : Node) :
    Checked Property.Answer :=
  match property, node with
  | .isRegister, node => .ok (.value (.truth node.isRegister))
  | .isImmediate, node => .ok (.value (.truth node.isImmediate))
  | .isAddress, node => .ok (.value (.truth node.isAddress))
  | .isLabel, node => .ok (.value (.truth node.isLabel))
  | .name, .immediate _ value => .ok (.value (.text (Text.hexadecimal value)))
  | .name, .register _ _ name => .ok (.value (.text name))
  | .name, .var binding => .ok (.value (.text binding.name))
  | .name, .setting _ name => .ok (.value (.text name))
  | .name, .label mark => .ok (.value (.text mark.name))
  | .name, .labelReference _ mark _ => .ok (.value (.text mark.name))
  | .name, .localLabel mark => .ok (.value mark.name.toValue)
  | .name, .localReference _ mark => .ok (.value mark.name.toValue)
  | .name, .call _ name _ _ _ => .ok (.value (.text name))
  | .name, .definition _ name _ _ => .ok (.value name)
  | .value, .immediate _ value => .ok (.value (.integer value))
  | .value, .text _ value => .ok (.value (.text value))
  | .value, .layout _ (.expression source) => .ok (.value (.text source))
  | .value, .truth value => .ok (.value (.truth value))
  | .value, .constant _ _ value => .ok (.node value)
  | .cleanName, .localLabel mark => mark.cleanName.map fun name => .value (.text name)
  | .displayName, .var binding => .ok (.value binding.displayName)
  | .displayName, .call _ name _ _ writtenName =>
    .ok (.value (writtenName.orElse (.text name)))
  | .writtenName, .var binding => .ok (.value binding.writtenName)
  | .writtenName, .call _ _ _ _ writtenName => .ok (.value writtenName)
  | .key, .layout _ which => .ok (.value (.text which.key))
  | .scaleValue, .indexed origin _ _ scale _ =>
    (scaleOf origin scale).map fun found => .value found.toValue
  | .scaleShift, .indexed origin _ _ scale _ =>
    (scaleOf origin scale).map fun found => .value (.integer found.shift)
  | .isExternal, .label mark => .ok (.value (.truth (table.flagsOf mark.name).isExternal))
  | .isExternal, .labelReference _ mark _ =>
    .ok (.value (.truth (table.flagsOf mark.name).isExternal))
  | .offset, .address _ _ offset => .ok (.node offset)
  | .offset, .indexed _ _ _ _ offset => .ok (.node offset)
  | .offset, .labelReference _ _ offset => .ok (.value (.integer offset))
  | .opcode, .instruction _ opcode _ _ => .ok (.value (.text opcode))
  | .comment, .instruction _ _ _ comment => .ok (.value comment)
  | .comment, .call _ _ _ comment _ => .ok (.value comment)
  | property, node => refuse (.noProperty node.typeName property.title)

end Node

end MacroAssembler
