/-
This module lists the kinds of objects that an interchange document is made of.
-/
import MacroAssembler.Node.Basic

namespace MacroAssembler

inductive Kind
  | immediate
  | text
  | register (kind : RegisterClass)
  | var
  | expression
  | setting
  | truth (value : Bool)
  | address
  | indexed
  | absolute
  | fieldOffset
  | size
  | binary (operator : BinaryOperator)
  | unary (operator : UnaryOperator)
  | instruction
  | call
  | sequence
  | conditional
  | skip
  | trap
  | constant
  | definition
  | label
  | localLabel
  | labelReference
  | localReference
  | labelDeclaration
deriving DecidableEq, Repr

namespace Kind

def name : Kind → String
  | .immediate => "Immediate"
  | .text => "StringLiteral"
  | .register kind => kind.typeName
  | .var => "Variable"
  | .expression => "ConstExpr"
  | .setting => "Setting"
  | .truth true => "True"
  | .truth false => "False"
  | .address => "Address"
  | .indexed => "BaseIndex"
  | .absolute => "AbsoluteAddress"
  | .fieldOffset => "StructOffset"
  | .size => "Sizeof"
  | .binary operator => operator.typeName
  | .unary operator => operator.typeName
  | .instruction => "Instruction"
  | .call => "MacroCall"
  | .sequence => "Sequence"
  | .conditional => "IfThenElse"
  | .skip => "Skip"
  | .trap => "Error"
  | .constant => "ConstDecl"
  | .definition => "Macro"
  | .label => "Label"
  | .localLabel => "LocalLabel"
  | .labelReference => "LabelReference"
  | .localReference => "LocalLabelReference"
  | .labelDeclaration => "LabelDeclaration"

def all : List Kind := [
  .absolute, .binary .add, .address, .binary .both, .binary .bitAnd, .indexed,
  .unary .complement, .constant, .expression, .trap, .register .float, .truth false,
  .conditional, .immediate, .instruction, .label, .labelDeclaration, .labelReference,
  .localLabel, .localReference, .definition, .call, .binary .multiply, .unary .negate,
  .unary .not, .binary .either, .binary .bitOr, .register .general, .sequence, .setting, .size,
  .skip, .register .special, .text, .fieldOffset, .binary .subtract, .truth true, .var,
  .register .vector, .binary .bitXor]

def ofName? (name : String) : Option Kind := all.find? fun kind => decide (kind.name = name)

end Kind

end MacroAssembler
