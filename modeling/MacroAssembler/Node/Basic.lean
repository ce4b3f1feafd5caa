/-
This module holds the syntax tree of a macro-assembly unit.

One type covers operands, conditions and statements, because a document may put any node in any
place and the passes say which places they accept. A reference to a label and a declaration of a
constant hold the label and the variable themselves, so they cannot refer to anything else.

The scale of an indexed address is the one place where a document may put a bare value instead of
a node.
-/
import MacroAssembler.Name
import MacroAssembler.Origin

namespace MacroAssembler

/-- The register files of a machine, and registers that a backend names itself. -/
inductive RegisterClass
  | general
  | float
  | vector
  | special
deriving DecidableEq, Repr

inductive BinaryOperator
  | add
  | subtract
  | multiply
  | bitOr
  | bitAnd
  | bitXor
  | both
  | either
deriving DecidableEq, Repr

/-- Operators on one immediate, and the one on conditions. -/
inductive UnaryOperator
  | negate
  | complement
  | not
deriving DecidableEq, Repr

/-- A constant that the layout of the host's data decides. -/
inductive LayoutConstant
  | expression (text : String)
  | offset (struct field : String)
  | size (struct : Name)
deriving DecidableEq, Repr

/-- A name bound by a parameter list or a constant declaration. A document may say what the name
was before it was renamed, and then that is shown. -/
structure Variable where
  origin : Origin
  name : String
  writtenName : Value := .null

structure Label where
  origin : Origin
  name : String
deriving DecidableEq, Repr

/-- A label that is local to a macro body or to the unit. -/
structure LocalLabel where
  origin : Origin
  name : Name
deriving DecidableEq, Repr

/-- A node of the syntax tree. -/
inductive Node
  | immediate (origin : Origin) (value : Int)
  | text (origin : Origin) (value : String)
  | register (origin : Origin) (kind : RegisterClass) (name : String)
  | var (binding : Variable)
  | layout (origin : Origin) (constant : LayoutConstant)
  | setting (origin : Origin) (name : String)
  | truth (value : Bool)
  | address (origin : Origin) (base offset : Node)
  | indexed (origin : Origin) (base index scale offset : Node)
  | absolute (origin : Origin) (address : Node)
  | binary (origin : Origin) (operator : BinaryOperator) (left right : Node)
  | unary (origin : Origin) (operator : UnaryOperator) (child : Node)
  | label (label : Label)
  | localLabel (label : LocalLabel)
  | labelReference (origin : Origin) (label : Label) (offset : Int)
  | localReference (origin : Origin) (label : LocalLabel)
  | instruction (origin : Origin) (opcode : String) (operands : List Node) (comment : Value)
  | call (origin : Origin) (name : String) (operands : List Node) (comment writtenName : Value)
  | sequence (origin : Origin) (items : List Node)
  | conditional (origin : Origin) (predicate thenCase elseCase : Node)
  | skip (origin : Origin)
  | trap (origin : Origin)
  | constant (origin : Origin) (binding : Variable) (value : Node)
  /-- The definition of a macro, whose name is null when it has none. -/
  | definition (origin : Origin) (name : Value) (parameters : List Node) (body : Node)
  /-- A bare value in the place of a scale. -/
  | plain (origin : Origin) (value : Value)

namespace RegisterClass

def typeName : RegisterClass → String
  | .general => "RegisterID"
  | .float => "FPRegisterID"
  | .vector => "VecRegisterID"
  | .special => "SpecialRegister"

end RegisterClass

namespace BinaryOperator

def typeName : BinaryOperator → String
  | .add => "AddImmediates"
  | .subtract => "SubImmediates"
  | .multiply => "MulImmediates"
  | .bitOr => "OrImmediates"
  | .bitAnd => "AndImmediates"
  | .bitXor => "XorImmediates"
  | .both => "And"
  | .either => "Or"

def spelling : BinaryOperator → String
  | .add => "+"
  | .subtract => "-"
  | .multiply => "*"
  | .bitOr => "|"
  | .bitAnd => "&"
  | .bitXor => "^"
  | .both => "and"
  | .either => "or"

def isLogical : BinaryOperator → Bool
  | .both | .either => true
  | _ => false

def all : List BinaryOperator :=
  [.add, .subtract, .multiply, .bitOr, .bitAnd, .bitXor, .both, .either]

end BinaryOperator

namespace UnaryOperator

def typeName : UnaryOperator → String
  | .negate => "NegImmediate"
  | .complement => "BitnotImmediate"
  | .not => "Not"

def spelling : UnaryOperator → String
  | .negate => "-"
  | .complement => "~"
  | .not => "not "

def isLogical : UnaryOperator → Bool
  | .not => true
  | _ => false

def all : List UnaryOperator := [.negate, .complement, .not]

end UnaryOperator

namespace LayoutConstant

def typeName : LayoutConstant → String
  | .expression _ => "ConstExpr"
  | .offset .. => "StructOffset"
  | .size _ => "Sizeof"

/-- The key under which a configuration holds the constant. -/
def key : LayoutConstant → String
  | .expression text => text
  | .offset struct field => struct ++ "::" ++ field
  | .size struct => "sizeof " ++ struct.display

def spelling : LayoutConstant → String
  | .expression text => "constexpr (" ++ text ++ ")"
  | other => other.key

end LayoutConstant

namespace Variable

/-- The name that is shown: the one before a renaming, if the document gives it. -/
def displayName (binding : Variable) : Value :=
  binding.writtenName.orElse (.text binding.name)

end Variable

namespace Node

def origin : Node → Origin
  | .immediate origin _ | .text origin _ | .register origin _ _ | .layout origin _
  | .setting origin _ | .address origin _ _ | .indexed origin _ _ _ _ | .absolute origin _
  | .binary origin _ _ _ | .unary origin _ _ | .labelReference origin _ _
  | .localReference origin _ | .instruction origin _ _ _ | .call origin _ _ _ _
  | .sequence origin _ | .conditional origin _ _ _ | .skip origin | .trap origin
  | .constant origin _ _ | .definition origin _ _ _ | .plain origin _ => origin
  | .var binding => binding.origin
  | .label mark => mark.origin
  | .localLabel mark => mark.origin
  | .truth _ => .nowhere

def typeName : Node → String
  | .immediate .. => "Immediate"
  | .text .. => "StringLiteral"
  | .register _ kind _ => kind.typeName
  | .var _ => "Variable"
  | .layout _ which => which.typeName
  | .setting .. => "Setting"
  | .truth true => "TrueLiteral"
  | .truth false => "FalseLiteral"
  | .address .. => "Address"
  | .indexed .. => "BaseIndex"
  | .absolute .. => "AbsoluteAddress"
  | .binary _ operator _ _ => operator.typeName
  | .unary _ operator _ => operator.typeName
  | .label _ => "Label"
  | .localLabel _ => "LocalLabel"
  | .labelReference .. => "LabelReference"
  | .localReference .. => "LocalLabelReference"
  | .instruction .. => "Instruction"
  | .call .. => "MacroCall"
  | .sequence .. => "Sequence"
  | .conditional .. => "IfThenElse"
  | .skip _ => "Skip"
  | .trap _ => "Error"
  | .constant .. => "ConstDecl"
  | .definition .. => "Macro"
  | .plain _ (.truth true) => "Immediate"
  | .plain _ value => value.typeName

/-! ### Classes of operands -/

def isRegister : Node → Bool
  | .register .. => true
  | _ => false

def isVariable : Node → Bool
  | .var _ => true
  | _ => false

/-- Whether a node has a value that is known when code is emitted. -/
def isImmediate : Node → Bool
  | .immediate .. | .layout .. | .labelReference .. => true
  | .binary _ operator _ _ => !operator.isLogical
  | .unary _ operator _ => !operator.isLogical
  | .plain _ (.truth true) => true
  | _ => false

def isAddress : Node → Bool
  | .address .. | .indexed .. | .absolute .. => true
  | _ => false

def isLabel : Node → Bool
  | .label _ | .localLabel _ => true
  | _ => false

def isReference : Node → Bool
  | .labelReference .. | .localReference .. => true
  | _ => false

def isCondition : Node → Bool
  | .setting .. | .truth _ => true
  | .binary _ operator _ _ => operator.isLogical
  | .unary _ operator _ => operator.isLogical
  | _ => false

def isSkip : Node → Bool
  | .skip _ => true
  | _ => false

/-- Whether a node is a bare value without text and parts. -/
def isOpaque : Node → Bool
  | .plain _ (.truth true) => false
  | .plain .. => true
  | _ => false

/-! ### Parts -/

def children : Node → List Node
  | .address _ base offset => [base, offset]
  | .indexed _ base index scale offset => [base, index, scale, offset]
  | .absolute _ place => [place]
  | .binary _ _ left right => [left, right]
  | .unary _ _ child => [child]
  | .labelReference _ mark _ => [.label mark]
  | .localReference _ mark => [.localLabel mark]
  | .instruction _ _ operands _ => operands
  | .call _ _ operands _ _ => operands
  | .sequence _ items => items
  | .conditional _ predicate thenCase elseCase => [predicate, thenCase, elseCase]
  | .constant _ binding value => [.var binding, value]
  | .definition _ _ parameters body => parameters ++ [body]
  | _ => []

mutual

/-- A node followed by all nodes below it, depth first. -/
def flatten : Node → List Node
  | node@(.address _ base offset) => node :: (base.flatten ++ offset.flatten)
  | node@(.indexed _ base index scale offset) =>
    node :: (base.flatten ++ index.flatten ++ scale.flatten ++ offset.flatten)
  | node@(.absolute _ place) => node :: place.flatten
  | node@(.binary _ _ left right) => node :: (left.flatten ++ right.flatten)
  | node@(.unary _ _ child) => node :: child.flatten
  | node@(.labelReference _ mark _) => [node, .label mark]
  | node@(.localReference _ mark) => [node, .localLabel mark]
  | node@(.instruction _ _ operands _) => node :: flattenAll operands
  | node@(.call _ _ operands _ _) => node :: flattenAll operands
  | node@(.sequence _ items) => node :: flattenAll items
  | node@(.conditional _ predicate thenCase elseCase) =>
    node :: (predicate.flatten ++ thenCase.flatten ++ elseCase.flatten)
  | node@(.constant _ binding value) => node :: .var binding :: value.flatten
  | node@(.definition _ _ parameters body) => node :: (flattenAll parameters ++ body.flatten)
  | node => [node]

def flattenAll : List Node → List Node
  | [] => []
  | node :: rest => node.flatten ++ flattenAll rest

end

mutual

/-- The statements of a sequence with every nested sequence spliced in its place; any other node
is its own only statement. -/
def statements : Node → List Node
  | .sequence _ items => statementsOf items
  | node => [node]

def statementsOf : List Node → List Node
  | [] => []
  | item :: rest => item.statements ++ statementsOf rest

end

end Node

end MacroAssembler
