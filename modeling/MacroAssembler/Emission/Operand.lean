/-
This module reads the operands of a statement for the assembly targets. A statement that asks for
one kind of operand and is given another is reported together with the statement.
-/
import MacroAssembler.Configuration
import MacroAssembler.Node.Property
import MacroAssembler.Number.Bits

namespace MacroAssembler

/-- A step of emission: it may fail, and it may add forward references to the symbol table. -/
abbrev Emit := Action SymbolTable

structure Statement where
  origin : Origin
  opcode : String
  operands : List Node
  comment : Value

namespace Statement

def toNode (statement : Statement) : Node :=
  .instruction statement.origin statement.opcode statement.operands statement.comment

def reject {α : Type} (statement : Statement) (cause : String → String → Cause)
    (operand : Node) : Checked α := do
  let shown ← operand.dump
  let construct ← statement.toNode.construct
  report (cause statement.opcode shown) statement.origin construct

def rejectCount {α : Type} (statement : Statement) (expected : List Nat) : Checked α := do
  let construct ← statement.toNode.construct
  report (.operandCount statement.opcode expected statement.operands.length) statement.origin
    construct

end Statement

/-! ### Immediates -/

/-- The value of an operator on two integers; the operators on conditions have none. -/
def BinaryOperator.compute? : BinaryOperator → Int → Int → Option Int
  | .add, left, right => some (left + right)
  | .subtract, left, right => some (left - right)
  | .multiply, left, right => some (left * right)
  | .bitOr, left, right => some (Bits.disjunction left right)
  | .bitAnd, left, right => some (Bits.conjunction left right)
  | .bitXor, left, right => some (Bits.difference left right)
  | .both, _, _ => none
  | .either, _, _ => none

def Variable.rejectUnbound {α : Type} (binding : Variable) (construct : Option String) :
    Checked α :=
  report (.unboundVariable binding.displayName.display) binding.origin construct

namespace Node

def rejectValue {α : Type} (node : Node) : Checked α := do
  let shown ← node.dump
  report (.notAnImmediate shown) node.origin

def immediateValue (config : Configuration) : Node → Checked Int
  | .immediate _ value => .ok value
  | .plain _ (.truth true) => .ok 1
  | .layout origin which =>
    match config.layoutValue? which.key with
    | some value => .ok value
    | none => report (.noLayoutValue which.key) origin
  | .binary origin operator left right =>
    if operator.isLogical then rejectValue (.binary origin operator left right)
    else do
      let leftValue ← left.immediateValue config
      let rightValue ← right.immediateValue config
      return (operator.compute? leftValue rightValue).getD 0
  | .unary _ .negate child => do
    let value ← child.immediateValue config
    return -value
  | .unary _ .complement child => do
    let value ← child.immediateValue config
    return Bits.complement value
  | .var binding => do
    let construct ← (Node.var binding).construct
    binding.rejectUnbound construct
  | other => rejectValue other

/-- Whether an operand is an immediate other than a label. -/
def isLiteral (node : Node) : Bool := node.isImmediate && !node.isReference

end Node

/-! ### Registers -/

def Configuration.spellRegister (config : Configuration) (origin : Origin)
    (name : String) : Checked String :=
  match config.registerName? name with
  | some spelled => .ok spelled
  | none => report (.noSuchRegister name config.architecture.name) origin

/-- The spelling of a register in an address, or as an operand by itself. A special register is
spelled as it is. -/
def Node.registerText (config : Configuration) : Node → Checked String
  | .register _ .special name => .ok name
  | .register origin _ name => config.spellRegister origin name
  | .var binding => do
    let construct ← (Node.var binding).construct
    binding.rejectUnbound construct
  | other => do
    let shown ← other.dump
    report (.badBase shown) other.origin

def Statement.register (config : Configuration) (statement : Statement) :
    Node → Checked String
  | .var binding => do
    let construct ← statement.toNode.construct
    binding.rejectUnbound construct
  | node =>
    if node.isRegister then node.registerText config
    else statement.reject .expectsRegister node

/-! ### Memory -/

inductive Memory
  | direct (origin : Origin) (base offset : Node)
  | indexed (origin : Origin) (base index scale offset : Node)
  | absolute (origin : Origin) (place : Node)

namespace Memory

def ofNode? : Node → Option Memory
  | .address origin base offset => some (.direct origin base offset)
  | .indexed origin base index scale offset => some (.indexed origin base index scale offset)
  | .absolute origin place => some (.absolute origin place)
  | _ => none

def toNode : Memory → Node
  | .direct origin base offset => .address origin base offset
  | .indexed origin base index scale offset => .indexed origin base index scale offset
  | .absolute origin place => .absolute origin place

theorem ofNode?_toNode (memory : Memory) : ofNode? memory.toNode = some memory := by
  cases memory <;> rfl

def origin (memory : Memory) : Origin := memory.toNode.origin

def reject {α : Type} (memory : Memory) (cause : Cause) : Checked α := do
  let construct ← memory.toNode.construct
  report cause memory.origin construct

def shifted (config : Configuration) (extra : Int) : Memory → Checked Memory
  | .direct origin base offset => do
    let value ← offset.immediateValue config
    return .direct origin base (.immediate origin (value + extra))
  | .indexed origin base index scale offset => do
    let value ← offset.immediateValue config
    return .indexed origin base index scale (.immediate origin (value + extra))
  | .absolute origin place => do
    let value ← place.immediateValue config
    return .absolute origin (.immediate origin (value + extra))

end Memory

def Node.shifted (config : Configuration) (node : Node) (extra : Int) : Checked Node :=
  match Memory.ofNode? node with
  | some memory => (memory.shifted config extra).map Memory.toNode
  | none => do
    let shown ← node.dump
    report (.notMemory shown) node.origin

def Statement.memory (statement : Statement) (node : Node) : Checked Memory :=
  match Memory.ofNode? node with
  | some memory => .ok memory
  | none => statement.reject .expectsMemory node

/-! ### Targets -/

/-- What a branch goes to, or the address that is loaded. -/
inductive Target
  | symbol (name : String) (offset : Int)
  | localSymbol (symbol : String)
deriving DecidableEq, Repr

/-- A target as it stands in a string of assembly, which is interrupted for it. -/
def Target.text : Target → String
  | .symbol name offset =>
    let reference := "\" SYMBOL_STRING(" ++ name ++ ") \""
    if offset = 0 then reference else reference ++ " + " ++ Text.decimal offset
  | .localSymbol mark => "\" LOCAL_LABEL_STRING(" ++ mark ++ ") \""

def LocalLabel.symbol (mark : LocalLabel) : Checked String := do
  let clean ← mark.cleanName
  return "_offlineasm_" ++ clean

def noteLabelUse (mark : Label) : Emit Unit :=
  modify fun table => table.noteUse mark.name

/-- The target of a reference to a label, if the node is one. Its use is noted. -/
def Node.target? : Node → Emit (Option Target)
  | .labelReference _ mark offset => do
    noteLabelUse mark
    return some (.symbol mark.name offset)
  | .localReference _ mark => do
    let symbol ← mark.symbol
    return some (.localSymbol symbol)
  | _ => return none

def Statement.target (statement : Statement) (node : Node) : Emit Target := do
  match ← node.target? with
  | some target => return target
  | none => statement.reject .expectsLabel node

/-! ### Opcodes -/

/-- The opcodes of the assembly targets. The suffix `p` stands for a pointer and `q` for eight
bytes. -/
inductive Opcode
  | addp
  | addq
  | subp
  | subq
  | move
  | push
  | pop
  | loadp
  | loadq
  | storep
  | storeq
  | loadpairq
  | storepairq
  | jmp
  | call
  | ret
  | bpeq
  | bpneq
  | trap
  | nop
deriving DecidableEq, Repr

namespace Opcode

def name : Opcode → String
  | .addp => "addp"
  | .addq => "addq"
  | .subp => "subp"
  | .subq => "subq"
  | .move => "move"
  | .push => "push"
  | .pop => "pop"
  | .loadp => "loadp"
  | .loadq => "loadq"
  | .storep => "storep"
  | .storeq => "storeq"
  | .loadpairq => "loadpairq"
  | .storepairq => "storepairq"
  | .jmp => "jmp"
  | .call => "call"
  | .ret => "ret"
  | .bpeq => "bpeq"
  | .bpneq => "bpneq"
  | .trap => "break"
  | .nop => "nop"

def all : List Opcode :=
  [.addp, .addq, .subp, .subq, .move, .push, .pop, .loadp, .loadq, .storep, .storeq, .loadpairq,
   .storepairq, .jmp, .call, .ret, .bpeq, .bpneq, .trap, .nop]

def ofName? (name : String) : Option Opcode :=
  all.find? fun opcode => decide (opcode.name = name)

end Opcode

inductive Arithmetic
  | add
  | sub
deriving DecidableEq, Repr

namespace Arithmetic

def name : Arithmetic → String
  | .add => "add"
  | .sub => "sub"

/-- The operation that undoes another. -/
def inverse : Arithmetic → Arithmetic
  | .add => .sub
  | .sub => .add

end Arithmetic

inductive Condition
  | equal
  | notEqual
deriving DecidableEq, Repr

def Condition.suffix : Condition → String
  | .equal => "eq"
  | .notEqual => "ne"

/-- The operands of a comparison, with an immediate on the right if there is just one. -/
def comparisonOrder (left right : Node) : Node × Node :=
  if left.isLiteral && !right.isLiteral then (right, left) else (left, right)

end MacroAssembler
