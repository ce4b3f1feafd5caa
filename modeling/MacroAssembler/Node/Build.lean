/-
This module builds nodes that satisfy the rules of the tree, and derives nodes from nodes.

Every pass rebuilds nodes through the functions here, so a substitution that would break a rule is
reported where it happens.
-/
import MacroAssembler.Node.Spelling

namespace MacroAssembler

/-- The factors by which an index can be scaled. -/
inductive Scale
  | one
  | two
  | four
  | eight
  /-- The factor one, written as the value `true`. -/
  | truth
deriving DecidableEq, Repr

namespace Scale

def ofInt? (value : Int) : Option Scale :=
  if value = 1 then some .one
  else if value = 2 then some .two
  else if value = 4 then some .four
  else if value = 8 then some .eight
  else none

def ofNode? : Node → Option Scale
  | .immediate _ value => ofInt? value
  | .plain _ (.truth true) => some .truth
  | _ => none

def factor : Scale → Nat
  | .one | .truth => 1
  | .two => 2
  | .four => 4
  | .eight => 8

def shift : Scale → Nat
  | .one | .truth => 0
  | .two => 1
  | .four => 2
  | .eight => 3

theorem factor_eq_two_pow_shift (scale : Scale) : scale.factor = Nat.pow 2 scale.shift := by
  cases scale <;> rfl

def toValue : Scale → Value
  | .truth => .truth true
  | other => .integer other.factor

def text (scale : Scale) : String := scale.toValue.display

end Scale

namespace Node

/-! ### Rules -/

def checkBase (origin : Origin) (base : Node) : Checked Unit :=
  if base.isVariable || base.isRegister then .ok ()
  else do
    let shown ← base.dump
    report (.badBase shown) origin

def checkIndex (origin : Origin) (index : Node) : Checked Unit :=
  if index.isVariable || index.isRegister then .ok ()
  else do
    let shown ← index.dump
    report (.badIndex shown) origin

def checkOffset (origin : Origin) (offset : Node) : Checked Unit :=
  if offset.isVariable || offset.isImmediate then .ok ()
  else do
    let shown ← offset.dump
    report (.badOffset shown) origin

/-- A literal scale is one of the four factors, and a truth value in its place is true. -/
def checkScale (origin : Origin) : Node → Checked Unit
  | .immediate _ value =>
    if (Scale.ofInt? value).isSome then .ok ()
    else report (.badScale (Text.decimal value)) origin
  | .plain _ (.truth false) => report (.badScale (Value.truth false).display) origin
  | _ => .ok ()

/-! ### Building -/

def makeAddress (origin : Origin) (base offset : Node) : Checked Node := do
  checkBase origin base
  checkOffset origin offset
  return .address origin base offset

def makeIndexed (origin : Origin) (base index scale offset : Node) : Checked Node := do
  checkBase origin base
  checkIndex origin index
  checkOffset origin offset
  checkScale origin scale
  return .indexed origin base index scale offset

def makeCall (origin : Origin) (name : String) (operands : List Node)
    (comment writtenName : Value) : Checked Node :=
  if operands.isEmpty then report (.callWithoutOperands name) origin
  else .ok (.call origin name operands comment writtenName)

def makeConstant (origin : Origin) (declared value : Node) : Checked Node :=
  match declared with
  | .var binding => .ok (.constant origin binding value)
  | other => do
    let shown ← other.dump
    report (.constantOfNonVariable shown) origin

def makeLabelReference (origin : Origin) (target : Node) (offset : Int) : Checked Node :=
  match target with
  | .label mark => .ok (.labelReference origin mark offset)
  | other => do
    let shown ← other.dump
    report (.referenceToNonLabel shown) origin

def makeLocalReference (origin : Origin) (target : Node) : Checked Node :=
  match target with
  | .localLabel mark => .ok (.localReference origin mark)
  | other => do
    let shown ← other.dump
    report (.referenceToNonLocalLabel shown) origin

/-! ### Deriving -/

/-- A node with each of its immediate parts replaced, from left to right. -/
def mapChildren {σ : Type} (replace : Node → Action σ Node) : Node → Action σ Node
  | .address origin base offset => do
    let base ← replace base
    let offset ← replace offset
    makeAddress origin base offset
  | .indexed origin base index scale offset => do
    let base ← replace base
    let index ← replace index
    let scale ← replace scale
    let offset ← replace offset
    makeIndexed origin base index scale offset
  | .absolute origin place => do
    let place ← replace place
    return .absolute origin place
  | .binary origin operator left right => do
    let left ← replace left
    let right ← replace right
    return .binary origin operator left right
  | .unary origin operator child => do
    let child ← replace child
    return .unary origin operator child
  | .labelReference origin mark offset => do
    let target ← replace (.label mark)
    makeLabelReference origin target offset
  | .localReference origin mark => do
    let target ← replace (.localLabel mark)
    makeLocalReference origin target
  | .instruction origin opcode operands comment => do
    let operands ← operands.mapM replace
    return .instruction origin opcode operands comment
  | .call origin name operands comment writtenName => do
    let operands ← operands.mapM replace
    makeCall origin name operands comment writtenName
  | .sequence origin items => do
    let items ← items.mapM replace
    return .sequence origin items
  | .conditional origin predicate thenCase elseCase => do
    let predicate ← replace predicate
    let thenCase ← replace thenCase
    let elseCase ← replace elseCase
    return .conditional origin predicate thenCase elseCase
  | .constant origin binding value => do
    let declared ← replace (.var binding)
    let value ← replace value
    makeConstant origin declared value
  | .definition origin name parameters body => do
    let parameters ← parameters.mapM replace
    let body ← replace body
    return .definition origin name parameters body
  | .plain origin (.truth true) => return .plain origin (.truth true)
  | .plain _ value => refuse (.noProperty value.typeName "map_children")
  | leaf => return leaf

def literalOffset (origin : Origin) : Node → Checked Int
  | .immediate _ value => .ok value
  | other => do
    let shown ← other.dump
    report (.offsetNotLiteral shown) origin

def withOffset (node : Node) (extra : Int) : Checked Node :=
  match node with
  | .address origin base offset => do
    let current ← literalOffset origin offset
    makeAddress origin base (.immediate origin (current + extra))
  | .indexed origin base index scale offset => do
    let current ← literalOffset origin offset
    makeIndexed origin base index scale (.immediate origin (current + extra))
  | .absolute origin place => do
    let current ← literalOffset origin place
    return .absolute origin (.immediate origin (current + extra))
  | other => refuse (.noProperty other.typeName "with_offset")

def plusOffset (node : Node) (extra : Int) : Checked Node :=
  match node with
  | .labelReference origin mark offset => .ok (.labelReference origin mark (offset + extra))
  | other => refuse (.noProperty other.typeName "plus_offset")

def withOperands (node : Node) (operands : List Node) : Checked Node :=
  match node with
  | .instruction origin opcode _ comment => .ok (.instruction origin opcode operands comment)
  | other => refuse (.noProperty other.typeName "clone_with_operands")

/-- A sequence with every nested sequence spliced in its place. -/
def flattened (node : Node) : Checked Node :=
  match node with
  | .sequence origin items => .ok (.sequence origin (statementsOf items))
  | other => refuse (.noProperty other.typeName "flattened")

def scaleOf (origin : Origin) (scale : Node) : Checked Scale :=
  match Scale.ofNode? scale with
  | some found => .ok found
  | none => do
    let shown ← scale.dump
    report (.unusableScale shown) origin

end Node

end MacroAssembler
