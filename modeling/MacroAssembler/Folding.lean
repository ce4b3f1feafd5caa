/-
This module folds a tree against a configuration.

Folding decides every conditional and replaces it by its live branch. A dead branch is discarded,
but the settings it names still have to be defined, so whether a setting is known does not depend on
the values of others. Both sides of a conjunction or disjunction are evaluated for the same
reason.
-/
import MacroAssembler.Configuration
import MacroAssembler.Node.Build
import MacroAssembler.Node.Symbol

namespace MacroAssembler

/-! ### Conditions -/

def Node.evaluate (config : Configuration) : Node → Checked Bool
  | .setting origin name => config.isSet name origin
  | .truth value => .ok value
  | .binary _ .both left right => do
    let leftValue ← left.evaluate config
    let rightValue ← right.evaluate config
    return leftValue && rightValue
  | .binary _ .either left right => do
    let leftValue ← left.evaluate config
    let rightValue ← right.evaluate config
    return leftValue || rightValue
  | .unary _ .not child => do
    let value ← child.evaluate config
    return !value
  | other => do
    let shown ← other.construct
    report .predicateNotBoolean other.origin shown

def Node.requireSettings (config : Configuration) : List Node → Checked Unit
  | [] => .ok ()
  | .setting origin name :: rest => do
    let _ ← config.isSet name origin
    requireSettings config rest
  | _ :: rest => requireSettings config rest

/-! ### Folding -/

/-- What folding counts: the conditionals it decided, and the branches with an effect that it
discarded. -/
structure FoldCounts where
  folded : Nat := 0
  pruned : Nat := 0
deriving DecidableEq, Repr

namespace Folding

abbrev Fold := Action FoldCounts

def countFolded : Fold Unit := modify fun counts => { counts with folded := counts.folded + 1 }

def countPruned : Fold Unit := modify fun counts => { counts with pruned := counts.pruned + 1 }

def discard (config : Configuration) (dead : Node) : Fold Unit :=
  if dead.isSkip then return
  else do
    countPruned
    let nodes ← dead.walk
    Node.requireSettings config nodes

def splice (item : Node) (rest : List Node) : List Node :=
  match item with
  | .sequence _ items => items ++ rest
  | .skip _ => rest
  | other => other :: rest

def foldCondition (config : Configuration) (condition : Node) : Fold Node := do
  let value ← condition.evaluate config
  return .immediate condition.origin (if value then 1 else 0)

mutual

def fold (config : Configuration) : Node → Fold Node
  | .conditional _ predicate thenCase elseCase => do
    countFolded
    let value ← predicate.evaluate config
    if value then
      discard config elseCase
      fold config thenCase
    else
      discard config thenCase
      fold config elseCase
  | .setting origin name => foldCondition config (.setting origin name)
  | .truth value => foldCondition config (.truth value)
  | .binary origin operator left right =>
    if operator.isLogical then foldCondition config (.binary origin operator left right)
    else do
      let left ← fold config left
      let right ← fold config right
      return .binary origin operator left right
  | .unary origin operator child =>
    if operator.isLogical then foldCondition config (.unary origin operator child)
    else do
      let child ← fold config child
      return .unary origin operator child
  | .sequence origin items => do
    let items ← foldItems config items
    return .sequence origin items
  | .address origin base offset => do
    let base ← fold config base
    let offset ← fold config offset
    Node.makeAddress origin base offset
  | .indexed origin base index scale offset => do
    let base ← fold config base
    let index ← fold config index
    let scale ← fold config scale
    let offset ← fold config offset
    Node.makeIndexed origin base index scale offset
  | .absolute origin place => do
    let place ← fold config place
    return .absolute origin place
  | .instruction origin opcode operands comment => do
    let operands ← foldAll config operands
    return .instruction origin opcode operands comment
  | .call origin name operands comment writtenName => do
    let operands ← foldAll config operands
    Node.makeCall origin name operands comment writtenName
  | .constant origin binding value => do
    let value ← fold config value
    return .constant origin binding value
  | .definition origin name parameters body => do
    let parameters ← foldAll config parameters
    let body ← fold config body
    return .definition origin name parameters body
  | .plain origin (.truth true) => return .plain origin (.truth true)
  | .plain _ value => refuse (.noProperty value.typeName "map_children")
  | leaf => return leaf

def foldAll (config : Configuration) : List Node → Fold (List Node)
  | [] => return []
  | node :: rest => do
    let first ← fold config node
    let others ← foldAll config rest
    return first :: others

def foldItems (config : Configuration) : List Node → Fold (List Node)
  | [] => return []
  | item :: rest => do
    let first ← fold config item
    let others ← foldItems config rest
    return splice first others

end

end Folding

def Node.foldedWith (tree : Node) (config : Configuration) : Checked (Node × FoldCounts) :=
  let (outcome, counts) := (Folding.fold config tree).perform {}
  outcome.map fun result => (result, counts)

end MacroAssembler
