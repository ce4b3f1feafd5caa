/-
This module says what it means that a tree is built by the rules. Folding and expansion carry it
along.

Six kinds of nodes have a rule about their parts. A node of such a kind has the shape that its rule
is about, and a tree is built if the parts of all its nodes are admitted by their shapes. The
functions that build nodes either give the node that was asked for or fail, and they give it exactly
if the shape admits the parts.
-/
import MacroAssembler.Proofs.CarriedProperties
import MacroAssembler.Proofs.Interning

namespace MacroAssembler

open Action List Node

/-! ### Rules -/

/-- The kinds of nodes that have a rule about their parts. -/
inductive Shape
  | address
  | indexed
  | call
  | constant
  | labelReference
  | localReference
deriving DecidableEq, Repr

namespace Node

/-- Whether a node in the place of a scale is 1, 2, 4 or 8 if it is literal: an immediate, or a
bare truth value, of which true counts as one. -/
def IsLegalScale : Node → Prop
  | .immediate _ value => value = 1 ∨ value = 2 ∨ value = 4 ∨ value = 8
  | .plain _ (.truth value) => value = true
  | _ => True

def isUnitLabel : Node → Bool
  | .label _ => true
  | _ => false

def isLocalLabel : Node → Bool
  | .localLabel _ => true
  | _ => false

def shape? : Node → Option Shape
  | .address .. => some .address
  | .indexed .. => some .indexed
  | .call .. => some .call
  | .constant .. => some .constant
  | .labelReference .. => some .labelReference
  | .localReference .. => some .localReference
  | _ => none

end Node

def Shape.Admits : Shape → List Node → Prop
  | .address, [base, offset] =>
    (base.isRegister ∨ base.isVariable) ∧ (offset.isImmediate ∨ offset.isVariable)
  | .indexed, [base, index, scale, offset] =>
    (base.isRegister ∨ base.isVariable) ∧ (index.isRegister ∨ index.isVariable) ∧
      scale.IsLegalScale ∧ (offset.isImmediate ∨ offset.isVariable)
  | .call, operands => operands ≠ []
  | .constant, [declared, _] => declared.isVariable
  | .labelReference, [target] => target.isUnitLabel
  | .localReference, [target] => target.isLocalLabel
  | _, _ => False

namespace Node

def KeepsShape (node : Node) : Prop :=
  ∀ shape, node.shape? = some shape → shape.Admits node.children

/-- Whether the parts of all nodes of a tree are admitted by their shapes. -/
abbrev IsBuilt (tree : Node) : Prop := tree.Throughout KeepsShape

variable {node : Node}

theorem isAddressPart_iff : node.isAddressPart = true ↔ node.isRegister ∨ node.isVariable := by
  simp [isAddressPart, or_comm]

theorem isOffset_iff : node.isOffset = true ↔ node.isImmediate ∨ node.isVariable := by
  simp [isOffset, or_comm]

theorem isScale_iff : node.isScale = true ↔ node.IsLegalScale := by
  cases node with
  | immediate origin value =>
    unfold isScale IsLegalScale Scale.ofInt?
    by_cases one : value = 1
    · simp [one]
    by_cases two : value = 2
    · simp [two]
    by_cases four : value = 4
    · simp [four]
    by_cases eight : value = 8 <;> simp [one, two, four, eight]
  | plain origin value =>
    cases value with
    | truth value => cases value <;> simp [isScale, IsLegalScale]
    | _ => simp [isScale, IsLegalScale]
  | _ => simp [isScale, IsLegalScale]

theorem KeepsRules.keepsShape (keeps : node.KeepsRules) : node.KeepsShape := by
  intro shape shaped
  cases node with
  | address =>
    cases shaped
    exact ⟨isAddressPart_iff.mp keeps.1, isOffset_iff.mp keeps.2⟩
  | indexed =>
    cases shaped
    obtain ⟨base, index, offset, scale⟩ := keeps
    exact ⟨isAddressPart_iff.mp base, isAddressPart_iff.mp index, isScale_iff.mp scale,
      isOffset_iff.mp offset⟩
  | call =>
    cases shaped
    exact keeps
  | constant | labelReference | localReference =>
    cases shaped
    rfl
  | _ => cases shaped

theorem isBuilt_iff : node.IsBuilt ↔ node.KeepsShape ∧ ∀ child ∈ node.children, child.IsBuilt :=
  throughout_iff

theorem isBuilt_of_shapeless (shapeless : node.shape? = none)
    (parts : ∀ child ∈ node.children, child.IsBuilt) : node.IsBuilt := by
  refine isBuilt_iff.mpr ⟨fun shape shaped => ?_, parts⟩
  rw [shapeless] at shaped
  cases shaped

theorem isBuilt_leaf (shapeless : node.shape? = none) (leaf : node.children = []) :
    node.IsBuilt := by
  refine isBuilt_of_shapeless shapeless fun child mem => ?_
  rw [leaf] at mem
  cases mem

theorem isBuilt_reference (isReference : node.isReference) : node.IsBuilt := by
  cases node with
  | labelReference | localReference =>
    refine isBuilt_iff.mpr ⟨KeepsRules.keepsShape trivial, ?_⟩
    exact forall_mem_singleton.mpr (isBuilt_leaf rfl rfl)
  | _ => cases isReference

theorem isBuilt_of_symbolKey? {key : SymbolKey} (keyed : node.symbolKey? = some key) :
    node.IsBuilt := by
  refine isBuilt_leaf ?_ (SymbolTable.children_of_symbolKey? keyed)
  unfold symbolKey? at keyed
  split at keyed <;> first | rfl | cases keyed

/-- The nodes that passes make or build anew keep their rules. -/
instance : IsMade KeepsShape where
  made := by
    intro node made
    refine KeepsRules.keepsShape ?_
    cases node <;> trivial
  fresh _ _ _ := nofun

instance : IsCarried KeepsShape KeepsShape where
  kept := id
  rebuilt built sameNumber _ := (rebuild_ok built sameNumber).2.1.keepsShape

end Node

theorem SymbolTable.Loads.isBuilt {before after : SymbolTable} {nodes : List Node}
    (loads : before.Loads nodes after) : ∀ node ∈ nodes, node.IsBuilt := by
  induction loads with
  | none | use | declare => simp
  | append _ _ first second => exact forall_mem_append.mpr ⟨first, second⟩
  | node _ keeps _ _ same parts =>
    refine forall_mem_singleton.mpr (isBuilt_iff.mpr ⟨keeps.keepsShape, ?_⟩)
    exact fun child mem => parts child ((same child).mp mem)
  | plain | truth | label | localLabel =>
    exact forall_mem_singleton.mpr (isBuilt_leaf rfl rfl)
  | intern keyed _ =>
    exact forall_mem_singleton.mpr (isBuilt_of_symbolKey? (symbolKey?_intern.trans keyed))
  | labelReference | localReference =>
    exact forall_mem_singleton.mpr (isBuilt_reference rfl)

end MacroAssembler
