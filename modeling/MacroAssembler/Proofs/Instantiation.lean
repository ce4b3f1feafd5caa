/-
This module puts operands in the place of names.

Instantiating a tree replaces the names that are given an operand, except below a macro that binds
the name itself. It is what a macro invocation means on paper. Expansion does something else: it
leaves the body as it is, and looks names up in scopes.

For the two to come to the same, the tree has to keep some rules. A name that is replaced must not
be declared as a constant, must not be part of a label name, and must not stand in the predicate of a
conditional, which expansion leaves alone. And an operand must not come to stand inside a macro that
renames a local label which the operand refers to. An operand that replaces a name must itself have
nothing in it that expansion would look up.
-/
import MacroAssembler.Proofs.FinishedUnits

namespace MacroAssembler

open Expander List

/-- The operands that stand for some names. -/
abbrev Assignment := String → Option Node

namespace Assignment

def empty : Assignment := fun _ => none

def without (given : Assignment) (parameters : List Node) : Assignment := fun name =>
  if parameters.any fun parameter => decide (boundName? parameter = some name) then none
  else given name

theorem without_eq_none {given : Assignment} {name : String} (parameters : List Node)
    (missing : given name = none) : given.without parameters name = none := by
  unfold without
  split
  · rfl
  · exact missing

theorem without_eq_some {given : Assignment} {parameters : List Node} {name : String} {node : Node}
    (found : given.without parameters name = some node) : given name = some node := by
  unfold without at found
  split at found
  · cases found
  · exact found

@[simp]
theorem empty_without (parameters : List Node) : empty.without parameters = empty :=
  funext fun _ => without_eq_none parameters rfl

end Assignment

namespace Node

/-! ### Instances of a tree -/

mutual

/-- A tree with operands in the place of names. The names that a macro binds stay as they are below
it. -/
def instantiate (given : Assignment) : Node → Node
  | .var binding => (given binding.name).getD (.var binding)
  | .address origin base offset =>
    .address origin (base.instantiate given) (offset.instantiate given)
  | .indexed origin base index scale offset =>
    .indexed origin (base.instantiate given) (index.instantiate given) (scale.instantiate given)
      (offset.instantiate given)
  | .absolute origin place => .absolute origin (place.instantiate given)
  | .binary origin operator left right =>
    .binary origin operator (left.instantiate given) (right.instantiate given)
  | .unary origin operator child => .unary origin operator (child.instantiate given)
  | .instruction origin opcode operands comment =>
    .instruction origin opcode (instantiateAll given operands) comment
  | .call origin name operands comment writtenName =>
    .call origin name (instantiateAll given operands) comment writtenName
  | .sequence origin items => .sequence origin (instantiateAll given items)
  | .conditional origin predicate thenCase elseCase =>
    .conditional origin (predicate.instantiate given) (thenCase.instantiate given)
      (elseCase.instantiate given)
  | .constant origin binding value => .constant origin binding (value.instantiate given)
  | .definition origin name parameters body =>
    .definition origin name parameters (body.instantiate (given.without parameters))
  | leaf => leaf

def instantiateAll (given : Assignment) : List Node → List Node
  | [] => []
  | node :: rest => node.instantiate given :: instantiateAll given rest

end

variable {given : Assignment} {hidden : List LocalLabel} {node : Node}

theorem instantiateAll_eq_map (given : Assignment) (nodes : List Node) :
    instantiateAll given nodes = nodes.map (instantiate given) := by
  induction nodes with
  | nil => rfl
  | cons node rest ih =>
    rw [instantiateAll, ih, map_cons]

def isGiven (given : Assignment) : Node → Bool
  | .var binding => (given binding.name).isSome
  | _ => false

theorem isGiven_without {parameters : List Node} (free : node.isGiven given = false) :
    node.isGiven (given.without parameters) = false := by
  cases node with
  | var binding =>
    simp only [isGiven, Option.isSome_eq_false_iff, Option.isNone_iff_eq_none] at free ⊢
    exact Assignment.without_eq_none parameters free
  | _ => rfl

/-- A tree in which no name stands for an operand is its own instance. -/
theorem instantiate_eq_self (node : Node) : ∀ given,
    (node.Throughout fun part => part.isGiven given = false) → node.instantiate given = node := by
  induction node with
  | step node ih =>
    intro given free
    have below : ∀ child ∈ node.children, child.instantiate given = child := fun child mem =>
      ih child mem given (free.below mem)
    have all : ∀ nodes : List Node, (∀ child ∈ nodes, child.instantiate given = child) →
        instantiateAll given nodes = nodes := by
      intro nodes each
      rw [instantiateAll_eq_map, map_congr_left each, List.map_id']
    cases node with
    | var binding =>
      have here := free.here
      simp only [isGiven, Option.isSome_eq_false_iff, Option.isNone_iff_eq_none] at here
      rw [instantiate, here, Option.getD_none]
    | instruction | call | sequence =>
      rw [children] at below
      rw [instantiate, all _ below]
    | constant origin binding value =>
      rw [instantiate, below value (by simp [children])]
    | definition origin name parameters body =>
      have mem : body ∈ (Node.definition origin name parameters body).children := by
        simp [children]
      rw [instantiate, ih body mem _ fun part inside =>
        isGiven_without (free.below mem part inside)]
    | address | indexed | absolute | binary | unary | conditional =>
      simp only [children, forall_mem_cons] at below
      simp only [instantiate, below]
    | _ => rfl

@[simp]
theorem instantiate_empty (node : Node) : node.instantiate .empty = node :=
  instantiate_eq_self node _ fun part _ => by cases part <;> rfl

/-! ### Operands that stand for names -/

def isTemplateLabel : Node → Bool
  | .label mark => SymbolTable.isTemplate mark.name
  | _ => false

/-- Whether an operand keeps the rules of the tree and has nothing in it that would be looked up,
except local labels. -/
structure IsGround (node : Node) : Prop where
  operand : node.isOperand
  expression : node.isExpression
  rules : node.Throughout KeepsRules
  closed : node.Throughout fun part => part.isVariable = false ∧ part.isTemplateLabel = false

theorem IsGround.isDefinition {node : Node} (ground : node.IsGround) : node.isDefinition = false := by
  have operand := ground.operand
  cases node <;> first | rfl | cases operand

def refersToOne (marks : List LocalLabel) : Node → Bool
  | .localReference _ mark => marks.any fun other => decide (other.name.key = mark.name.key)
  | _ => false

/-! ### Trees that can be instantiated -/

end Node

/-- Whether no name in the template of a label stands for an operand. -/
def Label.isFree (given : Assignment) (mark : Label) : Bool :=
  (Template.pieces mark.name).all fun piece =>
    match piece with
    | .literal _ => true
    | .parameter name => (given name).isNone

namespace Node

mutual

/-- Whether expansion does to a tree what it does to the instance of the tree. The local labels are
the ones that the macros around the tree rename. -/
def admits (given : Assignment) (hidden : List LocalLabel) : Node → Bool
  | .var binding => (given binding.name).all fun operand =>
    !operand.flatten.any (refersToOne hidden)
  | .label mark | .labelReference _ mark _ => mark.isFree given
  | .address _ base offset => base.admits given hidden && offset.admits given hidden
  | .indexed _ base index scale offset =>
    base.admits given hidden && index.admits given hidden && scale.admits given hidden &&
      offset.admits given hidden
  | .absolute _ place => place.admits given hidden
  | .binary _ _ left right => left.admits given hidden && right.admits given hidden
  | .unary _ _ child => child.admits given hidden
  | .instruction _ _ operands _ => admitsAll given hidden operands
  | .call _ _ operands _ _ => admitsAll given hidden operands
  | .sequence _ items => admitsAll given hidden items
  | .conditional _ predicate thenCase elseCase =>
    !predicate.flatten.any (isGiven given) && predicate.admits given hidden &&
      thenCase.admits given hidden && elseCase.admits given hidden
  | .constant _ binding value => (given binding.name).isNone && value.admits given hidden
  | .definition _ _ parameters body =>
    body.admits (given.without parameters) (hidden ++ body.localLabels)
  | _ => true

def admitsAll (given : Assignment) (hidden : List LocalLabel) : List Node → Bool
  | [] => true
  | node :: rest => node.admits given hidden && admitsAll given hidden rest

end

variable {given : Assignment} {hidden : List LocalLabel} {node : Node}

theorem admitsAll_eq_all (given : Assignment) (hidden : List LocalLabel) (nodes : List Node) :
    admitsAll given hidden nodes = nodes.all (admits given hidden) := by
  induction nodes with
  | nil => rfl
  | cons node rest ih => rw [admitsAll, ih, List.all_cons]

theorem admits_children (admitted : node.admits given hidden)
    (notDefinition : node.isDefinition = false)
    {child : Node} (mem : child ∈ node.children) : child.admits given hidden := by
  cases node with
  | definition => cases notDefinition
  | address | indexed | absolute | binary | unary =>
    simp only [admits, Bool.and_eq_true] at admitted
    simp only [children, mem_cons, not_mem_nil, or_false] at mem
    aesop
  | conditional =>
    simp only [admits, Bool.and_eq_true] at admitted
    simp only [children, mem_cons, not_mem_nil, or_false] at mem
    aesop
  | instruction | call | sequence =>
    rw [admits, admitsAll_eq_all, all_eq_true] at admitted
    exact admitted child mem
  | constant origin binding value =>
    simp only [admits, Bool.and_eq_true, Option.isNone_iff_eq_none] at admitted
    simp only [children, mem_cons, not_mem_nil, or_false] at mem
    rcases mem with rfl | rfl
    · rw [admits, admitted.1, Option.all_none]
    · exact admitted.2
  | labelReference origin mark offset =>
    obtain rfl := mem_singleton.mp mem
    exact admitted
  | localReference origin mark =>
    obtain rfl := mem_singleton.mp mem
    rfl
  | _ => cases mem

theorem admits_empty (node : Node) : ∀ hidden, node.admits .empty hidden := by
  induction node with
  | step node ih =>
    intro hidden
    have below : ∀ child ∈ node.children, child.admits .empty hidden := fun child mem =>
      ih child mem hidden
    cases node with
    | var => rfl
    | label mark | labelReference _ mark =>
      rw [admits, Label.isFree, all_eq_true]
      rintro (_ | _) - <;> rfl
    | instruction | call | sequence =>
      rw [admits, admitsAll_eq_all, all_eq_true]
      exact below
    | definition origin name parameters body =>
      rw [admits, Assignment.empty_without]
      exact ih body (by simp [children]) _
    | conditional origin predicate thenCase elseCase =>
      have unreplaced : predicate.flatten.any (isGiven .empty) = false := by
        rw [any_eq_false]
        rintro (_ | _) - <;> simp [isGiven, Assignment.empty]
      simp only [children, forall_mem_cons] at below
      simp only [admits, unreplaced, below, Bool.not_false, Bool.and_self]
    | constant =>
      simp only [children, forall_mem_cons] at below
      simp only [admits, below]
      rfl
    | address | indexed | absolute | binary | unary =>
      simp only [children, forall_mem_cons] at below
      simp only [admits, below, Bool.and_self]
    | _ => rfl

theorem children_instantiate (admitted : node.admits given hidden)
    (notVariable : node.isVariable = false) (notDefinition : node.isDefinition = false) :
    (node.instantiate given).children = node.children.map (instantiate given) := by
  cases node with
  | var => cases notVariable
  | definition => cases notDefinition
  | instruction | call | sequence => simp only [instantiate, children, instantiateAll_eq_map]
  | constant origin binding value =>
    simp only [admits, Bool.and_eq_true, Option.isNone_iff_eq_none] at admitted
    simp [instantiate, children, admitted.1]
  | _ => rfl

theorem sameHead_instantiate (notVariable : node.isVariable = false)
    (notDefinition : node.isDefinition = false) : node.SameHead (node.instantiate given) := by
  intro parts sameNumber
  cases node with
  | var => cases notVariable
  | definition => cases notDefinition
  | address | binary =>
    match parts, sameNumber with
    | [_, _], _ => rfl
  | indexed =>
    match parts, sameNumber with
    | [_, _, _, _], _ => rfl
  | absolute | unary =>
    match parts, sameNumber with
    | [_], _ => rfl
  | conditional =>
    match parts, sameNumber with
    | [_, _, _], _ => rfl
  | constant =>
    match parts, sameNumber with
    | [_, _], _ => rfl
  | _ => rfl

theorem localLabels_instantiate (operands : ∀ name operand, given name = some operand →
      operand.isOperand) (node : Node) :
    (node.instantiate given).localLabels = node.localLabels := by
  induction node with
  | step node ih =>
    cases node with
    | var binding =>
      rw [instantiate]
      cases found : given binding.name with
      | none => rfl
      | some operand =>
        have kind := operands _ _ found
        cases operand <;> first | rfl | cases kind
    | sequence origin items =>
      rw [instantiate, localLabels, localLabels]
      induction items with
      | nil => rfl
      | cons item rest restIh =>
        obtain ⟨first, others⟩ := forall_mem_cons.mp ih
        rw [instantiateAll, localLabelsOf, localLabelsOf, first, restIh others]
    | conditional origin predicate thenCase elseCase =>
      simp only [children, forall_mem_cons] at ih
      simp only [instantiate, localLabels, ih]
    | _ => rfl

end Node

namespace Definition

/-- A macro with operands in the place of the names that it does not bind. -/
def instantiate (given : Assignment) (definition : Definition) : Definition :=
  { definition with body := definition.body.instantiate (given.without definition.parameters) }

def admits (given : Assignment) (hidden : List LocalLabel) (definition : Definition) : Bool :=
  definition.body.admits (given.without definition.parameters)
    (hidden ++ definition.body.localLabels)

@[simp]
theorem instantiate_empty (definition : Definition) : definition.instantiate .empty = definition := by
  rw [instantiate, Assignment.empty_without, Node.instantiate_empty]

theorem admits_empty (hidden : List LocalLabel) (definition : Definition) :
    definition.admits .empty hidden := by
  rw [admits, Assignment.empty_without]
  exact Node.admits_empty _ _

end Definition

end MacroAssembler
