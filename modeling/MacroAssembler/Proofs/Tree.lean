/-
This module holds the two ways in which a property of trees is proved: for all trees by induction
over their immediate parts, and for all nodes of a tree by looking at the node and at the nodes of
its parts.
-/
import MacroAssembler.Node.Build

namespace MacroAssembler.Node

open List

variable {node child part : Node} {property : Node → Prop}

theorem sizeOf_lt_of_mem_children (mem : child ∈ node.children) : sizeOf child < sizeOf node := by
  cases node with
  | address | indexed | absolute | binary | unary | conditional =>
    simp only [children, mem_cons, not_mem_nil, or_false] at mem
    rcases mem with rfl | rfl | rfl | rfl <;> simp <;> omega
  | labelReference origin mark offset =>
    simp only [children, mem_cons, not_mem_nil, or_false] at mem
    cases origin
    subst mem
    simp
    omega
  | localReference origin mark =>
    simp only [children, mem_cons, not_mem_nil, or_false] at mem
    cases origin
    subst mem
    simp only [localReference.sizeOf_spec, localLabel.sizeOf_spec, Origin.mk.sizeOf_spec]
    omega
  | constant origin binding value =>
    simp only [children, mem_cons, not_mem_nil, or_false] at mem
    cases origin
    rcases mem with rfl | rfl <;> simp <;> omega
  | instruction | call | sequence =>
    simp only [children] at mem
    have smaller := List.sizeOf_lt_of_mem mem
    simp
    omega
  | definition origin name parameters body =>
    simp only [children, mem_append, mem_cons, not_mem_nil, or_false] at mem
    rcases mem with mem | rfl
    · have smaller := List.sizeOf_lt_of_mem mem
      simp only [definition.sizeOf_spec]
      omega
    · simp only [definition.sizeOf_spec]
      omega
  | _ => cases mem

@[elab_as_elim, induction_eliminator]
theorem inductionOnParts {motive : Node → Prop}
    (step : ∀ node, (∀ child ∈ node.children, motive child) → motive node) (node : Node) :
    motive node :=
  step node fun child _member => inductionOnParts step child
termination_by sizeOf node
decreasing_by exact sizeOf_lt_of_mem_children _member

/-! ### All nodes of a tree -/

theorem flattenAll_append (first second : List Node) :
    flattenAll (first ++ second) = flattenAll first ++ flattenAll second := by
  induction first with
  | nil => rfl
  | cons node rest ih =>
    rw [cons_append, flattenAll, flattenAll, ih, append_assoc]

theorem mem_flattenAll {nodes : List Node} :
    part ∈ flattenAll nodes ↔ ∃ node ∈ nodes, part ∈ node.flatten := by
  induction nodes with
  | nil => simp [flattenAll]
  | cons node rest ih =>
    rw [flattenAll, mem_append, ih]
    simp

theorem flatten_eq (node : Node) : node.flatten = node :: flattenAll node.children := by
  cases node <;> simp [flatten, flattenAll, children, flattenAll_append]

theorem flatten_subset (mem : child ∈ node.children) : child.flatten ⊆ node.flatten := by
  rw [flatten_eq node]
  exact fun part inside => mem_cons_of_mem _ (mem_flattenAll.mpr ⟨child, mem, inside⟩)

def Throughout (property : Node → Prop) (tree : Node) : Prop :=
  ∀ part ∈ tree.flatten, property part

/-- A property holds throughout a tree when the topmost node has it and it holds throughout the
immediate parts. -/
theorem throughout_iff : node.Throughout property ↔
      property node ∧ ∀ child ∈ node.children, child.Throughout property := by
  unfold Throughout
  rw [flatten_eq]
  constructor
  · intro everywhere
    refine ⟨everywhere node mem_cons_self, fun child mem part inside => ?_⟩
    exact everywhere part (mem_cons_of_mem _ (mem_flattenAll.mpr ⟨child, mem, inside⟩))
  · rintro ⟨here, below⟩ part mem
    rcases mem_cons.mp mem with rfl | inside
    · exact here
    · obtain ⟨child, childMem, partMem⟩ := mem_flattenAll.mp inside
      exact below child childMem part partMem

theorem Throughout.here (everywhere : node.Throughout property) : property node :=
  (throughout_iff.mp everywhere).1

theorem Throughout.below (everywhere : node.Throughout property) (mem : child ∈ node.children) :
    child.Throughout property :=
  (throughout_iff.mp everywhere).2 child mem

theorem mem_statementsOf {items : List Node} :
    part ∈ statementsOf items ↔ ∃ item ∈ items, part ∈ item.statements := by
  induction items with
  | nil => simp [statementsOf]
  | cons item rest ih =>
    rw [statementsOf, mem_append, ih]
    simp

theorem Throughout.statement {tree : Node} (everywhere : tree.Throughout property)
    (mem : part ∈ tree.statements) : part.Throughout property := by
  induction tree with
  | step node ih =>
    cases node with
    | sequence origin items =>
      obtain ⟨item, itemMem, inside⟩ := mem_statementsOf.mp mem
      exact ih item itemMem (everywhere.below itemMem) inside
    | _ =>
      obtain rfl := mem_singleton.mp mem
      exact everywhere

end MacroAssembler.Node
