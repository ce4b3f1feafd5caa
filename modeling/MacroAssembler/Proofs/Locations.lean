/-
This module takes the locations out of a tree.

Nodes that go by a name are interned, and show the location of their first occurrence. Nothing but
diagnostics shows a location, except that a trap says where it stands; the location of a trap is
therefore kept or given up as well, whatever is needed. What a tree says does not depend on the
locations it carries: its written form, the classes of its nodes, the statements it is made of and
the identities of its names stay the same, and its parts lose their locations with it.
-/
import MacroAssembler.Expansion.Frame
import MacroAssembler.Proofs.Construction

namespace MacroAssembler

open List

def Variable.placeless (binding : Variable) : Variable := { binding with origin := .nowhere }

def Label.placeless (mark : Label) : Label := { mark with origin := .nowhere }

def LocalLabel.placeless (mark : LocalLabel) : LocalLabel := { mark with origin := .nowhere }

@[simp]
theorem Variable.name_placeless (binding : Variable) : binding.placeless.name = binding.name := rfl

@[simp]
theorem Label.name_placeless (mark : Label) : mark.placeless.name = mark.name := rfl

@[simp]
theorem LocalLabel.name_placeless (mark : LocalLabel) : mark.placeless.name = mark.name := rfl

namespace Node

mutual

/-- A tree without its locations, except those of traps, which are moved. -/
def stripped (traps : Origin → Origin) : Node → Node
  | .immediate _ value => .immediate .nowhere value
  | .text _ value => .text .nowhere value
  | .register _ kind name => .register .nowhere kind name
  | .var binding => .var binding.placeless
  | .layout _ which => .layout .nowhere which
  | .setting _ name => .setting .nowhere name
  | .truth value => .truth value
  | .address _ base offset => .address .nowhere (base.stripped traps) (offset.stripped traps)
  | .indexed _ base index scale offset =>
    .indexed .nowhere (base.stripped traps) (index.stripped traps) (scale.stripped traps)
      (offset.stripped traps)
  | .absolute _ place => .absolute .nowhere (place.stripped traps)
  | .binary _ operator left right =>
    .binary .nowhere operator (left.stripped traps) (right.stripped traps)
  | .unary _ operator child => .unary .nowhere operator (child.stripped traps)
  | .label mark => .label mark.placeless
  | .localLabel mark => .localLabel mark.placeless
  | .labelReference _ mark offset => .labelReference .nowhere mark.placeless offset
  | .localReference _ mark => .localReference .nowhere mark.placeless
  | .instruction _ opcode operands comment =>
    .instruction .nowhere opcode (strippedAll traps operands) comment
  | .call _ name operands comment writtenName =>
    .call .nowhere name (strippedAll traps operands) comment writtenName
  | .sequence _ items => .sequence .nowhere (strippedAll traps items)
  | .conditional _ predicate thenCase elseCase =>
    .conditional .nowhere (predicate.stripped traps) (thenCase.stripped traps)
      (elseCase.stripped traps)
  | .skip _ => .skip .nowhere
  | .trap origin => .trap (traps origin)
  | .constant _ binding value =>
    .constant .nowhere binding.placeless (value.stripped traps)
  | .definition _ name parameters body =>
    .definition .nowhere name (strippedAll traps parameters) (body.stripped traps)
  | .plain _ value => .plain .nowhere value

def strippedAll (traps : Origin → Origin) : List Node → List Node
  | [] => []
  | node :: rest => node.stripped traps :: strippedAll traps rest

end

variable {traps : Origin → Origin}

@[simp]
theorem strippedAll_eq_map (nodes : List Node) :
    strippedAll traps nodes = nodes.map (stripped traps) := by
  induction nodes with
  | nil => rfl
  | cons node rest ih =>
    rw [strippedAll, ih, map_cons]

theorem children_stripped (node : Node) :
    (node.stripped traps).children = node.children.map (stripped traps) := by
  cases node <;> simp [stripped, children]

/-! ### Classes -/

theorem sameClasses_stripped (node : Node) : (node.stripped traps).SameClasses node := by
  cases node <;> constructor <;> rfl

@[simp]
theorem isRegister_stripped (node : Node) : (node.stripped traps).isRegister = node.isRegister := by
  cases node <;> rfl

@[simp]
theorem isVariable_stripped (node : Node) : (node.stripped traps).isVariable = node.isVariable :=
  (sameClasses_stripped node).isVariable

@[simp]
theorem isSkip_stripped (node : Node) : (node.stripped traps).isSkip = node.isSkip :=
  (sameClasses_stripped node).skip

@[simp]
theorem isImmediate_stripped (node : Node) :
    (node.stripped traps).isImmediate = node.isImmediate := by
  cases node with
  | plain origin value =>
    cases value with
    | truth value => cases value <;> rfl
    | _ => rfl
  | _ => rfl

@[simp]
theorem isOpaque_stripped (node : Node) : (node.stripped traps).isOpaque = node.isOpaque := by
  cases node with
  | plain origin value =>
    cases value with
    | truth value => cases value <;> rfl
    | _ => rfl
  | _ => rfl

@[simp]
theorem symbolKey?_stripped (node : Node) : (node.stripped traps).symbolKey? = node.symbolKey? := by
  cases node with
  | register origin kind name => cases kind <;> rfl
  | layout origin which => cases which <;> rfl
  | _ => rfl

/-! ### Texts -/

theorem spellings_stripped {nodes : List Node}
    (each : ∀ node ∈ nodes, (node.stripped traps).spelling = node.spelling) :
    spellings (nodes.map (stripped traps)) = spellings nodes := by
  induction nodes with
  | nil => rfl
  | cons node rest ih =>
    obtain ⟨first, others⟩ := forall_mem_cons.mp each
    rw [map_cons, spellings, spellings, first, ih others]

@[simp]
theorem spelling_stripped (node : Node) : (node.stripped traps).spelling = node.spelling := by
  induction node with
  | step node ih =>
    cases node with
    | address | indexed | absolute | binary | unary | conditional =>
      simp only [children, forall_mem_cons] at ih
      simp [stripped, spelling, ih]
    | instruction | call | sequence =>
      simp only [children] at ih
      simp only [stripped, strippedAll_eq_map, spelling, spellings_stripped ih]
    | constant origin binding value =>
      simp only [children, forall_mem_cons] at ih
      simp only [stripped, spelling, ih.2.1]
      rfl
    | definition origin name parameters body =>
      simp only [children, forall_mem_append, forall_mem_singleton] at ih
      simp only [stripped, strippedAll_eq_map, spelling, spellings_stripped ih.1, ih.2]
    | plain origin value =>
      cases value with
      | truth value => cases value <;> rfl
      | _ => rfl
    | _ => rfl

@[simp]
theorem dump_stripped (node : Node) : (node.stripped traps).dump = node.dump := by
  rw [dump, spelling_stripped, dump]

@[simp]
theorem construct_stripped (node : Node) : (node.stripped traps).construct = node.construct := by
  simp only [construct, spelledText, spelling_stripped]

/-! ### Parts -/

theorem statements_stripped (node : Node) :
    (node.stripped traps).statements = node.statements.map (stripped traps) := by
  induction node with
  | step node ih =>
    cases node with
    | sequence origin items =>
      simp only [stripped, statements, strippedAll_eq_map]
      induction items with
      | nil => rfl
      | cons item rest restIh =>
        obtain ⟨first, others⟩ := forall_mem_cons.mp ih
        rw [map_cons, statementsOf, statementsOf, first, restIh others, map_append]
    | _ => rfl

theorem flattenAll_stripped {nodes : List Node}
    (each : ∀ node ∈ nodes, (node.stripped traps).flatten = node.flatten.map (stripped traps)) :
    flattenAll (nodes.map (stripped traps)) = (flattenAll nodes).map (stripped traps) := by
  induction nodes with
  | nil => rfl
  | cons node rest ih =>
    obtain ⟨first, others⟩ := forall_mem_cons.mp each
    rw [map_cons, flattenAll, flattenAll, first, ih others, map_append]

theorem flatten_stripped (node : Node) :
    (node.stripped traps).flatten = node.flatten.map (stripped traps) := by
  induction node with
  | step node ih =>
    rw [flatten_eq, flatten_eq node, children_stripped, flattenAll_stripped ih, map_cons]

theorem localLabels_stripped (node : Node) :
    (node.stripped traps).localLabels = node.localLabels.map LocalLabel.placeless := by
  induction node with
  | step node ih =>
    cases node with
    | sequence origin items =>
      simp only [stripped, localLabels, strippedAll_eq_map]
      induction items with
      | nil => rfl
      | cons item rest restIh =>
        obtain ⟨first, others⟩ := forall_mem_cons.mp ih
        rw [map_cons, localLabelsOf, localLabelsOf, first, restIh others, map_append]
    | conditional =>
      simp only [children, forall_mem_cons] at ih
      simp [stripped, localLabels, ih]
    | _ => rfl

theorem stripped_stripped (first second : Origin → Origin) (node : Node) :
    (node.stripped first).stripped second = node.stripped fun origin => second (first origin) := by
  induction node with
  | step node ih =>
    have all : ∀ nodes : List Node, (∀ child ∈ nodes, child ∈ node.children) →
        (nodes.map (stripped first)).map (stripped second) =
          nodes.map (stripped fun origin => second (first origin)) := by
      intro nodes inside
      rw [map_map]
      exact map_congr_left fun child mem => ih child (inside child mem)
    cases node with
    | binary | unary | address | indexed | absolute | conditional =>
      simp only [children, forall_mem_cons] at ih
      simp only [stripped, ih]
    | constant origin binding value =>
      simp only [stripped, ih value (by simp [children])]
      rfl
    | instruction origin opcode nodes | call origin name nodes | sequence origin nodes =>
      simp only [stripped, strippedAll_eq_map, all nodes fun _ mem => mem]
    | definition origin name parameters body =>
      simp only [stripped, strippedAll_eq_map, ih body (by simp [children]),
        all parameters fun _ mem => by simp [children, mem]]
    | _ => rfl

abbrev placeless (node : Node) : Node := node.stripped fun _ => .nowhere

@[simp]
theorem origin_placeless (node : Node) : node.placeless.origin = .nowhere := by
  cases node <;> rfl

/-! ### Traps with their locations -/

mutual

def unlocated : Node → Node
  | .immediate _ value => .immediate .nowhere value
  | .text _ value => .text .nowhere value
  | .register _ kind name => .register .nowhere kind name
  | .var binding => .var { binding with origin := .nowhere }
  | .layout _ which => .layout .nowhere which
  | .setting _ name => .setting .nowhere name
  | .truth value => .truth value
  | .address _ base offset => .address .nowhere base.unlocated offset.unlocated
  | .indexed _ base index scale offset =>
    .indexed .nowhere base.unlocated index.unlocated scale.unlocated offset.unlocated
  | .absolute _ place => .absolute .nowhere place.unlocated
  | .binary _ operator left right => .binary .nowhere operator left.unlocated right.unlocated
  | .unary _ operator child => .unary .nowhere operator child.unlocated
  | .label mark => .label { mark with origin := .nowhere }
  | .localLabel mark => .localLabel { mark with origin := .nowhere }
  | .labelReference _ mark offset =>
    .labelReference .nowhere { mark with origin := .nowhere } offset
  | .localReference _ mark => .localReference .nowhere { mark with origin := .nowhere }
  | .instruction _ opcode operands comment =>
    .instruction .nowhere opcode (unlocatedAll operands) comment
  | .call _ name operands comment writtenName =>
    .call .nowhere name (unlocatedAll operands) comment writtenName
  | .sequence _ items => .sequence .nowhere (unlocatedAll items)
  | .conditional _ predicate thenCase elseCase =>
    .conditional .nowhere predicate.unlocated thenCase.unlocated elseCase.unlocated
  | .skip _ => .skip .nowhere
  | .trap origin => .trap origin
  | .constant _ binding value =>
    .constant .nowhere { binding with origin := .nowhere } value.unlocated
  | .definition _ name parameters body =>
    .definition .nowhere name (unlocatedAll parameters) body.unlocated
  | .plain _ value => .plain .nowhere value

def unlocatedAll : List Node → List Node
  | [] => []
  | node :: rest => node.unlocated :: unlocatedAll rest

end

theorem unlocatedAll_eq_map (nodes : List Node) : unlocatedAll nodes = nodes.map unlocated := by
  induction nodes with
  | nil => rfl
  | cons node rest ih => rw [unlocatedAll, ih, map_cons]

/-- A tree in which the traps stay where they are has lost its other locations. -/
theorem unlocated_eq (node : Node) : node.unlocated = node.stripped id := by
  induction node with
  | step node ih =>
    have all : ∀ nodes : List Node, (∀ child ∈ nodes, child ∈ node.children) →
        nodes.map unlocated = nodes.map (stripped id) := fun nodes inside =>
      map_congr_left fun child mem => ih child (inside child mem)
    cases node with
    | binary | unary | address | indexed | absolute | conditional =>
      simp only [children, forall_mem_cons] at ih
      simp only [unlocated, stripped, ih]
    | constant origin binding value =>
      simp only [unlocated, stripped, ih value (by simp [children])]
      rfl
    | instruction origin opcode nodes | call origin name nodes | sequence origin nodes =>
      simp only [unlocated, stripped, unlocatedAll_eq_map, strippedAll_eq_map,
        all nodes fun _ mem => mem]
    | definition origin name parameters body =>
      simp only [unlocated, stripped, unlocatedAll_eq_map, strippedAll_eq_map,
        ih body (by simp [children]),
        all parameters fun _ mem => by simp [children, mem]]
    | _ => rfl

theorem sameClasses_unlocated (node : Node) : node.unlocated.SameClasses node := by
  rw [unlocated_eq]
  exact sameClasses_stripped node

theorem spelling_unlocated (node : Node) : node.unlocated.spelling = node.spelling := by
  rw [unlocated_eq, spelling_stripped]

theorem dump_unlocated (node : Node) : node.unlocated.dump = node.dump := by
  rw [unlocated_eq, dump_stripped]

theorem statements_unlocated (node : Node) :
    node.unlocated.statements = node.statements.map unlocated := by
  rw [unlocated_eq, statements_stripped]
  exact map_congr_left fun stmt _ => (unlocated_eq stmt).symm

theorem placeless_unlocated (node : Node) : node.unlocated.placeless = node.placeless := by
  rw [unlocated_eq, placeless, stripped_stripped]

end Node

end MacroAssembler
