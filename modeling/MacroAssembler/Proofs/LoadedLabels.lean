/-
This module proves that loading a document makes exactly the labels internal that the loaded tree
writes, templates left out.

Only a request to the table for the definition of a label can make a label internal, and it does so
for the label that is put into the tree.
-/
import MacroAssembler.Proofs.Labels
import MacroAssembler.Proofs.LoadedTrees
import MacroAssembler.Proofs.WrittenLabels

namespace MacroAssembler

open List Node

/-! ### What a table records -/

namespace SymbolTable

/-- Whether the labels that become internal from one table to another are those that some nodes
write, templates left out. -/
def Records (before after : SymbolTable) (nodes : List Node) : Prop :=
  ∀ name, after.IsInternal name ↔
    before.IsInternal name ∨ (∃ node ∈ nodes, node.Writes name) ∧ isTemplate name = false

variable {before middle after table : SymbolTable} {nodes others : List Node} {node : Node}
  {name : String}

theorem Records.none (kept : ∀ name, after.IsInternal name ↔ before.IsInternal name) :
    before.Records after [] := by
  intro name
  simp [kept]

theorem Records.silent (kept : ∀ name, after.IsInternal name ↔ before.IsInternal name)
    (silent : ∀ name, ¬ node.Writes name) : before.Records after [node] := by
  intro name
  simp [kept, silent]

theorem Records.append (first : before.Records middle nodes)
    (second : middle.Records after others) : before.Records after (nodes ++ others) := by
  intro name
  rw [second, first]
  simp only [mem_append, or_and_right, exists_or, or_assoc]

theorem Records.wrap (records : before.Records after nodes) (notLabel : node.isLabel = false)
    (notReference : node.isReference = false)
    (parts : ∀ part, part ∈ node.children ↔ part ∈ nodes) : before.Records after [node] := by
  intro name
  rw [records]
  simp only [mem_singleton, exists_eq_left, writes_iff notLabel notReference, parts]

variable {key : SymbolKey}

theorem children_of_symbolKey? (keyed : node.symbolKey? = some key) : node.children = [] := by
  unfold symbolKey? at keyed
  split at keyed <;> first | rfl | cases keyed

theorem isLabel_of_symbolKey? (keyed : node.symbolKey? = some (.label name)) :
    node.isLabel = true := by
  unfold symbolKey? at keyed
  split at keyed <;> cases keyed
  rfl

theorem not_writes_intern (silent : ¬ node.Writes name) (notLabel : node.isLabel = false) :
    ¬ (table.intern node).1.Writes name := by
  unfold intern
  split
  · exact silent
  · rename_i key keyed
    split
    · rename_i known found
      have matching := find?_some found
      have knownKey : known.symbolKey? = some key := of_decide_eq_true matching
      rintro (same | ⟨-, mem, -⟩)
      · rw [isLabel_of_symbolKey? (keyed.trans knownKey.symm)] at notLabel
        cases notLabel
      · rw [children_of_symbolKey? knownKey] at mem
        cases mem
    · exact silent

theorem isLabel_of_unkeyed (unkeyed : node.symbolKey? = .none) : node.isLabel = false := by
  cases node with
  | label | localLabel => cases unkeyed
  | _ => rfl

theorem not_writes_leaf (leaf : node.children = []) (notLabel : node.isLabel = false)
    (notReference : node.isReference = false) : ¬ node.Writes name := by
  rw [writes_iff notLabel notReference, leaf]
  simp

theorem isReference_of_symbolKey? (keyed : node.symbolKey? = some key) :
    node.isReference = false := by
  cases node with
  | labelReference | localReference => cases keyed
  | _ => rfl

/-- Loading makes exactly the labels internal that the loaded nodes write. -/
theorem Loads.records (loads : before.Loads nodes after) : before.Records after nodes := by
  induction loads with
  | none => exact .none fun _ => Iff.rfl
  | append _ _ first second => exact first.append second
  | node _ _ unkeyed notReference same records =>
    exact records.wrap (isLabel_of_unkeyed unkeyed) notReference same
  | plain | truth => exact .silent (fun _ => Iff.rfl) fun _ => not_writes_leaf rfl rfl rfl
  | intern keyed notLabel =>
    refine .silent (fun _ => isInternal_intern _) fun _ => not_writes_intern ?_ notLabel
    exact not_writes_leaf (children_of_symbolKey? keyed) notLabel (isReference_of_symbolKey? keyed)
  | label name origin =>
    intro other
    rw [isInternal_labelDefinition]
    simp only [mem_singleton, exists_eq_left, writes_label, labelDefinition_name]
    constructor <;> rintro (internal | ⟨rfl, literal⟩)
    exacts [.inl internal, .inr ⟨rfl, literal⟩, .inl internal, .inr ⟨rfl, literal⟩]
  | localLabel =>
    exact .silent (fun _ => isInternal_localLabel _ _) fun _ => not_writes_localLabel
  | labelReference name origin offset =>
    exact .silent (fun _ => (uses_labelReference origin offset).isInternal) fun _ =>
      not_writes_reference rfl
  | localReference =>
    exact .silent (fun _ => isInternal_localLabel _ _) fun _ => not_writes_reference rfl
  | use name origin =>
    exact .none fun _ => ((uses_label _ name origin).trans uses_noteUse).isInternal
  | declare declaration name origin => exact .none fun _ => isInternal_declare _ origin

end SymbolTable

end MacroAssembler
