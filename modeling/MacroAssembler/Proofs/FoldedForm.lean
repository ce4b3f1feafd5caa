/-
This module proves that folding leaves a normal form.

A folded tree holds no conditional and no part of a condition, and its sequences hold neither
sequences nor statements without effect. So a folded tree keeps these rules as well, and folding it
once more, under any configuration, decides nothing, discards nothing and builds the same nodes
again.
-/
import MacroAssembler.Proofs.FoldRelation

namespace MacroAssembler

open Action List

/-! ### The normal form -/

namespace Node

/-- Whether a node is neither a conditional nor a part of a condition, and holds neither sequences
nor statements without effect if it is a sequence. -/
structure IsDecided (node : Node) : Prop where
  condition : node.isCondition = false
  conditional : node.isConditional = false
  spliced : node.isSequence → ∀ item ∈ node.children, item.isSequence = false ∧ item.isSkip = false

/-- Whether a node has the form that folding leaves and can be built again from its parts. -/
def IsSettled (node : Node) : Prop := node.IsDecided ∧ node.KeepsRules

theorem isDecided_of_not_sequence {node : Node} (condition : node.isCondition = false)
    (conditional : node.isConditional = false) (single : node.isSequence = false) :
    node.IsDecided :=
  ⟨condition, conditional, fun isSequence => by simp [single] at isSequence⟩

end Node

namespace Folding

open Node

variable {config : Configuration} {counts : FoldCounts}

/-! ### Folding reaches the normal form -/

/-- What a folded sequence holds: settled trees that are neither sequences nor statements without
effect. -/
def IsSplicedItem (item : Node) : Prop :=
  item.Throughout IsSettled ∧ item.isSequence = false ∧ item.isSkip = false

theorem splicedItem_splice {items : List Node}
    (settled : ∀ item ∈ items, item.Throughout IsSettled) :
    ∀ spliced ∈ items.foldr splice [], IsSplicedItem spliced := by
  induction items with
  | nil => simp
  | cons item rest ih =>
    obtain ⟨first, others⟩ := forall_mem_cons.mp settled
    rw [foldr_cons, splice_eq_append, forall_mem_append]
    refine ⟨fun spliced mem => ?_, ih others⟩
    cases item with
    | sequence origin items =>
      rw [splice, append_nil] at mem
      exact ⟨first.below mem, first.here.1.spliced rfl spliced mem⟩
    | skip origin => cases mem
    | _ =>
      obtain rfl := mem_singleton.mp mem
      exact ⟨first, rfl, rfl⟩

theorem settled_fold (tree : Node) : ∀ counts after result,
    (fold config tree).perform counts = (.ok result, after) → result.Throughout IsSettled := by
  intro counts after result ran
  have folds : FoldsTo config tree result := ⟨counts, after, ran⟩
  refine folds.induction (motive := fun _ result => result.Throughout IsSettled) ?condition
    (fun _ _ _ _ _ _ _ settled => settled) ?sequence ?parts
  case condition =>
    intro _ value _ _
    exact throughout_iff.mpr ⟨⟨isDecided_of_not_sequence rfl rfl rfl, trivial⟩, by simp [children]⟩
  case sequence =>
    intro origin items folded related
    have spliced := splicedItem_splice fun result mem =>
      (exists_left_of_forall₂ related result mem).elim fun _ => And.right
    exact throughout_iff.mpr ⟨⟨⟨rfl, rfl, fun _ item mem => (spliced item mem).2⟩, trivial⟩,
      fun item mem => (spliced item mem).1⟩
  case parts =>
    intro node result condition conditional single related built
    obtain ⟨-, keeps, sameClasses⟩ := rebuild_ok built related.length_eq.symm
    refine throughout_iff.mpr ⟨⟨isDecided_of_not_sequence ?_ ?_ ?_, keeps⟩, fun child mem => ?_⟩
    · rw [sameClasses.condition, condition]
    · rw [sameClasses.conditional, conditional]
    · rw [sameClasses.sequence, single]
    · exact (exists_left_of_forall₂ related child mem).elim fun _ => And.right

/-! ### The normal form is left alone -/

theorem fold_self (tree : Node) (settled : tree.Throughout IsSettled) :
    (fold config tree).perform counts = (.ok tree, counts) := by
  induction tree with
  | step node ih =>
    obtain ⟨⟨condition, conditional, spliced⟩, keeps⟩ := settled.here
    have parts : ∀ child ∈ node.children,
        (fold config child).perform counts = (.ok child, counts) :=
      fun child mem => ih child mem (settled.below mem)
    by_cases isSequence : node.isSequence
    · cases node with
      | sequence origin items =>
        have kept : items.foldr splice [] = items := by
          have flat := spliced rfl
          clear * - flat
          induction items with
          | nil => rfl
          | cons item rest restIh =>
            obtain ⟨⟨single, effective⟩, others⟩ := forall_mem_cons.mp flat
            rw [foldr_cons, restIh others, splice_of_single single effective]
        simp only [fold, foldItems_eq_mapM, perform_bind_ok, pure_ok]
        exact ⟨items, counts, ⟨items, counts, perform_mapM_self parts, kept, rfl⟩, rfl, rfl⟩
      | _ => cases isSequence
    · rw [Bool.not_eq_true] at isSequence
      rw [fold_eq_mapChildren condition conditional isSequence]
      exact mapChildren_self parts keeps

end Folding

open Node

/-- A folded tree holds no bare value, so all its nodes can be listed. -/
theorem walk_of_settled {tree : Node} (settled : tree.Throughout IsSettled) :
    tree.walk = .ok tree.flatten := by
  have plain : tree.flatten.find? isOpaque = none := by
    rw [find?_eq_none]
    intro part mem
    obtain ⟨-, keeps⟩ := settled part mem
    cases part with
    | plain origin value =>
      obtain rfl : value = .truth true := keeps
      simp [isOpaque]
    | _ => simp [isOpaque]
  rw [walk, plain]

/-- Folding decides everything and stops there. Of a tree that can be folded, the folded tree holds
no conditional and no part of a condition in any place, its sequences are flat, and folding it
again, under any configuration, gives the same tree and counts nothing. -/
theorem foldedWith_normalForm {tree result : Node} {configuration : Configuration}
    {counts : FoldCounts} (folds : tree.foldedWith configuration = .ok (result, counts)) :
    result.walk = .ok result.flatten ∧
    (∀ part ∈ result.flatten, part.isCondition = false ∧ part.isConditional = false) ∧
    (∀ origin items, .sequence origin items ∈ result.flatten →
      ∀ item ∈ items, item.isSequence = false ∧ item.isSkip = false) ∧
    ∀ other : Configuration, result.foldedWith other = .ok (result, {}) := by
  have settled := Folding.settled_fold tree _ _ _ (foldedWith_ok.mp folds)
  refine ⟨walk_of_settled settled, ?_, ?_, ?_⟩
  · intro part member
    obtain ⟨decided, -⟩ := settled part member
    exact ⟨decided.condition, decided.conditional⟩
  · intro origin items member
    obtain ⟨decided, -⟩ := settled _ member
    exact decided.spliced rfl
  · intro other
    exact foldedWith_ok.mpr (Folding.fold_self result settled)

/-- A conditional around nested sequences, with a setting in its dead branch, in front of a setting
that is an operand: the one left statement is spliced, and nothing is left to decide. -/
theorem foldedWith_normalForm_nested :
    let tree := Node.sequence .nowhere [
      .conditional .nowhere
        (.binary .nowhere .both (.setting .nowhere "FAST") (.unary .nowhere .not (.truth false)))
        (.sequence .nowhere [.sequence .nowhere [.trap .nowhere], .skip .nowhere])
        (.setting .nowhere "FAST"),
      .instruction .nowhere "move" [.setting .nowhere "FAST"] .null]
    let result := Node.sequence .nowhere [.trap .nowhere,
      .instruction .nowhere "move" [.immediate .nowhere 1] .null]
    tree.foldedWith ⟨.arm64, [("FAST", true)], [], []⟩ = .ok (result, ⟨1, 1⟩) ∧
      (∀ part ∈ result.flatten, part.isCondition = false ∧ part.isConditional = false) ∧
      ∀ other : Configuration, result.foldedWith other = .ok (result, {}) := by
  intro tree result
  have folds : tree.foldedWith ⟨.arm64, [("FAST", true)], [], []⟩ = .ok (result, ⟨1, 1⟩) := rfl
  obtain ⟨-, decided, -, again⟩ := foldedWith_normalForm folds
  exact ⟨folds, decided, again⟩

end MacroAssembler
