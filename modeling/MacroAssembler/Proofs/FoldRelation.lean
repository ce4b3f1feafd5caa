/-
This module says what a tree is folded to, and leaves out what folding counts.

The counts have no influence on the result, so a tree can be folded to one tree at most. What that
tree is made of is told by what the parts are folded to: a condition becomes a number, a conditional
is folded like its live branch, the items of a sequence are folded and put together, and any other
node is built from its folded parts. What these four steps keep is kept by folding.
-/
import MacroAssembler.Folding
import MacroAssembler.Proofs.Agreement
import MacroAssembler.Proofs.Construction

namespace MacroAssembler

open List

variable {result : Node}

namespace Folding

open Action Node

variable {config : Configuration} {counts after : FoldCounts}

/-- What holds of settings and truth values that are defined and is kept by operators holds of every
condition with a value. -/
theorem evaluate_induction {motive : Node → Prop}
    (setting : ∀ origin name value, config.isSet name (some origin) = .ok value →
      motive (.setting origin name)) (truth : ∀ value, motive (.truth value))
    (binary : ∀ origin operator left right, motive left → motive right →
      motive (.binary origin operator left right))
    (unary : ∀ origin operator child, motive child → motive (.unary origin operator child))
    {condition : Node} {value : Bool} (evaluates : condition.evaluate config = .ok value) :
    motive condition := by
  induction condition generalizing value with
  | step node ih =>
    have refused : ∀ {cause : Cause} {location : Option Origin},
        (node.construct >>= fun shown => report cause location shown) ≠ .ok value := by
      intro cause location reported
      obtain ⟨_, -, impossible⟩ := Checked.bind_ok.mp reported
      cases impossible
    cases node with
    | setting origin name => exact setting origin name value evaluates
    | truth value => exact truth value
    | binary origin operator left right =>
      cases operator with
      | both | either =>
        obtain ⟨first, isFirst, rest⟩ := Checked.bind_ok.mp evaluates
        obtain ⟨second, isSecond, -⟩ := Checked.bind_ok.mp rest
        exact binary _ _ _ _ (ih left (by simp [children]) isFirst)
          (ih right (by simp [children]) isSecond)
      | _ => exact absurd evaluates refused
    | unary origin operator child =>
      cases operator with
      | not =>
        obtain ⟨inner, isInner, -⟩ := Checked.bind_ok.mp evaluates
        exact unary _ _ _ (ih child (by simp [children]) isInner)
      | _ => exact absurd evaluates refused
    | _ => exact absurd evaluates refused

/-! ### The steps of folding -/

theorem foldAll_eq_mapM (nodes : List Node) : foldAll config nodes = nodes.mapM (fold config) := by
  induction nodes with
  | nil => rfl
  | cons node rest ih =>
    rw [foldAll, mapM_cons, ih]

theorem foldItems_eq_mapM (items : List Node) : foldItems config items =
      items.mapM (fold config) >>= fun folded => pure (folded.foldr splice []) := by
  induction items with
  | nil => rfl
  | cons item rest ih =>
    simp only [foldItems, ih, mapM_cons, bind_assoc, pure_bind, foldr_cons]

variable {node predicate thenCase elseCase : Node} {origin : Origin} {items : List Node}

theorem fold_of_condition (condition : node.isCondition) :
    fold config node = foldCondition config node := by
  cases node with
  | setting | truth => rfl
  | binary | unary =>
    simp only [isCondition] at condition
    rw [fold, if_pos condition]
  | _ => cases condition

theorem fold_eq_mapChildren (condition : node.isCondition = false)
    (conditional : node.isConditional = false) (single : node.isSequence = false) :
    fold config node = node.mapChildren (fold config) := by
  cases node with
  | binary | unary =>
    simp only [isCondition] at condition
    simp only [fold, mapChildren, condition, Bool.false_eq_true, if_false]
  | setting | truth => cases condition
  | conditional => cases conditional
  | sequence => cases single
  | plain origin value =>
    cases value with
    | truth value => cases value <;> rfl
    | _ => rfl
  | labelReference | localReference | constant =>
    simp [fold, mapChildren, makeLabelReference, makeLocalReference, makeConstant]
  | _ => simp only [fold, mapChildren, foldAll_eq_mapM]

theorem kinds (node : Node) : node.isCondition ∨ (∃ origin predicate thenCase elseCase,
      node = .conditional origin predicate thenCase elseCase) ∨
    (∃ origin items, node = .sequence origin items) ∨
    node.isCondition = false ∧ node.isConditional = false ∧ node.isSequence = false := by
  cases condition : node.isCondition with
  | true => exact .inl rfl
  | false =>
    cases node with
    | conditional => exact .inr (.inl ⟨_, _, _, _, rfl⟩)
    | sequence => exact .inr (.inr (.inl ⟨_, _, rfl⟩))
    | _ => exact .inr (.inr (.inr ⟨rfl, rfl, rfl⟩))

/-- A branch with an effect is counted when it is discarded, and its settings are looked up. -/
theorem discard_ok {dead : Node} {done : Unit}
    (discards : (discard config dead).perform counts = (.ok done, after)) :
    dead.isSkip = true ∧ after = counts ∨
    dead.isSkip = false ∧ after = ⟨counts.folded, counts.pruned + 1⟩ ∧
      ∃ nodes, dead.walk = .ok nodes ∧ requireSettings config nodes = .ok () := by
  unfold discard at discards
  split at discards <;> rename_i skipped
  · cases discards
    exact .inl ⟨skipped, rfl⟩
  · simp only [countPruned, perform_bind_ok, perform_modify, perform_lift, Prod.mk.injEq] at discards
    obtain ⟨_, _, ⟨-, rfl⟩, nodes, _, ⟨walks, rfl⟩, required, rfl⟩ := discards
    exact .inr ⟨by simpa using skipped, rfl, nodes, walks, required⟩

theorem fold_conditional_ok
    (ran : (fold config (.conditional origin predicate thenCase elseCase)).perform
      counts = (.ok result, after)) : ∃ value middle, predicate.evaluate config = .ok value ∧
      (discard config (if value then elseCase else thenCase)).perform
        ⟨counts.folded + 1, counts.pruned⟩ = (.ok (), middle) ∧
      (fold config (if value then thenCase else elseCase)).perform middle =
        (.ok result, after) := by
  simp only [fold, countFolded, perform_bind_ok, perform_modify, perform_lift, Prod.mk.injEq] at ran
  obtain ⟨_, _, ⟨-, rfl⟩, value, _, ⟨evaluates, rfl⟩, decided⟩ := ran
  cases value with
  | true =>
    obtain ⟨_, middle, discards, folds⟩ := perform_bind_ok.mp decided
    exact ⟨true, middle, evaluates, discards, folds⟩
  | false =>
    obtain ⟨_, middle, discards, folds⟩ := perform_bind_ok.mp decided
    exact ⟨false, middle, evaluates, discards, folds⟩

/-- What a tree is folded to does not depend on what was counted before. -/
theorem respects_fold (node : Node) : (fold config node).Respects fun _ _ => True := by
  have counts : ∀ change : FoldCounts → FoldCounts,
      (modify change : Fold Unit).Respects fun _ _ => True := fun _ => .modify fun _ _ _ => trivial
  have discards : ∀ dead, (discard config dead).Respects fun _ _ => True := by
    intro dead
    unfold discard
    split
    · exact .pure _
    · refine Respects.bind (counts _) fun _ => ?_
      exact (Respects.lift _).bind fun _ => .lift _
  induction node with
  | step node ih =>
    obtain condition | ⟨_, predicate, thenCase, elseCase, rfl⟩ | ⟨_, items, rfl⟩ |
      ⟨notCondition, notConditional, single⟩ := kinds node
    · rw [fold_of_condition condition]
      exact (Respects.lift _).bind fun _ => .pure _
    · rw [fold]
      refine Respects.bind (counts _) fun _ => (Respects.lift _).bind fun value => ?_
      split
      · exact (discards elseCase).bind fun _ => ih thenCase (by simp [children])
      · exact (discards thenCase).bind fun _ => ih elseCase (by simp [children])
    · rw [fold, foldItems_eq_mapM]
      exact ((Respects.mapM ih).bind fun _ => .pure _).bind fun _ => .pure _
    · rw [fold_eq_mapChildren notCondition notConditional single, mapChildren_eq]
      exact (Respects.mapM ih).bind fun _ => .lift _

/-! ### What a tree is folded to -/

/-- Whether a tree can be folded to another one. -/
def FoldsTo (config : Configuration) (node result : Node) : Prop :=
  ∃ counts after, (fold config node).perform counts = (.ok result, after)

theorem FoldsTo.unique {other : Node} (folds : FoldsTo config node result)
    (otherFolds : FoldsTo config node other) : result = other := by
  obtain ⟨counts, _, folds⟩ := folds
  obtain ⟨otherCounts, _, otherFolds⟩ := otherFolds
  exact ((respects_fold node).results_eq trivial folds otherFolds).1.symm

theorem FoldsTo.perform (folds : FoldsTo config node result) (counts : FoldCounts) :
    ∃ after, (fold config node).perform counts = (.ok result, after) := by
  obtain ⟨before, after, ran⟩ := folds
  obtain ⟨same, -⟩ := respects_fold node before counts trivial
  rw [ran] at same
  exact ⟨_, perform_of_fst same.symm⟩

theorem forall₂_foldsTo {nodes results : List Node}
    (ran : (nodes.mapM (fold config)).perform counts = (.ok results, after)) :
    List.Forall₂ (FoldsTo config) nodes results :=
  (perform_mapM_ok (fun _ => True) _ (fun _ _ _ _ _ _ folds => ⟨trivial, _, _, folds⟩) trivial
    ran).2

theorem foldsTo_condition (condition : node.isCondition) (folds : FoldsTo config node result) :
    ∃ value, node.evaluate config = .ok value ∧
      result = .immediate node.origin (if value then 1 else 0) := by
  obtain ⟨counts, after, folds⟩ := folds
  simp only [fold_of_condition condition, foldCondition, perform_bind_ok, perform_lift,
    perform_pure, Prod.mk.injEq, Except.ok.injEq] at folds
  obtain ⟨value, _, ⟨evaluated, -⟩, rfl, -⟩ := folds
  exact ⟨value, evaluated, rfl⟩

theorem evaluate_of_foldsTo
    (folds : FoldsTo config (.conditional origin predicate thenCase elseCase) result) :
    ∃ value, predicate.evaluate config = .ok value := by
  obtain ⟨counts, after, folds⟩ := folds
  obtain ⟨value, _, evaluates, -⟩ := fold_conditional_ok folds
  exact ⟨value, evaluates⟩

theorem foldsTo_conditional {value : Bool} (evaluates : predicate.evaluate config = .ok value)
    (folds : FoldsTo config (.conditional origin predicate thenCase elseCase) result) :
    FoldsTo config (if value then thenCase else elseCase) result := by
  obtain ⟨counts, after, folds⟩ := folds
  obtain ⟨_, middle, evaluated, -, folds⟩ := fold_conditional_ok folds
  obtain rfl := Except.ok.inj (evaluates.symm.trans evaluated)
  exact ⟨middle, after, folds⟩

theorem foldsTo_sequence (folds : FoldsTo config (.sequence origin items) result) :
    ∃ folded, List.Forall₂ (FoldsTo config) items folded ∧
      result = .sequence origin (folded.foldr splice []) := by
  obtain ⟨counts, after, folds⟩ := folds
  simp only [fold, foldItems_eq_mapM, perform_bind_ok, pure_ok] at folds
  obtain ⟨_, _, ⟨folded, _, ran, rfl, -⟩, rfl, -⟩ := folds
  exact ⟨folded, forall₂_foldsTo ran, rfl⟩

theorem foldsTo_parts (notCondition : node.isCondition = false)
    (notConditional : node.isConditional = false) (single : node.isSequence = false)
    (folds : FoldsTo config node result) :
    List.Forall₂ (FoldsTo config) node.children result.children ∧
      node.rebuild result.children = .ok result := by
  obtain ⟨counts, after, folds⟩ := folds
  rw [fold_eq_mapChildren notCondition notConditional single] at folds
  obtain ⟨-, related, built⟩ := mapChildren_ok (fun _ => True) (FoldsTo config)
    (fun _ _ _ _ _ _ folds => ⟨trivial, _, _, folds⟩) trivial folds
  exact ⟨related, built⟩

/-- What the four steps keep holds of every tree and the tree it is folded to. -/
theorem FoldsTo.induction {motive : Node → Node → Prop}
    (condition : ∀ node value, node.isCondition → node.evaluate config = .ok value →
      motive node (.immediate node.origin (if value then 1 else 0)))
    (conditional : ∀ origin predicate thenCase elseCase value result,
      predicate.evaluate config = .ok value → motive (if value then thenCase else elseCase) result →
          motive (.conditional origin predicate thenCase elseCase) result)
    (sequence : ∀ origin items folded, List.Forall₂ motive items folded →
      motive (.sequence origin items) (.sequence origin (folded.foldr splice [])))
    (parts : ∀ node result, node.isCondition = false → node.isConditional = false →
      node.isSequence = false → List.Forall₂ motive node.children result.children →
        node.rebuild result.children = .ok result → motive node result)
    (folds : FoldsTo config node result) : motive node result := by
  induction node generalizing result with
  | step node ih =>
    have each : ∀ {results : List Node}, List.Forall₂ (FoldsTo config) node.children results →
          List.Forall₂ motive node.children results :=
      fun related => forall₂_iff_zip.mpr ⟨related.length_eq, fun mem =>
        ih _ (of_mem_zip mem).1 (forall₂_zip related mem)⟩
    obtain isCondition | ⟨_, _, thenCase, elseCase, rfl⟩ | ⟨_, items, rfl⟩ |
      ⟨notCondition, notConditional, single⟩ := kinds node
    · obtain ⟨value, evaluates, rfl⟩ := foldsTo_condition isCondition folds
      exact condition node value isCondition evaluates
    · obtain ⟨value, evaluates⟩ := evaluate_of_foldsTo folds
      refine conditional _ _ _ _ value result evaluates
        (ih _ ?_ (foldsTo_conditional evaluates folds))
      cases value <;> simp [children]
    · obtain ⟨folded, related, rfl⟩ := foldsTo_sequence folds
      exact sequence _ _ folded (each related)
    · obtain ⟨related, built⟩ := foldsTo_parts notCondition notConditional single folds
      exact parts node result notCondition notConditional single (each related) built

/-! ### Putting statements together -/

theorem splice_eq_append (item : Node) (rest : List Node) :
    splice item rest = splice item [] ++ rest := by
  cases item <;> simp [splice]

theorem splice_of_single {item : Node} (single : item.isSequence = false)
    (effective : item.isSkip = false) (rest : List Node) : splice item rest = item :: rest := by
  cases item with
  | sequence => cases single
  | skip => cases effective
  | _ => rfl

theorem foldr_splice_append (first second : List Node) :
    (first ++ second).foldr splice [] = first.foldr splice [] ++ second.foldr splice [] := by
  induction first with
  | nil => rfl
  | cons item rest ih =>
    rw [cons_append, foldr_cons, foldr_cons, ih, splice_eq_append,
      splice_eq_append item (rest.foldr splice []), append_assoc]

theorem throughout_spliced {property : Node → Prop}
    (each : ∀ item ∈ items, item.Throughout property) :
    ∀ part ∈ items.foldr splice [], part.Throughout property := by
  induction items with
  | nil => simp
  | cons item rest ih =>
    obtain ⟨first, others⟩ := forall_mem_cons.mp each
    rw [foldr_cons, splice_eq_append, forall_mem_append]
    refine ⟨fun part mem => ?_, ih others⟩
    cases item with
    | sequence origin items =>
      rw [splice, append_nil] at mem
      exact first.below mem
    | skip => cases mem
    | _ =>
      obtain rfl := mem_singleton.mp mem
      exact first

end Folding

theorem foldedWith_ok {tree : Node} {config : Configuration} {counts : FoldCounts} :
    tree.foldedWith config = .ok (result, counts) ↔
      (Folding.fold config tree).perform {} = (.ok result, counts) := by
  unfold Node.foldedWith
  rcases (Folding.fold config tree).perform {} with ⟨failure | value, after⟩ <;>
    simp [Except.map]

theorem foldedWith_error {tree : Node} {config : Configuration} {failure : Failure} :
    tree.foldedWith config = .error failure ↔
      ((Folding.fold config tree).perform {}).1 = .error failure := by
  unfold Node.foldedWith
  rcases (Folding.fold config tree).perform {} with ⟨failure | value, after⟩ <;>
    simp [Except.map]

end MacroAssembler
