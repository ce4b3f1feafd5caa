/-
This module proves that folding keeps exactly the live statements of a tree, and that it counts what
it leaves out.

A statement is live if it is reached through sequences and through the branches that the predicates
of conditionals select. Folding puts the folded live statements into one sequence, in their order;
each of them is the same statement with its own parts folded in the same way. The conditionals that
are counted are those that are met when all parts are gone through, but only the selected branches
are entered.
-/
import MacroAssembler.Proofs.FoldedForm

namespace MacroAssembler

open Action List

/-! ### Live statements -/

namespace Node

mutual

/-- The statements that are reached through sequences and the selected branches of conditionals. -/
def live (config : Configuration) : Node → Checked (List Node)
  | .sequence _ items => liveOf config items
  | .conditional _ predicate thenCase elseCase => do
    let value ← predicate.evaluate config
    if value then thenCase.live config else elseCase.live config
  | .skip _ => return []
  | statement => return [statement]

def liveOf (config : Configuration) : List Node → Checked (List Node)
  | [] => return []
  | item :: rest => do
    let first ← item.live config
    let others ← liveOf config rest
    return first ++ others

end

/-- Whether a tree is what another one amounts to under a configuration. A condition amounts to a
number and a conditional to what its selected branch does. A sequence amounts to the sequence of what
its live statements amount to, and any other node to the same node with parts that its parts amount
to. -/
inductive Amounts (config : Configuration) : Node → Node → Prop
  | condition {node : Node} {value : Bool} (isCondition : node.isCondition)
      (evaluates : node.evaluate config = .ok value) :
      Amounts config node (.immediate node.origin (if value then 1 else 0))
  | branch {origin : Origin} {predicate thenCase elseCase result : Node} {value : Bool}
      (evaluates : predicate.evaluate config = .ok value)
      (selected : Amounts config (if value then thenCase else elseCase) result) :
      Amounts config (.conditional origin predicate thenCase elseCase) result
  | sequence {origin : Origin} {items statements results : List Node}
      (live : liveOf config items = .ok statements)
      (amount : List.Forall₂ (Amounts config) statements results) :
      Amounts config (.sequence origin items) (.sequence origin results)
  | parts {node result : Node} {parts : List Node} (notCondition : node.isCondition = false)
      (notConditional : node.isConditional = false) (single : node.isSequence = false)
      (amount : List.Forall₂ (Amounts config) node.children parts)
      (built : node.rebuild parts = .ok result) : Amounts config node result

/-- The conditionals that are met in a tree when only selected branches are entered. -/
def met (config : Configuration) : Node → List Node
  | node@(.conditional _ predicate thenCase elseCase) =>
    node :: match predicate.evaluate config with
      | .ok true => thenCase.met config
      | .ok false => elseCase.met config
      | .error _ => []
  | node => node.children.attach.flatMap fun child => child.1.met config
termination_by node => sizeOf node
decreasing_by
  · simp only [conditional.sizeOf_spec]; omega
  · simp only [conditional.sizeOf_spec]; omega
  · exact sizeOf_lt_of_mem_children child.2

/-- Whether a conditional has a branch with an effect that is not selected. -/
def dropsEffect (config : Configuration) : Node → Bool
  | .conditional _ predicate thenCase elseCase =>
    match predicate.evaluate config with
    | .ok value => !(if value then elseCase else thenCase).isSkip
    | .error _ => false
  | _ => false

theorem met_conditional {config : Configuration} {origin : Origin}
    {predicate thenCase elseCase : Node} {value : Bool}
    (evaluates : predicate.evaluate config = .ok value) :
    (conditional origin predicate thenCase elseCase).met config =
      .conditional origin predicate thenCase elseCase ::
        (if value then thenCase else elseCase).met config := by
  rw [met, evaluates]
  cases value <;> rfl

theorem met_parts {config : Configuration} {node : Node}
    (notConditional : node.isConditional = false) :
    node.met config = node.children.flatMap (met config) := by
  rw [met]
  · simp
  · rintro origin predicate thenCase elseCase rfl
    cases notConditional

theorem met_condition {config : Configuration} {condition : Node} {value : Bool}
    (evaluates : condition.evaluate config = .ok value) : condition.met config = [] := by
  refine Folding.evaluate_induction (motive := fun condition => condition.met config = [])
    ?setting ?truth ?binary ?unary evaluates
  case setting | truth =>
    intros
    rw [met_parts rfl]
    rfl
  case binary =>
    intro _ _ left right inLeft inRight
    rw [met_parts rfl]
    simp [children, inLeft, inRight]
  case unary =>
    intro _ _ child inChild
    rw [met_parts rfl]
    simp [children, inChild]

end Node

open Node

variable {config : Configuration}

namespace Folding

theorem liveOf_splice {items folded : List Node}
    (each : List.Forall₂ (fun item result => ∃ statements, item.live config = .ok statements ∧
      List.Forall₂ (Amounts config) statements (splice result [])) items folded) :
    ∃ statements, liveOf config items = .ok statements ∧
      List.Forall₂ (Amounts config) statements (folded.foldr splice []) := by
  induction each with
  | nil => exact ⟨[], rfl, .nil⟩
  | cons first _ ih =>
    obtain ⟨statements, live, amount⟩ := first
    obtain ⟨others, liveOthers, amountOthers⟩ := ih
    refine ⟨statements ++ others, ?_, ?_⟩
    · simp only [liveOf, live, liveOthers]
      rfl
    · rw [foldr_cons, splice_eq_append]
      exact rel_append amount amountOthers

theorem FoldsTo.amounts {tree result : Node} (folds : FoldsTo config tree result) :
    Amounts config tree result ∧ ∃ statements, tree.live config = .ok statements ∧
      List.Forall₂ (Amounts config) statements (splice result []) := by
  refine folds.induction (motive := fun tree result => Amounts config tree result ∧
    ∃ statements, tree.live config = .ok statements ∧
      List.Forall₂ (Amounts config) statements (splice result []))
    ?condition ?conditional ?sequence ?parts
  case condition =>
    intro node value isCondition evaluates
    have amounts := Amounts.condition isCondition evaluates
    refine ⟨amounts, [node], ?_, .cons amounts .nil⟩
    cases node with
    | sequence | conditional | skip => cases isCondition
    | _ => rfl
  case conditional =>
    rintro _ predicate thenCase elseCase value _ evaluates ⟨amounts, statements, live, amount⟩
    refine ⟨.branch evaluates amounts, statements, ?_, amount⟩
    simp only [Node.live, evaluates]
    cases value <;> exact live
  case sequence =>
    intro origin items folded related
    obtain ⟨statements, live, amount⟩ := liveOf_splice (related.imp fun _ _ => And.right)
    refine ⟨.sequence live amount, statements, live, ?_⟩
    rw [splice, append_nil]
    exact amount
  case parts =>
    intro node result notCondition notConditional single related built
    have amounts : Amounts config node result :=
      .parts notCondition notConditional single (related.imp fun _ _ => And.left) built
    obtain ⟨-, -, same⟩ := rebuild_ok built related.length_eq.symm
    refine ⟨amounts, ?_⟩
    by_cases skipped : node.isSkip
    · rw [← same.skip] at skipped
      cases node with
      | skip =>
        cases built
        exact ⟨[], rfl, .nil⟩
      | _ => cases same.skip.symm.trans skipped
    · rw [splice_of_single (same.sequence.trans single) (same.skip.trans (by simpa using skipped))]
      refine ⟨[node], ?_, .cons amounts .nil⟩
      cases node with
      | sequence | conditional | skip => simp_all [isSequence, isConditional, isSkip]
      | _ => rfl

/-! ### What is counted -/

def counted (config : Configuration) (counts : FoldCounts) (conditionals : List Node) :
    FoldCounts :=
  ⟨counts.folded + conditionals.length, counts.pruned + conditionals.countP (dropsEffect config)⟩

theorem counted_append (counts : FoldCounts) (first second : List Node) :
    counted config counts (first ++ second) =
      counted config (counted config counts first) second := by
  simp [counted, Nat.add_assoc]

theorem counts_mapM {nodes : List Node} (each : ∀ node ∈ nodes, ∀ counts after result,
      (fold config node).perform counts = (.ok result, after) →
        after = counted config counts (node.met config)) :
    ∀ counts after results, (nodes.mapM (fold config)).perform counts = (.ok results, after) →
      after = counted config counts (nodes.flatMap (met config)) := by
  induction nodes with
  | nil =>
    rintro counts _ _ ⟨⟩
    rfl
  | cons node rest ih =>
    intro counts after results ran
    obtain ⟨ofNode, ofRest⟩ := forall_mem_cons.mp each
    obtain ⟨first, middle, others, folds, foldsRest, -⟩ :=
      perform_mapM_cons_ok.mp ran
    rw [flatMap_cons, counted_append, ← ofNode _ _ _ folds]
    exact ih ofRest _ _ _ foldsRest

theorem counts_fold (tree : Node) : ∀ counts after result,
    (fold config tree).perform counts = (.ok result, after) →
      after = counted config counts (tree.met config) := by
  induction tree with
  | step node ih =>
    intro counts after result ran
    obtain condition | ⟨_, predicate, thenCase, elseCase, rfl⟩ | ⟨_, items, rfl⟩ |
      ⟨notCondition, notConditional, single⟩ := kinds node
    · obtain ⟨value, evaluates, -⟩ := foldsTo_condition condition ⟨_, _, ran⟩
      simp only [fold_of_condition condition, foldCondition, evaluates, perform_bind_ok,
        lift_ok, perform_pure, Prod.mk.injEq] at ran
      obtain ⟨_, _, ⟨-, rfl⟩, -, rfl⟩ := ran
      rw [met_condition evaluates]
      rfl
    · obtain ⟨value, middle, evaluates, discards, folds⟩ := fold_conditional_ok ran
      rw [ih _ (by cases value <;> simp [children]) _ _ _ folds, met_conditional evaluates,
        ← singleton_append, counted_append]
      congr 1
      obtain ⟨skipped, rfl⟩ | ⟨effective, rfl, -⟩ := discard_ok discards
      · simp [counted, dropsEffect, evaluates, skipped]
      · simp [counted, dropsEffect, evaluates, effective]
    · simp only [fold, foldItems_eq_mapM, perform_bind_ok, perform_pure, Prod.mk.injEq] at ran
      obtain ⟨_, _, ⟨folded, _, folds, -, rfl⟩, -, rfl⟩ := ran
      rw [met_parts rfl]
      exact counts_mapM ih _ _ _ folds
    · rw [fold_eq_mapChildren notCondition notConditional single, mapChildren_eq] at ran
      simp only [perform_bind_ok, perform_lift, Prod.mk.injEq] at ran
      obtain ⟨parts, _, folds, -, rfl⟩ := ran
      rw [met_parts notConditional]
      exact counts_mapM ih _ _ _ folds

end Folding

theorem statements_of_settled {tree : Node} (settled : tree.Throughout IsSettled) :
    tree.statements.filter (fun stmt => !stmt.isSkip) = Folding.splice tree [] := by
  cases tree with
  | sequence origin items =>
    have flat := settled.here.1.spliced rfl
    rw [Folding.splice, append_nil, statements]
    clear settled
    induction items with
    | nil => rfl
    | cons item rest ih =>
      obtain ⟨⟨single, effective⟩, others⟩ := forall_mem_cons.mp flat
      have alone : item.statements = [item] := by
        cases item with
        | sequence => cases single
        | _ => rfl
      rw [statementsOf, alone, singleton_append, filter_cons, effective]
      exact congrArg (item :: ·) (ih others)
  | _ => rfl

/-- Folding keeps exactly the live statements. The statements of the folded tree are, one by one and
in their order, what the live statements of the tree amount to. As many conditionals are counted as
are met, and as many discarded branches as they have with an effect. -/
theorem foldedWith_live {tree result : Node} {counts : FoldCounts}
    (folds : tree.foldedWith config = .ok (result, counts)) :
    (∃ statements, tree.live config = .ok statements ∧
      List.Forall₂ (Amounts config) statements
        (result.statements.filter fun statement => !statement.isSkip)) ∧
    Amounts config tree result ∧
    counts.folded = (tree.met config).length ∧
    counts.pruned = (tree.met config).countP (dropsEffect config) := by
  have performed := foldedWith_ok.mp folds
  obtain ⟨amounts, live⟩ := Folding.FoldsTo.amounts ⟨_, _, performed⟩
  have counted := Folding.counts_fold tree _ _ _ performed
  rw [statements_of_settled (Folding.settled_fold tree _ _ _ performed), counted]
  exact ⟨live, amounts, Nat.zero_add _, Nat.zero_add _⟩

/-- A chain of two conditionals, and another one in the body of a macro that is an operand: two
statements are live, and two branches with an effect are dropped. -/
theorem foldedWith_live_chain :
    let place := Origin.nowhere
    let setting := fun name => Node.setting place name
    let move := fun operand => Node.instruction place "move" [operand] .null
    let choice := fun name thenCase elseCase => Node.conditional place (setting name) thenCase elseCase
    let anonymous := fun body => Node.definition place .null [] (.sequence place [body])
    let tree := Node.sequence place [
      choice "SLOW" (move (setting "FAST")) (choice "FAST" (.sequence place [.trap place])
        (.skip place)),
      .call place "run" [anonymous (choice "FAST" (move (.immediate place 3)) (.trap place))] .null
        .null]
    let result := Node.sequence place [.trap place,
      .call place "run" [anonymous (move (.immediate place 3))] .null .null]
    let config : Configuration := ⟨.arm64, [("FAST", true), ("SLOW", false)], [], []⟩
    tree.foldedWith config = .ok (result, ⟨3, 2⟩) ∧
      (∃ statements, tree.live config = .ok statements ∧ List.Forall₂ (Amounts config)
        statements (result.statements.filter fun statement => !statement.isSkip)) ∧
      Amounts config tree result ∧ 3 = (tree.met config).length ∧
        2 = (tree.met config).countP (dropsEffect config) := by
  intro place setting move choice anonymous tree result config
  have folds : tree.foldedWith config = .ok (result, ⟨3, 2⟩) := rfl
  exact ⟨folds, foldedWith_live folds⟩

end MacroAssembler
