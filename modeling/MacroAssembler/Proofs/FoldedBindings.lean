/-
This module compares what is known while a unit is expanded before it is folded with what is known
while it is expanded afterwards.

In the first case macros have their bodies as they were written and operands may hold conditions; in
the second one bodies and operands are folded. So a macro on the one side corresponds to the same
macro with its body folded on the other side, and an operand to what it would be folded to, if it
can be folded at all. Locations are left out of the comparison: a label that a template stands for
shows where it first occurred, and a branch that folding discards may have mentioned it.
-/
import MacroAssembler.Proofs.FinishedUnits
import MacroAssembler.Proofs.PlacelessFolding
import MacroAssembler.Proofs.RelatedScopes
import MacroAssembler.Proofs.Simulation

namespace MacroAssembler

open Action Expander Folding List Node

/-! ### Trees that can be expanded first -/

namespace Node

def isSetting : Node → Bool
  | .setting .. => true
  | _ => false

def isNamed : Node → Bool
  | .definition _ name _ _ => !name.isNull
  | _ => false

/-- Whether it makes no difference at a node if folding or expansion comes first. Statements have to
stand where they belong. A constant or a macro with a name inside a conditional would be known
outside of it as long as nothing is folded. The local labels of a macro body would be numbered in a
branch that is discarded. A setting in the place of a parameter would lose its name. -/
def isStable (node : Node) : Bool :=
  node.isPlaced &&
    match node with
    | .conditional .. => node.flatten.all fun part => !part.isConstant && !part.isNamed
    | .definition _ _ parameters body =>
      body.localLabels.isEmpty && parameters.all fun parameter => !parameter.isSetting
    | _ => true

theorem kind_of_isExpression {node : Node} (expression : node.isExpression) :
    node.isConditional = false ∧ node.isSequence = false ∧ node.isSkip = false ∧
      node.isDefinition = false := by
  have kind := (isExpression_iff.mp expression).here
  cases node <;> simp_all [isOperand, isLabel, isConditional, isSequence, isSkip, isDefinition]

theorem isPlaced_of_isStable {node : Node} (stable : node.isStable) : node.isPlaced := by
  unfold isStable at stable
  exact (Bool.and_eq_true_iff.mp stable).1

end Node

/-! ### Nodes -/

variable {config : Configuration}

namespace Folding

/-- Whether all that a tree can be folded to is another tree, up to locations. -/
def FoldsInto (config : Configuration) (node other : Node) : Prop :=
  ∀ folded, FoldsTo config node folded → folded.unlocated = other.unlocated

theorem FoldsTo.foldsInto {node folded : Node} (folds : FoldsTo config node folded) :
    FoldsInto config node folded :=
  fun other otherFolds => by rw [otherFolds.unique folds]

theorem foldsInto_rebuild {node result other : Node} {parts others : List Node}
    (notCondition : node.isCondition = false) (notConditional : node.isConditional = false)
    (single : node.isSequence = false) (built : node.rebuild parts = .ok result)
    (otherBuilt : node.rebuild others = .ok other)
    (sameNumber : parts.length = node.children.length)
    (related : List.Forall₂ (FoldsInto config) parts others) : FoldsInto config result other := by
  intro folded folds
  obtain ⟨ownParts, -, same⟩ := rebuild_ok built sameNumber
  obtain ⟨foldsParts, foldedBuilt⟩ := foldsTo_parts (same.condition.trans notCondition)
    (same.conditional.trans notConditional) (same.sequence.trans single) folds
  rw [ownParts] at foldsParts
  have sameParts : folded.children.map unlocated = others.map unlocated := by
    have alike := forall₂_meet (fun _ _ _ _ folds into => into _ folds) foldsParts related
    rw [← forall₂_eq_eq_eq, forall₂_map_left_iff, forall₂_map_right_iff]
    exact alike
  have foldedNumber : folded.children.length = node.children.length := by
    rw [← foldsParts.length_eq, sameNumber]
  -- Both are built from the same node, whose parts are the same up to locations.
  rw [sameHead_rebuild built sameNumber _ foldedNumber] at foldedBuilt
  have first := rebuild_unlocated foldedBuilt foldedNumber
  have second := rebuild_unlocated otherBuilt (related.length_eq.symm.trans sameNumber)
  rw [sameParts, second] at first
  exact (Except.ok.inj first).symm

end Folding

structure Node.Corresponds (config : Configuration) (node other : Node) : Prop where
  expression : node.isExpression
  folds : FoldsInto config node other

/-! ### Macros and scopes -/

structure Definition.Corresponds (config : Configuration) (first second : Definition) :
    Prop where
  body : FoldsTo config first.body second.body
  parameters : List.Forall₂ (FoldsTo config) first.parameters second.parameters
  stable : first.body.Throughout fun part => part.isStable
  unlabelled : first.body.localLabels = []
  unset : ∀ parameter ∈ first.parameters, parameter.isSetting = false

/-- How what is known compares when the unit is folded first. No local label is renamed. -/
abbrev Folding.comparison (config : Configuration) : Comparison where
  operands := Node.Corresponds config
  definitions := Definition.Corresponds config
  marks _ _ := False
  hidden := []

/-- Whether one bound value is bound in the place of another one when the unit is folded first. -/
abbrev Bound.Corresponds (config : Configuration) : Bound → Bound → Prop :=
  Bound.Related (comparison config)

/-- Whether two scopes without local labels bind the same names to values that correspond. -/
abbrev Scope.Corresponds (config : Configuration) : Scope Bound → Scope Bound → Prop :=
  Scope.Related (comparison config)

/-- Whether one state is reached in the place of another one when the unit is folded first. The
symbol tables may differ. -/
abbrev Expander.Corresponds (config : Configuration) : Expander → Expander → Prop :=
  Expander.Related (comparison config)

namespace Expander.Corresponds

variable {state other : Expander}

theorem renamed? (corresponds : state.Corresponds config other) (name : Name) :
    state.renamed? name = none ∧ other.renamed? name = none := by
  have related := Expander.Related.renamed? corresponds name
  generalize state.renamed? name = renamed at related
  generalize other.renamed? name = otherRenamed at related
  cases related with
  | some impossible => exact impossible.elim
  | none => exact ⟨rfl, rfl⟩

theorem ofBinds {after : Expander} (corresponds : state.Corresponds config other)
    (binds : state.Binds [] after) : after.Corresponds config other := by
  have unchanged : ∀ scope inner otherScope : Scope Bound, scope.Binds [] inner →
      scope.Corresponds config otherScope → inner.Corresponds config otherScope := by
    intro scope inner otherScope binds corresponds
    refine .intro (binds.labels ▸ corresponds.labels) fun name => ?_
    rw [(binds.bindings name).resolve_right fun anew => nomatch anew.1]
    exact corresponds.bindings name
  have macros : after.findMacro? = state.findMacro? := by
    unfold findMacro?
    rw [binds.macros]
  cases same : state.frame with
  | nil =>
    obtain ⟨empty, root⟩ := binds.outermost same
    refine ⟨?_, unchanged _ _ _ root corresponds.root, binds.constants ▸ corresponds.constants,
      macros ▸ corresponds.macros⟩
    rw [empty, ← same]
    exact corresponds.frame
  | cons scope outer =>
    obtain ⟨root, inner, afterSame, innermost⟩ := binds.nested scope outer same
    have frames := corresponds.frame
    rw [same] at frames
    refine ⟨?_, root ▸ corresponds.root, binds.constants ▸ corresponds.constants,
      macros ▸ corresponds.macros⟩
    rw [afterSame]
    generalize other.frame = otherFrame at frames
    cases frames with
    | cons first rest => exact .cons (unchanged _ _ _ innermost first) rest

end Expander.Corresponds

/-! ### Label templates -/

namespace Expander

theorem contribution?_unlocated (node : Node) :
    contribution? (.operand node.unlocated) = contribution? (.operand node) := by
  cases node with
  | register _ kind => cases kind <;> rfl
  | _ => rfl

variable {value : Value}

/-- What an operand contributes to a label name, the one that corresponds to it contributes too. -/
theorem contribution?_corresponds {bound other : Bound}
    (corresponds : bound.Corresponds config other)
    (contributes : contribution? bound = some value) : contribution? other = some value := by
  cases corresponds with
  | closure => cases contributes
  | @operand node otherNode corresponds =>
    -- Only nodes that folding leaves alone contribute anything.
    have kept : FoldsTo config node node := by
      cases node with
      | var | register | label | labelReference | localLabel | localReference | immediate | text =>
        exact ⟨{}, {}, rfl⟩
      | _ => cases contributes
    rw [← contribution?_unlocated, ← corresponds.folds node kept, contribution?_unlocated]
    exact contributes

variable {state other : Expander} {node : Node}

theorem pieceValue_corresponds (corresponds : state.Corresponds config other)
    {piece : TemplatePiece} {otherValue : Value} (found : state.pieceValue node piece = .ok value)
    (otherFound : other.pieceValue node piece = .ok otherValue) : value = otherValue := by
  cases piece with
  | literal =>
    cases found
    cases otherFound
    rfl
  | parameter name =>
    have meaning := corresponds.meaning? name not_mem_nil
    unfold pieceValue at found otherFound
    dsimp only at found otherFound
    generalize state.meaning? name = bound at meaning found
    generalize other.meaning? name = otherBound at meaning otherFound
    cases meaning with
    | none => simp only [Checked.bind_ok, report, reduceCtorEq, and_false, exists_false] at found
    | some meaning =>
      dsimp only at found otherFound
      split at found
      · simp only [Checked.bind_ok, report, reduceCtorEq, and_false, exists_false] at found
      · simp only [Checked.bind_ok, report, reduceCtorEq, and_false, exists_false] at found
      · rename_i contributed _ contributes
        cases found
        rw [contribution?_corresponds meaning contributes] at otherFound
        split at otherFound
        · rename_i null
          cases null
          contradiction
        · contradiction
        · rename_i same
          cases same
          cases otherFound
          rfl

theorem interpolate_corresponds (corresponds : state.Corresponds config other)
    {template name otherName : String} (found : state.interpolate node template = .ok name)
    (otherFound : other.interpolate node template = .ok otherName) : name = otherName := by
  have pieces : ∀ (pieces : List TemplatePiece) (values otherValues : List Value),
      pieces.mapM (state.pieceValue node) = .ok values →
      pieces.mapM (other.pieceValue node) = .ok otherValues → values = otherValues := by
    intro pieces
    induction pieces with
    | nil =>
      intro values otherValues found otherFound
      cases found
      cases otherFound
      rfl
    | cons piece rest ih =>
      intro values otherValues found otherFound
      simp only [mapM_cons, Checked.bind_ok] at found otherFound
      obtain ⟨first, foundFirst, others, foundOthers, same⟩ := found
      obtain ⟨otherFirst, otherFoundFirst, otherRest, otherFoundRest, otherSame⟩ := otherFound
      cases same
      cases otherSame
      rw [pieceValue_corresponds corresponds foundFirst otherFoundFirst,
        ih _ _ foundOthers otherFoundRest]
  simp only [interpolate, Checked.bind_ok] at found otherFound
  obtain ⟨values, foundValues, joined⟩ := found
  obtain ⟨otherValues, otherFoundValues, otherJoined⟩ := otherFound
  rw [pieces _ _ _ foundValues otherFoundValues, otherJoined] at joined
  exact (Except.ok.inj joined).symm

/-! ### Operands -/

theorem relates_substituteVariable (binding : Variable) :
    Relates (Expander.Corresponds config) (Node.Corresponds config)
      (substituteVariable binding) (substituteVariable binding) := by
  refine Relates.get.bind fun state other corresponds => ?_
  have meaning := corresponds.meaning? binding.name not_mem_nil
  generalize state.meaning? binding.name = bound at meaning
  generalize other.meaning? binding.name = otherBound at meaning
  cases meaning with
  | none => exact .pure ⟨rfl, FoldsTo.foldsInto ⟨{}, {}, rfl⟩⟩
  | some meaning =>
    cases meaning with
    | operand corresponds => exact .pure corresponds
    | closure =>
      intro _ _ _ _ _ _ _ ran _
      simp [perform_bind_ok, report] at ran

theorem relates_onTable {α β : Type} {alike : α → β → Prop} {change : SymbolTable → α × SymbolTable}
    {otherChange : SymbolTable → β × SymbolTable}
    (related : ∀ table other, alike (change table).1 (otherChange other).1) :
    Relates (Expander.Corresponds config) alike (onTable change) (onTable otherChange) := by
  rintro state other _ _ _ _ corresponds ⟨⟩ ⟨⟩
  exact ⟨related _ _, corresponds.ofRest rfl rfl⟩

theorem relates_substituteReference (origin : Origin) (mark : Label) (offset : Int) :
    Relates (Expander.Corresponds config) (Node.Corresponds config)
      (substituteReference origin mark offset) (substituteReference origin mark offset) := by
  have references : ∀ first second : Label, first.name = second.name →
      (Node.labelReference origin first offset).Corresponds config
        (.labelReference origin second offset) := by
    intro first second same
    refine ⟨rfl, fun folded folds => ?_⟩
    have kept : FoldsTo config (.labelReference origin first offset)
        (.labelReference origin first offset) := ⟨{}, {}, rfl⟩
    rw [folds.unique kept, unlocated, unlocated, same]
  unfold substituteReference
  dsimp only
  split
  · refine Relates.get.bind fun state other corresponds => ?_
    refine Relates.bind (.lift fun _ _ => interpolate_corresponds corresponds) ?_
    rintro name _ rfl
    refine relates_onTable fun table otherTable => ?_
    exact references (table.label name origin).1 (otherTable.label name origin).1
      ((SymbolTable.label_name _).trans (SymbolTable.label_name _).symm)
  · exact .pure (references mark mark rfl)

theorem relates_substituteLocal (origin : Origin) (mark : LocalLabel) :
    Relates (Expander.Corresponds config) (Node.Corresponds config)
      (substituteLocal origin mark) (substituteLocal origin mark) := by
  refine Relates.get.bind fun state other corresponds => ?_
  obtain ⟨here, otherHere⟩ := corresponds.renamed? mark.name
  rw [here, otherHere]
  exact .pure ⟨rfl, FoldsTo.foldsInto ⟨{}, {}, rfl⟩⟩

theorem evaluate_parts {value : Bool} (evaluates : node.evaluate config = .ok value) :
    node.isCondition ∧ ∀ child ∈ node.children, ∃ value, child.evaluate config = .ok value := by
  cases node with
  | setting | truth => exact ⟨rfl, by simp [children]⟩
  | binary origin operator left right =>
    cases operator with
    | both | either =>
      simp only [evaluate, Checked.bind_ok] at evaluates
      obtain ⟨leftValue, leftEvaluates, rightValue, rightEvaluates, -⟩ := evaluates
      exact ⟨rfl, by simp [children, leftEvaluates, rightEvaluates]⟩
    | _ =>
      simp only [evaluate, Checked.bind_ok, report, reduceCtorEq, and_false, exists_false]
        at evaluates
  | unary origin operator child =>
    cases operator with
    | not =>
      simp only [evaluate, Checked.bind_ok] at evaluates
      obtain ⟨childValue, childEvaluates, -⟩ := evaluates
      exact ⟨rfl, by simp [children, childEvaluates]⟩
    | _ =>
      simp only [evaluate, Checked.bind_ok, report, reduceCtorEq, and_false, exists_false]
        at evaluates
  | _ =>
    simp only [evaluate, Checked.bind_ok, report, reduceCtorEq, and_false, exists_false]
      at evaluates

/-- A condition that has a value names nothing that could be replaced. -/
theorem substitute_condition (node : Node) : ∀ value, node.evaluate config = .ok value → ∀ state,
      (substitute node).perform state = (.ok node, state) := by
  induction node with
  | step node ih =>
    intro value evaluates state
    obtain ⟨condition, parts⟩ := evaluate_parts evaluates
    have each : ∀ child ∈ node.children, (substitute child).perform state = (.ok child, state) := by
      intro child mem
      obtain ⟨_, childEvaluates⟩ := parts child mem
      exact ih child mem _ childEvaluates state
    cases node with
    | setting | truth => rfl
    | binary | unary =>
      rw [substitute_eq_mapChildren rfl rfl rfl]
      exact mapChildren_self each trivial
    | _ => cases condition

theorem relates_substitute (node : Node) : ∀ folded, node.isExpression →
    FoldsTo config node folded → Relates (Expander.Corresponds config) (Node.Corresponds config)
        (substitute node) (substitute folded) := by
  induction node with
  | step node ih =>
    intro folded expression folds
    by_cases condition : node.isCondition
    · obtain ⟨value, evaluates, rfl⟩ := foldsTo_condition condition folds
      intro state other after otherAfter result otherResult corresponds ran otherRan
      rw [substitute_condition node value evaluates] at ran
      cases ran
      cases otherRan
      exact ⟨⟨expression, folds.foldsInto⟩, corresponds⟩
    rw [Bool.not_eq_true] at condition
    obtain ⟨notConditional, single, -, -⟩ := kind_of_isExpression expression
    rw [isExpression_iff, throughout_iff] at expression
    obtain ⟨kind, parts⟩ := expression
    by_cases ordinary : node.isVariable = false ∧ node.isReference = false ∧
        node.isDefinition = false
    · obtain ⟨notVariable, notReference, notDefinition⟩ := ordinary
      obtain ⟨related, built⟩ := foldsTo_parts condition notConditional single folds
      obtain ⟨-, -, same⟩ := rebuild_ok built related.length_eq.symm
      rw [substitute_eq_mapChildren notVariable notReference notDefinition,
        substitute_eq_mapChildren (same.isVariable.trans notVariable)
          (same.reference.trans notReference) (same.definition.trans notDefinition),
        mapChildren_eq, mapChildren_eq]
      refine Relates.bind (.mapM related fun child mem other folds =>
        ih child mem other (isExpression_iff.mpr (parts child mem)) folds) ?_
      rintro results others ⟨alike, number⟩
      refine .lift fun result otherResult resultBuilt otherBuilt => ?_
      have otherNumber := alike.length_eq.symm.trans number
      rw [sameHead_rebuild built related.length_eq.symm _ otherNumber] at otherBuilt
      refine ⟨?_, foldsInto_rebuild condition notConditional single resultBuilt otherBuilt number
        (alike.imp fun _ _ corresponds => corresponds.folds)⟩
      obtain ⟨ownParts, -, resultSame⟩ := rebuild_ok resultBuilt number
      rw [isExpression_iff, throughout_iff, resultSame.operand, resultSame.label, ownParts]
      refine ⟨kind, fun part mem => ?_⟩
      obtain ⟨_, -, corresponds⟩ := exists_left_of_forall₂ alike.flip part mem
      exact isExpression_iff.mp corresponds.expression
    · cases node with
      | var binding =>
        obtain ⟨_, _, folds⟩ := folds
        cases folds
        exact relates_substituteVariable binding
      | labelReference origin mark offset =>
        obtain ⟨_, _, folds⟩ := folds
        cases folds
        exact relates_substituteReference origin mark offset
      | localReference origin mark =>
        obtain ⟨_, _, folds⟩ := folds
        cases folds
        exact relates_substituteLocal origin mark
      | definition => rcases kind with kind | kind <;> cases kind
      | _ => exact absurd ⟨rfl, rfl, rfl⟩ ordinary

end Expander

end MacroAssembler
