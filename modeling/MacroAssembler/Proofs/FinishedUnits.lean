/-
This module proves that a unit that was folded and expanded is finished: lowering it meets nothing
that one of these passes should have removed.

It is enough that statements stand where statements belong. Folding keeps them there and leaves no
condition, and it turns expressions into expressions. Expansion then splices what statements stand
for into one sequence, and what it puts in the place of a variable is an expression again, because
only expressions and macros are ever bound.
-/
import MacroAssembler.Proofs.Hygiene
import MacroAssembler.Proofs.Scoping

namespace MacroAssembler

open Expander List

/-! ### Expressions in their places -/

variable {node : Node} {binding : Variable} {origin : Origin}

namespace Node

/-- Whether a tree holds operands only, and the labels that they refer to. -/
def isExpression (node : Node) : Bool :=
  node.flatten.all fun part => part.isOperand || part.isLabel

/-- Whether the parts of a node are expressions, unless they are statements that belong there. A
statement may also have macros among its operands, but a constant is no macro. -/
def isPlaced (node : Node) : Bool :=
  node.isSequence || node.isConditional || node.isDefinition ||
    node.children.all fun child =>
      child.isExpression || (child.isDefinition && !node.isOperand && !node.isConstant)

/-- Whether a tree has nothing left that folding and expansion remove. -/
def IsFinished (tree : Node) : Prop :=
  tree.Throughout fun part =>
    part.isUnfinished = false ∧ part.isSequence = false ∧ part.isSkip = false

def IsValue (tree : Node) : Prop :=
  tree.Throughout fun part => (part.isOperand ∨ part.isLabel) ∧ part.isCondition = false

/-- Whether a node has its parts in their places and is nothing that folding removes. -/
def IsReady (node : Node) : Prop :=
  node.isPlaced ∧ node.isCondition = false ∧ node.isConditional = false

theorem isExpression_iff :
    node.isExpression ↔ node.Throughout fun part => part.isOperand ∨ part.isLabel := by
  simp [isExpression, Throughout]

theorem isPlaced_iff : node.isPlaced ↔ (node.isSequence ∨ node.isConditional ∨ node.isDefinition) ∨
      ∀ child ∈ node.children, child.isExpression ∨
        child.isDefinition ∧ node.isOperand = false ∧ node.isConstant = false := by
  simp [isPlaced, or_assoc, and_assoc]

theorem isExpression_of_isPlaced {child : Node} (placed : node.isPlaced)
    (kind : node.isOperand ∨ node.isConstant) (mem : child ∈ node.children) :
    child.isExpression := by
  rcases isPlaced_iff.mp placed with holds | parts
  · cases node <;> simp_all [isSequence, isConditional, isDefinition, isOperand, isConstant]
  · refine (parts child mem).resolve_right ?_
    rintro ⟨-, notOperand, notConstant⟩
    rcases kind with kind | kind
    · rw [notOperand] at kind
      cases kind
    · rw [notConstant] at kind
      cases kind

/-- The operands of a statement are expressions or macros. -/
theorem isExpression_or_isDefinition {child : Node} (placed : node.isPlaced)
    (single : node.isSequence = false) (conditional : node.isConditional = false)
    (definition : node.isDefinition = false) (mem : child ∈ node.children) :
    child.isExpression ∨ child.isDefinition := by
  rcases isPlaced_iff.mp placed with holds | parts
  · simp [single, conditional, definition] at holds
  · exact (parts child mem).imp_right And.left

theorem isValue_of_isExpression (expression : node.isExpression) (ready : node.Throughout IsReady) :
    node.IsValue := by
  intro part mem
  exact ⟨isExpression_iff.mp expression part mem, (ready part mem).2.1⟩

theorem isExpression_of_isOperand (isOperand : node.isOperand) (placed : node.isPlaced) :
    node.isExpression := by
  refine isExpression_iff.mpr (throughout_iff.mpr ⟨.inl isOperand, fun child mem => ?_⟩)
  exact isExpression_iff.mp (isExpression_of_isPlaced placed (.inl isOperand) mem)

theorem isValue_of_isOperand (isOperand : node.isOperand) (ready : node.Throughout IsReady) :
    node.IsValue :=
  isValue_of_isExpression (isExpression_of_isOperand isOperand ready.here.1) ready

theorem IsValue.isFinished (value : node.IsValue) : node.IsFinished := by
  intro part mem
  obtain ⟨kind, notCondition⟩ := value part mem
  unfold isUnfinished
  rw [notCondition]
  cases part <;> simp_all [isConditional, isDefinition, isCall, isSequence, isSkip, isOperand,
    isLabel]

theorem isFinished_of_children (unfinished : node.isUnfinished = false)
    (single : node.isSequence = false) (effective : node.isSkip = false)
    (children : ∀ child ∈ node.children, child.IsFinished) : node.IsFinished :=
  throughout_iff.mpr ⟨⟨unfinished, single, effective⟩, children⟩

end Node

open Node

/-! ### Folding keeps places -/

namespace Folding

variable {config : Configuration}

theorem fold_isExpression (node : Node) : ∀ counts after result,
    (fold config node).perform counts = (.ok result, after) → node.isExpression →
      result.isExpression := by
  intro counts after result ran
  have folds : FoldsTo config node result := ⟨counts, after, ran⟩
  refine folds.induction (motive := fun node result => node.isExpression → result.isExpression)
    (fun _ _ _ _ _ => rfl) ?conditional ?sequence ?parts
  case conditional =>
    intro _ _ _ _ _ _ _ _ expression
    have kind := (isExpression_iff.mp expression).here
    simp [isOperand, isLabel] at kind
  case sequence =>
    intro _ _ _ _ expression
    have kind := (isExpression_iff.mp expression).here
    simp [isOperand, isLabel] at kind
  case parts =>
    intro node result _ _ _ related built expression
    rw [isExpression_iff, throughout_iff] at expression
    obtain ⟨kind, parts⟩ := expression
    obtain ⟨-, -, same⟩ := rebuild_ok built related.length_eq.symm
    rw [isExpression_iff, throughout_iff, same.operand, same.label]
    refine ⟨kind, fun part mem => ?_⟩
    obtain ⟨child, inside, expression⟩ := exists_left_of_forall₂ related part mem
    exact isExpression_iff.mp (expression (isExpression_iff.mpr (parts child inside)))

variable {result : Node}

theorem FoldsTo.isDefinition (folds : FoldsTo config node result)
    (isMacro : node.isDefinition) : result.isDefinition := by
  cases node with
  | definition =>
    obtain ⟨related, built⟩ := foldsTo_parts rfl rfl rfl folds
    obtain ⟨-, -, same⟩ := rebuild_ok built related.length_eq.symm
    exact same.definition
  | _ => cases isMacro

theorem FoldsTo.placed (folds : FoldsTo config node result) :
    (node.Throughout fun part => part.isPlaced) → result.Throughout fun part => part.isPlaced := by
  induction node generalizing result with
  | step node ih =>
    intro placed
    have each : ∀ {results : List Node}, List.Forall₂ (FoldsTo config) node.children results →
          ∀ part ∈ results, part.Throughout fun part => part.isPlaced := by
      intro results related part mem
      obtain ⟨child, inside, folds⟩ := exists_left_of_forall₂ related part mem
      exact ih child inside folds (placed.below inside)
    obtain condition | ⟨origin, predicate, thenCase, elseCase, rfl⟩ | ⟨_, items, rfl⟩ |
      ⟨notCondition, notConditional, single⟩ := kinds node
    · obtain ⟨value, -, rfl⟩ := foldsTo_condition condition folds
      exact throughout_iff.mpr ⟨rfl, by simp [children]⟩
    · obtain ⟨value, evaluates⟩ := evaluate_of_foldsTo folds
      have mem : (if value then thenCase else elseCase) ∈
          (Node.conditional origin predicate thenCase elseCase).children := by
        cases value <;> simp [children]
      exact ih _ mem (foldsTo_conditional evaluates folds) (placed.below mem)
    · obtain ⟨folded, related, rfl⟩ := foldsTo_sequence folds
      exact throughout_iff.mpr ⟨rfl, throughout_spliced (each related)⟩
    · obtain ⟨related, built⟩ := foldsTo_parts notCondition notConditional single folds
      obtain ⟨-, -, same⟩ := rebuild_ok built related.length_eq.symm
      refine throughout_iff.mpr ⟨?_, each related⟩
      rw [isPlaced_iff, same.sequence, same.conditional, same.definition, same.operand,
        same.constant]
      refine (isPlaced_iff.mp placed.here).imp_right fun parts part mem => ?_
      obtain ⟨child, inside, folds⟩ := exists_left_of_forall₂ related part mem
      obtain ⟨_, _, ran⟩ := id folds
      exact (parts child inside).imp (fold_isExpression child _ _ _ ran)
        (And.imp_left folds.isDefinition)

theorem ready_fold {tree : Node} {counts after : FoldCounts}
    (placed : tree.Throughout fun part => part.isPlaced)
    (ran : (fold config tree).perform counts = (.ok result, after)) :
    result.Throughout IsReady := by
  intro part mem
  obtain ⟨decided, -⟩ := settled_fold tree _ _ _ ran part mem
  exact ⟨FoldsTo.placed ⟨_, _, ran⟩ placed part mem, decided.condition, decided.conditional⟩

end Folding

/-! ### Operands -/

/-- Whether a state knows only values, and only macros that are ready to be expanded. -/
abbrev Expander.IsReady : Expander → Prop :=
  Expander.Holds IsValue fun definition _ => definition.body.Throughout Node.IsReady

theorem Resolves.isValue {meaning? : String → Option Bound} {renamed? : Name → Option LocalLabel}
    (bound : ∀ name node, meaning? name = some (.operand node) → node.IsValue) (node : Node) :
    ∀ result, Resolves meaning? renamed? node result → node.IsValue → result.IsValue := by
  induction node with
  | step node ih =>
    intro result resolves value
    cases resolves with
    | bound meaning => exact bound _ _ meaning
    | free => exact value
    | localReference | labelReference =>
      refine throughout_iff.mpr ⟨⟨.inl rfl, rfl⟩, fun child mem => ?_⟩
      obtain rfl := mem_singleton.mp mem
      exact throughout_iff.mpr ⟨⟨.inr rfl, rfl⟩, by simp [children]⟩
    | parts _ _ _ built resolved =>
      obtain ⟨-, -, same⟩ := rebuild_ok built resolved.length_eq.symm
      refine throughout_iff.mpr ⟨?_, fun part mem => ?_⟩
      · rw [same.operand, same.label, same.condition]
        exact value.here
      · obtain ⟨child, childMem, resolves⟩ := exists_left_of_forall₂ resolved part mem
        exact ih child childMem part resolves (value.below childMem)

namespace Expander.IsReady

variable {state : Expander} {operand result : Node}

theorem bound (ready : state.IsReady) (name : String) (node : Node)
    (meaning : state.meaning? name = some (.operand node)) : node.IsValue := by
  cases ready.meaning? meaning with
  | operand value => exact value

theorem resolves (ready : state.IsReady) (kind : operand.isExpression ∨ operand.isDefinition)
    (everywhere : operand.Throughout Node.IsReady)
    (resolves : Resolves state.meaning? state.renamed? operand result) : result.IsValue := by
  refine resolves.isValue ready.bound operand result
    (isValue_of_isExpression (kind.resolve_right fun isMacro => ?_) everywhere)
  cases operand with
  | definition => cases resolves with | parts _ _ notDefinition => cases notDefinition
  | _ => cases isMacro

theorem declares (ready : state.IsReady)
    (everywhere : (Node.constant origin binding operand).Throughout Node.IsReady)
    (resolves : Resolves state.meaning? state.renamed? operand result) : result.IsValue := by
  have mem : operand ∈ (Node.constant origin binding operand).children := by simp [children]
  have expression := isExpression_of_isPlaced everywhere.here.1 (.inr rfl) mem
  exact ready.resolves (.inl expression) (everywhere.below mem) resolves

theorem evaluates (ready : state.IsReady) (kind : operand.isExpression ∨ operand.isDefinition)
    (everywhere : operand.Throughout Node.IsReady) {argument : Bound}
    (evaluates : state.Evaluates operand argument) :
    argument.Holds IsValue fun definition _ => definition.body.Throughout Node.IsReady := by
  cases evaluates with
  | closure => exact .closure (everywhere.below (by simp [children])) ready.frame
  | bound meaning => exact ready.meaning? meaning
  | operand resolves => exact .operand (ready.resolves kind everywhere resolves)

end Expander.IsReady

/-! ### Runs -/

def Task.IsReady : Task → Prop
  | .statement node => node.Throughout Node.IsReady
  | .statements items => ∀ item ∈ items, item.Throughout Node.IsReady
  | .invocation made => ∀ operand ∈ made.operands,
    (operand.isExpression ∨ operand.isDefinition) ∧ operand.Throughout Node.IsReady

theorem Node.isFinished_constant {value : Node} (isValue : value.IsValue) :
    (Node.constant origin binding value).IsFinished := by
  refine isFinished_of_children rfl rfl rfl fun child mem => ?_
  simp only [children, mem_cons, not_mem_nil, or_false] at mem
  rcases mem with rfl | rfl
  · exact isFinished_of_children rfl rfl rfl (by simp [children])
  · exact isValue.isFinished

/-- A run of a task that is ready leaves only finished statements, and all that is known after it is
ready too. -/
theorem Expands.isFinished {before after : Expander} {task : Task} {results : List Node}
    {trace : Trace} (expands : Expands before task results trace after)
    (stateReady : before.IsReady) (ready : task.IsReady) :
    after.IsReady ∧ ∀ result ∈ results, result.IsFinished := by
  induction expands with
  | nothing => exact ⟨stateReady, by simp⟩
  | statements _ _ firstIh restIh =>
    obtain ⟨itemReady, restReady⟩ := forall_mem_cons.mp ready
    obtain ⟨middle, firstFinished⟩ := firstIh stateReady itemReady
    obtain ⟨after, restFinished⟩ := restIh middle restReady
    exact ⟨after, forall_mem_append.mpr ⟨firstFinished, restFinished⟩⟩
  | sequence _ _ ih =>
    exact ih stateReady fun item mem => ready.below mem
  | call _ ih | macroInstruction _ ih =>
    refine ih stateReady fun operand mem => ?_
    exact ⟨isExpression_or_isDefinition ready.here.1 rfl rfl rfl mem, ready.below mem⟩
  | instruction origin opcode comment uses resolves =>
    refine ⟨stateReady.ofRest uses.rest, forall_mem_singleton.mpr ?_⟩
    refine isFinished_of_children rfl rfl rfl fun part mem => ?_
    obtain ⟨operand, operandMem, resolves⟩ := exists_left_of_forall₂ resolves part mem
    exact (stateReady.resolves (isExpression_or_isDefinition ready.here.1 rfl rfl rfl operandMem)
      (ready.below operandMem) resolves).isFinished
  | literalLabel | localLabel | trap =>
    refine ⟨stateReady, forall_mem_singleton.mpr ?_⟩
    exact isFinished_of_children rfl rfl rfl (by simp [children])
  | templateLabel =>
    refine ⟨stateReady.ofRest rfl, forall_mem_singleton.mpr ?_⟩
    exact isFinished_of_children rfl rfl rfl (by simp [children])
  | constant origin binding uses resolves =>
    have value := stateReady.declares ready resolves
    refine ⟨(stateReady.ofRest uses.rest).withBinding (.operand value), ?_⟩
    exact forall_mem_singleton.mpr (isFinished_constant value)
  | definition | skip => exact ⟨stateReady, by simp⟩
  | conditional => cases ready.here.2.2
  | operand isOperand uses resolves =>
    refine ⟨stateReady.ofRest uses.rest, forall_mem_singleton.mpr ?_⟩
    have value := isValue_of_isOperand isOperand ready
    exact (resolves.isValue stateReady.bound _ _ value).isFinished
  | invocation callee arity opens _ ih =>
    have entered := stateReady.entered callee opens fun operand mem _ evaluates => by
      obtain ⟨kind, everywhere⟩ := ready operand mem
      exact stateReady.evaluates kind everywhere evaluates
    cases stateReady.callee? callee with
    | closure bodyReady =>
      obtain ⟨inside, finished⟩ := ih entered bodyReady
      exact ⟨inside.left stateReady, finished⟩

/-! ### Units -/

section Units

variable {before after : Expander} {items results : List Node} {parts : List (Node ⊕ Node)}
  {trace : Trace}

theorem Expander.Declares.isFinished (declares : before.Declares items parts after)
    (stateReady : before.IsReady) (ready : ∀ item ∈ items, item.Throughout Node.IsReady) :
    after.IsReady ∧
      ∀ part ∈ parts, part.elim IsFinished fun item => item.Throughout Node.IsReady := by
  induction declares with
  | nothing => exact ⟨stateReady, by simp⟩
  | constant origin binding notices uses resolves _ ih =>
    obtain ⟨itemReady, restReady⟩ := forall_mem_cons.mp ready
    have value := stateReady.declares itemReady resolves
    obtain ⟨afterReady, others⟩ :=
      ih ((stateReady.ofRest uses.rest).withConstant value notices) restReady
    exact ⟨afterReady, forall_mem_cons.mpr ⟨isFinished_constant value, others⟩⟩
  | other _ _ ih =>
    obtain ⟨itemReady, restReady⟩ := forall_mem_cons.mp ready
    obtain ⟨afterReady, others⟩ := ih stateReady restReady
    exact ⟨afterReady, forall_mem_cons.mpr ⟨itemReady, others⟩⟩

theorem Expander.ExpandsUnit.isFinished (expands : before.ExpandsUnit parts results trace after)
    (stateReady : before.IsReady)
    (ready : ∀ part ∈ parts, part.elim IsFinished fun item => item.Throughout Node.IsReady) :
    ∀ result ∈ results, result.IsFinished := by
  induction expands with
  | nothing => simp
  | resolved declaration _ ih =>
    obtain ⟨finished, others⟩ := forall_mem_cons.mp ready
    exact forall_mem_cons.mpr ⟨finished, ih stateReady others⟩
  | statement first _ ih =>
    obtain ⟨itemReady, others⟩ := forall_mem_cons.mp ready
    obtain ⟨middle, finished⟩ := first.isFinished stateReady itemReady
    exact forall_mem_append.mpr ⟨finished, ih middle others⟩

end Units

theorem Expander.ExpandsTree.isFinished {table : SymbolTable} {tree : Node} {results : List Node}
    {trace : Trace} {after : Expander}
    (expands : ExpandsTree { table := table } tree results trace after)
    (ready : tree.Throughout Node.IsReady) : ∀ result ∈ results, result.IsFinished := by
  obtain ⟨declares, expands⟩ := expands
  have fresh : (readied { table := table } tree).IsReady :=
    holds_readied fun _ _ _ _ mem => (ready.statement mem).below (by simp [children])
  obtain ⟨declared, parts⟩ := declares.isFinished fresh fun _ mem => ready.statement mem
  exact expands.isFinished declared parts

/-- A unit with its statements in their places is finished once it is folded and expanded: one
sequence of statements, with no sequence, no statement without effect, no condition or conditional,
and no macro or invocation anywhere in them. So no machine reports one when the unit is lowered. -/
theorem expand_fold_finished {configuration : Configuration} {table : SymbolTable} {limit : Int}
    {tree folded result : Node} {counts : FoldCounts} {after : Expander}
    (placed : tree.Throughout fun part => part.isPlaced)
    (folds : tree.foldedWith configuration = .ok (folded, counts))
    (expands : (expand limit folded).perform { table := table } = (.ok result, after)) :
    (∃ origin items, result = .sequence origin items ∧ ∀ item ∈ items, item.IsFinished) ∧
      ∀ machine symbols failure, machine.architecture.emitsHostCode = false →
        ((Backend.lower machine result).perform symbols).1 = .error failure →
          failure.isUnfinished = false := by
  have ready := Folding.ready_fold placed (foldedWith_ok.mp folds)
  obtain ⟨results, trace, final, rfl, -, expands⟩ := expand_ok expands
  have finished := expands.isFinished ready
  refine ⟨⟨_, results, rfl, finished⟩, fun machine symbols failure assembles failed => ?_⟩
  rw [← Bool.not_eq_true]
  intro unfinished
  obtain ⟨_, lowering⟩ := Backend.lower_error assembles failed
  obtain ⟨_, single, part, inside, remains⟩ :=
    ((@Assembly.emits_lower machine [] _).explains _ _ _ lowering).unfinished unfinished
  obtain rfl := List.mem_singleton.mp single
  rw [flatten_eq, List.mem_cons, mem_flattenAll] at inside
  rcases inside with rfl | ⟨item, member, inside⟩
  · cases remains
  · rw [(finished item member part inside).1] at remains
    cases remains

/-! ### A finished unit -/

namespace Finishing

def named (name : String) : Node := .var ⟨.nowhere, name, .null⟩

def number (value : Int) : Node := .immediate .nowhere value

def move (source dest : Node) : Node :=
  .instruction .nowhere "move" [source, dest] .null

def register (name : String) : Node := .register .nowhere .general name

def debug : Node := .setting .nowhere "DEBUG"

/-- A unit with a conditional around a macro among the operands of an invocation, a condition that
is a constant and one that is an operand, and statements without effect. -/
def tree : Node := .sequence .nowhere [
  .constant .nowhere ⟨.nowhere, "level", .null⟩ debug,
  .definition .nowhere (.text "twice") [named "body", named "value"] (.sequence .nowhere [
    .instruction .nowhere "body" [named "value"] .null,
    .sequence .nowhere [.skip .nowhere, .call .nowhere "body" [named "level"] .null .null]]),
  .conditional .nowhere (.unary .nowhere .not debug) (.trap .nowhere)
    (.call .nowhere "twice" [.definition .nowhere .null [named "source"] (.conditional .nowhere
      debug (move (named "source") (register "t0")) (.skip .nowhere)), debug] .null .null)]

def folded : Node := .sequence .nowhere [
  .constant .nowhere ⟨.nowhere, "level", .null⟩ (number 1),
  .definition .nowhere (.text "twice") [named "body", named "value"] (.sequence .nowhere [
    .instruction .nowhere "body" [named "value"] .null,
    .call .nowhere "body" [named "level"] .null .null]),
  .call .nowhere "twice" [.definition .nowhere .null [named "source"]
    (move (named "source") (register "t0")), number 1] .null .null]

def expanded : Node := .sequence .nowhere [
  .constant .nowhere ⟨.nowhere, "level", .null⟩ (number 1),
  move (number 1) (register "t0"), move (number 1) (register "t0")]

end Finishing

/-- The unit is folded and expanded to statements in which nothing is left to do. -/
theorem expand_fold_finished_macros :
    (Finishing.tree.Throughout fun part => part.isPlaced) ∧
      Finishing.tree.foldedWith ⟨.arm64, [("DEBUG", true)], [], []⟩ =
        .ok (Finishing.folded, ⟨2, 1⟩) ∧
      ((expand defaultLimit Finishing.folded).perform { table := .empty }).1 =
        .ok Finishing.expanded ∧
      (∃ origin items, Finishing.expanded = .sequence origin items ∧
        ∀ item ∈ items, item.IsFinished) ∧
      ∀ machine symbols failure, machine.architecture.emitsHostCode = false →
        ((Backend.lower machine Finishing.expanded).perform symbols).1 = .error failure →
          failure.isUnfinished = false := by
  have placed : Finishing.tree.Throughout fun part => part.isPlaced := by
    unfold Throughout
    decide +kernel
  have folds : Finishing.tree.foldedWith ⟨.arm64, [("DEBUG", true)], [], []⟩ =
      .ok (Finishing.folded, ⟨2, 1⟩) := rfl
  have expands : ((expand defaultLimit Finishing.folded).perform { table := .empty }).1 =
      .ok Finishing.expanded := rfl
  exact ⟨placed, folds, expands, expand_fold_finished placed folds (Action.perform_of_fst expands)⟩

end MacroAssembler
