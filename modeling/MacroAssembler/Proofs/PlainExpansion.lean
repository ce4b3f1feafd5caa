/-
This module is about statements whose expansion leaves nothing behind.

A statement is plain if it defines no label, no local label and no constant, and uses no template.
What a plain statement is expanded to depends on names only: on the macros, the constants and the
scopes around it. If the bodies of all the macros that its expansion invokes are plain as well, then
expanding it adds nothing to the names and nothing to the symbol table, so it gives the same result
again when it is expanded a second time. The macros that an expansion invokes are found by opening
the scope of every invocation, as expansion does, since a parameter may stand for a macro.
-/
import MacroAssembler.Proofs.ExpansionRun

namespace MacroAssembler

open Action List

/-! ### Plain statements -/

variable {node : Node} {items : List Node}

namespace Node

/-- Whether a node refers to a label by a template, outside the macros that are written in it. -/
inductive UsesTemplate : Node → Prop
  | reference {origin : Origin} {mark : Label} {offset : Int}
      (isTemplate : SymbolTable.isTemplate mark.name) :
      UsesTemplate (.labelReference origin mark offset)
  | part {node child : Node} (outside : node.isDefinition = false) (member : child ∈ node.children)
      (uses : child.UsesTemplate) : UsesTemplate node

def isDeclaration : Node → Bool
  | .label _ | .localLabel _ | .constant .. => true
  | _ => false

/-- Whether a statement, with all the statements in it, defines no label, no local label and no
constant and uses no template. -/
inductive IsPlain : Node → Prop
  | sequence {origin : Origin} {items : List Node} (each : ∀ item ∈ items, item.IsPlain) :
      IsPlain (.sequence origin items)
  | conditional {origin : Origin} {predicate thenCase elseCase : Node}
      (plainThen : thenCase.IsPlain) (plainElse : elseCase.IsPlain) :
      IsPlain (.conditional origin predicate thenCase elseCase)
  | single {node : Node} (notSequence : node.isSequence = false)
      (notConditional : node.isConditional = false) (notDeclaration : node.isDeclaration = false)
      (noTemplate : ¬ node.UsesTemplate) : IsPlain node

/-- Whether a statement holds an invocation. An instruction counts as the invocation that it is if
its opcode means a macro. -/
inductive Makes : Node → Expander.Invocation → Prop
  | call (origin : Origin) (name : String) (operands : List Node) (comment writtenName : Value) :
      Makes (.call origin name operands comment writtenName)
        ⟨name, writtenName.orElse (.text name), operands,
          .call origin name operands comment writtenName⟩
  | instruction (origin : Origin) (opcode : String) (operands : List Node) (comment : Value) :
      Makes (.instruction origin opcode operands comment)
        ⟨opcode, .text opcode, operands, .instruction origin opcode operands comment⟩
  | item {origin : Origin} {items : List Node} {item : Node} {invocation : Expander.Invocation}
      (member : item ∈ items) (inside : item.Makes invocation) :
      Makes (.sequence origin items) invocation
  | thenCase {origin : Origin} {predicate thenCase elseCase : Node}
      {invocation : Expander.Invocation} (inside : thenCase.Makes invocation) :
      Makes (.conditional origin predicate thenCase elseCase) invocation
  | elseCase {origin : Origin} {predicate thenCase elseCase : Node}
      {invocation : Expander.Invocation} (inside : elseCase.Makes invocation) :
      Makes (.conditional origin predicate thenCase elseCase) invocation

theorem not_usesTemplate_child {child : Node} (outside : node.isDefinition = false)
    (free : ¬ node.UsesTemplate) (mem : child ∈ node.children) : ¬ child.UsesTemplate :=
  fun uses => free (.part outside mem uses)

variable {origin : Origin}

theorem IsPlain.item (plain : (Node.sequence origin items).IsPlain) :
    ∀ item ∈ items, item.IsPlain := by
  cases plain with
  | sequence each => exact each
  | single notSequence => cases notSequence

theorem IsPlain.cases {predicate thenCase elseCase : Node}
    (plain : (Node.conditional origin predicate thenCase elseCase).IsPlain) :
    thenCase.IsPlain ∧ elseCase.IsPlain := by
  cases plain with
  | conditional plainThen plainElse => exact ⟨plainThen, plainElse⟩
  | single _ notConditional => cases notConditional

theorem IsPlain.noTemplate (plain : node.IsPlain) (notSequence : node.isSequence = false)
    (notConditional : node.isConditional = false) : ¬ node.UsesTemplate := by
  cases plain with
  | sequence => cases notSequence
  | conditional => cases notConditional
  | single _ _ _ noTemplate => exact noTemplate

theorem IsPlain.operands (plain : node.IsPlain) {invocation : Expander.Invocation}
    (makes : node.Makes invocation) : ∀ operand ∈ invocation.operands, ¬ operand.UsesTemplate := by
  induction makes with
  | call | instruction =>
    exact fun operand mem => not_usesTemplate_child rfl (plain.noTemplate rfl rfl) mem
  | item mem _ ih => exact ih (plain.item _ mem)
  | thenCase _ ih => exact ih plain.cases.1
  | elseCase _ ih => exact ih plain.cases.2

theorem IsPlain.localLabels (plain : node.IsPlain) : node.localLabels = [] := by
  induction plain with
  | sequence _ ih =>
    rw [Node.localLabels]
    exact localLabelsOf_eq_nil.mpr ih
  | conditional _ _ ofThen ofElse => rw [Node.localLabels, ofThen, ofElse, append_nil]
  | @single node notSequence notConditional notDeclaration noTemplate =>
    cases node with
    | localLabel => cases notDeclaration
    | sequence => cases notSequence
    | conditional => cases notConditional
    | _ => rfl

end Node

namespace Expander

variable {α β : Type} {limit : Int} {depth : Nat}

/-- Whether the expansion of a statement in a state invokes a macro, at any depth. -/
inductive Reaches : Expander → Node → Definition → Prop
  | here {state : Expander} {node : Node} {invocation : Invocation} {definition : Definition}
      {captured : Frame} (makes : node.Makes invocation)
      (callee : state.callee? invocation.name = some (definition, captured)) :
      Reaches state node definition
  | inside {state opened : Expander} {node : Node} {invocation : Invocation}
      {definition other : Definition} {captured : Frame} {scope : Scope Bound}
      (makes : node.Makes invocation)
      (callee : state.callee? invocation.name = some (definition, captured))
      (opens : (openScope definition invocation).perform state = (.ok scope, opened))
      (reaches : Reaches { state with frame := scope :: captured } definition.body other) :
      Reaches state node other

/-- Whether a statement is plain and so are the bodies of all macros that its expansion
invokes. -/
structure StaysPlain (state : Expander) (node : Node) : Prop where
  own : node.IsPlain
  reached : ∀ definition, state.Reaches node definition → definition.body.IsPlain

/-! ### Steps that depend on names only -/

structure HasNames (state names : Expander) : Prop where
  macros : state.macros = names.macros
  constants : state.constants = names.constants
  root : state.root = names.root
  frame : state.frame = names.frame

variable {state names : Expander}

theorem HasNames.refl (names : Expander) : names.HasNames names := ⟨rfl, rfl, rfl, rfl⟩

theorem HasNames.binding? (has : state.HasNames names) : state.binding? = names.binding? := by
  funext name
  rw [Expander.binding?, Expander.binding?, has.frame, has.root]

theorem HasNames.findMacro? (has : state.HasNames names) : state.findMacro? = names.findMacro? := by
  funext name
  rw [Expander.findMacro?, Expander.findMacro?, has.macros]

theorem HasNames.meaning? (has : state.HasNames names) : state.meaning? = names.meaning? := by
  funext name
  rw [Expander.meaning?, Expander.meaning?, has.binding?, has.constants, has.findMacro?]

theorem HasNames.callee? (has : state.HasNames names) : state.callee? = names.callee? := by
  funext name
  rw [Expander.callee?, Expander.callee?, has.binding?, has.findMacro?]

theorem HasNames.renamed? (has : state.HasNames names) : state.renamed? = names.renamed? := by
  funext name
  rw [Expander.renamed?, Expander.renamed?, has.frame, has.root]

theorem HasNames.inFrame (has : state.HasNames names) (frame : Frame) :
    { state with frame := frame }.HasNames { names with frame := frame } :=
  ⟨has.macros, has.constants, has.root, rfl⟩

/-- Whether a step has the given outcome in every state with some names, and leaves the names and
the symbol table as they are when it succeeds. -/
def Yields (names : Expander) (step : Expand α) (outcome : Checked α) : Prop :=
  ∀ state, state.HasNames names → ∃ after, step.perform state = (outcome, after) ∧
    ∀ value, outcome = .ok value → after.HasNames names ∧ after.table = state.table

/-- Whether the outcome of a step depends on names only. -/
def IsSteady (names : Expander) (step : Expand α) : Prop :=
  ∃ outcome, names.Yields step outcome

namespace Yields

variable {step : Expand α} {next : α → Expand β} {value : α} {outcome : Checked β}

theorem pure (value : α) : names.Yields (Pure.pure value) (.ok value) :=
  fun state has => ⟨state, rfl, fun _ _ => ⟨has, rfl⟩⟩

theorem lift (outcome : Checked α) : names.Yields (liftM outcome : Expand α) outcome :=
  fun state has => ⟨state, rfl, fun _ _ => ⟨has, rfl⟩⟩

theorem bind (first : names.Yields step (.ok value)) (second : names.Yields (next value) outcome) :
    names.Yields (step >>= next) outcome := by
  intro state has
  obtain ⟨middle, performed, kept⟩ := first state has
  obtain ⟨hasMiddle, sameTable⟩ := kept value rfl
  obtain ⟨after, continued, keptAfter⟩ := second middle hasMiddle
  refine ⟨after, by rw [perform_bind, performed]; exact continued, fun result succeeds => ?_⟩
  obtain ⟨hasAfter, tableAfter⟩ := keptAfter result succeeds
  exact ⟨hasAfter, tableAfter.trans sameTable⟩

theorem bind_error {failure : Failure} (first : names.Yields step (.error failure)) :
    names.Yields (step >>= next) (.error failure) := by
  intro state has
  obtain ⟨middle, performed, -⟩ := first state has
  exact ⟨middle, by rw [perform_bind, performed], by simp⟩

theorem get {next : Expander → Expand α} {outcome : Checked α}
    (same : ∀ state, state.HasNames names → next state = next names)
    (continues : names.Yields (next names) outcome) : names.Yields (get >>= next) outcome := by
  intro state has
  rw [perform_bind, perform_get]
  dsimp only
  rw [same state has]
  exact continues state has

theorem modify {change : Expander → Expander}
    (kept : ∀ state : Expander, (change state).HasNames state ∧ (change state).table = state.table) :
    names.Yields (modify change : Expand Unit) (.ok ()) := by
  intro state has
  obtain ⟨alike, sameTable⟩ := kept state
  exact ⟨change state, rfl, fun _ _ => ⟨⟨alike.macros.trans has.macros,
    alike.constants.trans has.constants, alike.root.trans has.root, alike.frame.trans has.frame⟩,
    sameTable⟩⟩

theorem inFrame {frame : Frame} {outcome : Checked α}
    (inside : { names with frame := frame }.Yields step outcome) :
    names.Yields (inFrame frame step) outcome := by
  intro state has
  obtain ⟨after, performed, kept⟩ := inside _ (has.inFrame frame)
  cases outcome with
  | error failure =>
    refine ⟨after, ?_, by simp⟩
    simp only [Expander.inFrame, perform_bind, perform_get, perform_modify, performed]
  | ok value =>
    obtain ⟨hasAfter, sameTable⟩ := kept value rfl
    refine ⟨{ after with frame := state.frame }, ?_, fun _ _ => ⟨?_, sameTable⟩⟩
    · simp only [Expander.inFrame, perform_bind, perform_get, perform_modify,
        performed, perform_pure]
    · exact ⟨hasAfter.macros, hasAfter.constants, hasAfter.root, has.frame⟩

theorem mapM_nil {step : α → Expand β} : names.Yields (([] : List α).mapM step) (.ok []) := .pure []

theorem mapM_cons {step : α → Expand β} {item : α} {rest : List α} {first : β} {others : List β}
    (ofItem : names.Yields (step item) (.ok first))
    (ofRest : names.Yields (rest.mapM step) (.ok others)) :
    names.Yields ((item :: rest).mapM step) (.ok (first :: others)) := by
  rw [List.mapM_cons]
  exact ofItem.bind (ofRest.bind (.pure _))

theorem ok {outcome : Checked α} {result : α} {after : Expander} (yields : names.Yields step outcome)
    (has : state.HasNames names) (ran : step.perform state = (.ok result, after)) :
    outcome = .ok result ∧ after.HasNames names ∧ after.table = state.table := by
  obtain ⟨_, performed, kept⟩ := yields state has
  obtain ⟨rfl, rfl⟩ := Prod.mk.inj (performed.symm.trans ran)
  exact ⟨rfl, kept result rfl⟩

end Yields

namespace IsSteady

variable {step : Expand α} {next : α → Expand β}

theorem pure (value : α) : names.IsSteady (Pure.pure value : Expand α) := ⟨_, .pure value⟩

theorem lift (outcome : Checked α) : names.IsSteady (liftM outcome : Expand α) := ⟨_, .lift outcome⟩

theorem bind (first : names.IsSteady step)
    (rest : ∀ value, names.Yields step (.ok value) → names.IsSteady (next value)) :
    names.IsSteady (step >>= next) := by
  obtain ⟨failure | value, yields⟩ := first
  · exact ⟨_, yields.bind_error⟩
  · obtain ⟨outcome, continues⟩ := rest value yields
    exact ⟨outcome, yields.bind continues⟩

theorem get {next : Expander → Expand α}
    (same : ∀ state, state.HasNames names → next state = next names)
    (continues : names.IsSteady (next names)) : names.IsSteady (get >>= next) := by
  obtain ⟨outcome, yields⟩ := continues
  exact ⟨outcome, .get same yields⟩

theorem mapM {step : α → Expand β} {items : List α}
    (each : ∀ item ∈ items, names.IsSteady (step item)) : names.IsSteady (items.mapM step) := by
  induction items with
  | nil => exact .pure []
  | cons item rest ih =>
    rw [mapM_cons]
    refine (each item mem_cons_self).bind fun first _ => ?_
    refine (ih fun other mem => ?_).bind fun others _ => .pure _
    exact each other (mem_cons_of_mem _ mem)

end IsSteady

/-! ### Operands -/

theorem isSteady_substituteVariable (binding : Variable) :
    names.IsSteady (substituteVariable binding) := by
  refine .get (fun state has => by rw [has.meaning?]) ?_
  split
  · exact .pure _
  · exact .pure _
  · exact (IsSteady.lift _).bind fun _ _ => .lift _

theorem isSteady_substitute (free : ¬ node.UsesTemplate) : names.IsSteady (substitute node) := by
  induction node with
  | step node ih =>
    by_cases ordinary : node.isVariable = false ∧ node.isReference = false ∧
        node.isDefinition = false
    · obtain ⟨notVariable, notReference, notDefinition⟩ := ordinary
      rw [substitute_eq_mapChildren notVariable notReference notDefinition, Node.mapChildren_eq]
      refine (IsSteady.mapM fun child mem => ?_).bind fun _ _ => .lift _
      exact ih child mem (Node.not_usesTemplate_child notDefinition free mem)
    · cases node with
      | var binding =>
        rw [substitute]
        exact isSteady_substituteVariable binding
      | labelReference origin mark offset =>
        have literal : ¬ SymbolTable.isTemplate mark.name := fun template => free (.reference template)
        rw [substitute, substituteReference, if_neg literal]
        exact .pure _
      | localReference origin mark =>
        rw [substitute]
        exact .get (fun state has => by rw [has.renamed?]) (.pure _)
      | definition origin name parameters body =>
        rw [substitute]
        exact (IsSteady.lift _).bind fun _ _ => .lift _
      | _ => exact absurd ⟨rfl, rfl, rfl⟩ ordinary

theorem yields_evaluateMacro (origin : Origin) (name : Value) (parameters : List Node)
    (body : Node) : names.Yields (evaluateOperand (.definition origin name parameters body))
      (.ok (.closure ⟨origin, name, parameters, body⟩ names.frame)) :=
  .get (fun state has => by rw [has.frame]) (.pure _)

theorem yields_evaluateVariable (binding : Variable) : names.Yields (evaluateOperand (.var binding))
      (.ok ((names.meaning? binding.name).getD (.operand (.var binding)))) :=
  .get (fun state has => by rw [has.meaning?]) (.pure _)

theorem isSteady_evaluateOperand {operand : Node} (free : ¬ operand.UsesTemplate) :
    names.IsSteady (evaluateOperand operand) := by
  by_cases notDefinition : operand.isDefinition = false
  · by_cases notVariable : operand.isVariable = false
    · rw [evaluateOperand_eq notVariable notDefinition]
      exact (isSteady_substitute free).bind fun _ _ => .pure _
    · cases operand with
      | var binding => exact ⟨_, yields_evaluateVariable binding⟩
      | _ => exact absurd rfl notVariable
  · cases operand with
    | definition origin name parameters body =>
      exact ⟨_, yields_evaluateMacro origin name parameters body⟩
    | _ => exact absurd rfl notDefinition

theorem isSteady_substituteAll {nodes : List Node} (free : ∀ node ∈ nodes, ¬ node.UsesTemplate) :
    names.IsSteady (substituteAll nodes) := by
  rw [substituteAll_eq_mapM]
  exact .mapM fun node mem => isSteady_substitute (free node mem)

/-! ### Invocations -/

variable {definition : Definition} {invocation : Invocation} {captured : Frame}

theorem yields_countExpansion (invocation : Invocation) :
    names.Yields (countExpansion invocation) (.ok ()) :=
  Yields.bind (.modify fun _ => ⟨⟨rfl, rfl, rfl, rfl⟩, rfl⟩)
    (.modify fun _ => ⟨⟨rfl, rfl, rfl, rfl⟩, rfl⟩)

theorem yields_calleeOf (callee : names.callee? invocation.name = some (definition, captured))
    (arity : invocation.operands.length = definition.parameters.length) :
    names.Yields (calleeOf invocation) (.ok (definition, captured)) := by
  refine .get (fun state has => ?_) ?_
  · rw [has.callee?, refuseInvocation, refuseInvocation, has.binding?, has.macros]
  · rw [callee]
    dsimp only
    rw [if_pos arity]
    exact .pure _

theorem isSteady_calleeOf (invocation : Invocation) : names.IsSteady (calleeOf invocation) := by
  refine .get (fun state has => ?_) ?_
  · rw [has.callee?, refuseInvocation, refuseInvocation, has.binding?, has.macros]
  · split
    · exact .lift _
    · split
      · exact .pure _
      · exact (IsSteady.lift _).bind fun _ _ => .lift _

theorem bindParameters_table (table other : SymbolTable) (pairs : List (Node × Bound)) :
    bindParameters table pairs = bindParameters other pairs := by
  induction pairs with
  | nil => rfl
  | cons pair rest ih =>
    obtain ⟨parameter, argument⟩ := pair
    rw [bindParameters, bindParameters, parameterName_table table other, ih]

variable {arguments : List Bound} {scope : Scope Bound}

theorem yields_openScope {bindings : List (String × Bound)}
    (evaluated : names.Yields (invocation.operands.mapM evaluateOperand) (.ok arguments))
    (bound : bindParameters names.table (definition.parameters.zip arguments) = .ok bindings)
    (unlabelled : definition.body.localLabels = []) :
    names.Yields (openScope definition invocation) (.ok ⟨bindings, []⟩) := by
  refine evaluated.bind (.get (fun state _ => ?_) ?_)
  · rw [bindParameters_table state.table names.table]
  · rw [bound, unlabelled, lift_ok, pure_bind, renameLabels, pure_bind]
    exact .pure _

theorem isSteady_openScope (free : ∀ operand ∈ invocation.operands, ¬ operand.UsesTemplate)
    (unlabelled : definition.body.localLabels = []) :
    names.IsSteady (openScope definition invocation) := by
  refine (IsSteady.mapM fun operand mem =>
    isSteady_evaluateOperand (free operand mem)).bind fun arguments _ => ?_
  refine .get (fun state _ => by rw [bindParameters_table state.table names.table]) ?_
  refine (IsSteady.lift _).bind fun bindings _ => ?_
  rw [unlabelled, renameLabels, pure_bind]
  exact .pure _

theorem yields_invoke {outcome : Checked (List Node)}
    (callee : names.callee? invocation.name = some (definition, captured))
    (arity : invocation.operands.length = definition.parameters.length)
    (opens : names.Yields (openScope definition invocation) (.ok scope))
    (inside : { names with frame := scope :: captured }.Yields
      (expandNode (invoke limit depth) definition.body) outcome) :
    names.Yields (invoke limit (depth + 1) invocation) outcome :=
  (yields_calleeOf callee arity).bind (opens.bind ((yields_countExpansion invocation).bind
    inside.inFrame))

/-! ### Statements -/

theorem isSteady_expandItems {invoke : Invocation → Expand (List Node)}
    (each : ∀ item ∈ items, names.IsSteady (expandNode invoke item)) :
    names.IsSteady (expandItems invoke items) := by
  induction items with
  | nil =>
    rw [expandItems]
    exact .pure []
  | cons item rest ih =>
    rw [expandItems]
    refine (each item mem_cons_self).bind fun first _ => ?_
    refine (ih fun other mem => ?_).bind fun others _ => .pure _
    exact each other (mem_cons_of_mem _ mem)

theorem isSteady_expandNode {invoke : Invocation → Expand (List Node)} (plain : node.IsPlain)
    (invokes : ∀ invocation, node.Makes invocation → names.IsSteady (invoke invocation)) :
    names.IsSteady (expandNode invoke node) := by
  induction plain with
  | sequence _ ih =>
    rw [expandNode]
    exact isSteady_expandItems fun item mem => ih item mem
      fun invocation inside => invokes invocation (.item mem inside)
  | conditional _ _ ofThen ofElse =>
    rw [expandNode]
    refine (ofThen fun invocation inside => invokes invocation (.thenCase inside)).bind fun _ _ => ?_
    refine (ofElse fun invocation inside => invokes invocation (.elseCase inside)).bind fun _ _ => ?_
    exact .pure _
  | @single node notSequence notConditional notDeclaration noTemplate =>
    by_cases isOperand : node.isOperand
    · rw [expandNode_eq_substitute isOperand]
      exact (isSteady_substitute noTemplate).bind fun _ _ => .pure _
    cases node with
    | call origin name operands comment writtenName =>
      rw [expandNode]
      exact invokes _ (.call ..)
    | instruction origin opcode operands comment =>
      rw [expandNode]
      refine .get (fun state has => by rw [has.callee?]) ?_
      split
      · exact invokes _ (.instruction ..)
      · refine (isSteady_substituteAll fun operand mem => ?_).bind fun _ _ => .pure _
        exact Node.not_usesTemplate_child rfl noTemplate mem
    | definition origin name parameters body =>
      rw [expandNode]
      refine .get (fun state has => by rw [has.frame]) ?_
      split
      · exact .pure _
      · exact (IsSteady.lift _).bind fun _ _ => .lift _
    | skip origin =>
      rw [expandNode]
      exact .pure _
    | trap origin =>
      rw [expandNode]
      exact .pure _
    | label | localLabel | constant => cases notDeclaration
    | sequence => cases notSequence
    | conditional => cases notConditional
    | _ => exact absurd rfl isOperand

theorem isSteady_invoke (limit : Int) (depth : Nat) :
    ∀ (names : Expander) (node : Node) (invocation : Invocation), names.StaysPlain node →
      node.Makes invocation → names.IsSteady (invoke limit depth invocation) := by
  induction depth with
  | zero =>
    intro names node invocation plain makes
    rw [invoke]
    refine (isSteady_calleeOf invocation).bind fun _ _ => ?_
    exact (IsSteady.lift _).bind fun _ _ => .lift _
  | succ depth ih =>
    intro names node invocation plain makes
    rw [invoke]
    refine (isSteady_calleeOf invocation).bind fun found yields => ?_
    obtain ⟨definition, captured⟩ := found
    -- The states with the names include the names themselves, so the macro is the one found there.
    obtain ⟨_, performed, -⟩ := yields names (.refl names)
    obtain ⟨-, callee, -⟩ := calleeOf_ok performed
    have plainBody := plain.reached _ (.here makes callee)
    refine (isSteady_openScope (plain.own.operands makes) plainBody.localLabels).bind
      fun scope opens => ?_
    obtain ⟨opened, opensHere, -⟩ := opens names (.refl names)
    refine IsSteady.bind ⟨_, yields_countExpansion invocation⟩ fun _ _ => ?_
    obtain ⟨outcome, inside⟩ := isSteady_expandNode plainBody fun inner holds =>
      ih { names with frame := scope :: captured } _ inner
        ⟨plainBody, fun other reaches => plain.reached _ (.inside makes callee opensHere reaches)⟩
        holds
    exact ⟨outcome, inside.inFrame⟩

/-- What a statement is expanded to depends on names only if it is plain and so are all macros
that are invoked from there. -/
theorem StaysPlain.isSteady (plain : names.StaysPlain node) (limit : Int) (depth : Nat) :
    names.IsSteady (expandNode (invoke limit depth) node) :=
  isSteady_expandNode plain.own fun invocation makes =>
    isSteady_invoke limit depth names node invocation plain makes

/-! ### Depth -/

/-- Whether a step gives all the results that another one gives. -/
def Includes (step other : Expand α) : Prop :=
  ∀ state result after, other.perform state = (.ok result, after) →
    step.perform state = (.ok result, after)

theorem Includes.bind {step other : Expand α} {next otherNext : α → Expand β}
    (first : Includes step other) (rest : ∀ value, Includes (next value) (otherNext value)) :
    Includes (step >>= next) (other >>= otherNext) := by
  intro state result after ran
  obtain ⟨value, middle, performed, continued⟩ := perform_bind_ok.mp ran
  exact perform_bind_ok.mpr ⟨value, middle, first _ _ _ performed, rest value _ _ _ continued⟩

theorem Includes.refl (step : Expand α) : Includes step step := fun _ _ _ ran => ran

theorem includes_expandNode {invoke other : Invocation → Expand (List Node)}
    (more : ∀ invocation, Includes (invoke invocation) (other invocation)) (node : Node) :
    Includes (expandNode invoke node) (expandNode other node) := by
  induction node with
  | step node ih =>
    by_cases isOperand : node.isOperand
    · rw [expandNode_eq_substitute isOperand, expandNode_eq_substitute isOperand]
      exact .refl _
    cases node with
    | sequence origin items =>
      rw [expandNode, expandNode]
      replace ih : ∀ item ∈ items, _ := ih
      clear isOperand
      induction items with
      | nil =>
        rw [expandItems, expandItems]
        exact .refl _
      | cons item rest others =>
        rw [expandItems, expandItems]
        refine (ih item mem_cons_self).bind fun _ => ?_
        refine (others fun next mem => ?_).bind fun _ => .refl _
        exact ih next (mem_cons_of_mem _ mem)
    | call origin name operands comment writtenName =>
      rw [expandNode, expandNode]
      exact more _
    | instruction origin opcode operands comment =>
      rw [expandNode, expandNode]
      refine (Includes.refl _).bind fun state => ?_
      split
      · exact more _
      · exact .refl _
    | conditional origin predicate thenCase elseCase =>
      rw [expandNode, expandNode]
      refine (ih thenCase (by simp [Node.children])).bind fun _ => ?_
      exact (ih elseCase (by simp [Node.children])).bind fun _ => .refl _
    | _ => exact .refl _

theorem includes_invoke (limit : Int) {further : Nat} (deeper : depth ≤ further) :
    ∀ invocation, Includes (invoke limit further invocation) (invoke limit depth invocation) := by
  induction depth generalizing further with
  | zero =>
    intro invocation state results after ran
    simp only [invoke, perform_bind_ok, perform_lift, report, Prod.mk.injEq,
      reduceCtorEq, false_and, and_false, exists_false] at ran
  | succ depth ih =>
    intro invocation
    obtain ⟨further, rfl⟩ : ∃ less, further = less + 1 := ⟨further - 1, by omega⟩
    rw [invoke, invoke]
    refine (Includes.refl _).bind fun found => (Includes.refl _).bind fun scope => ?_
    refine (Includes.refl _).bind fun _ => (Includes.refl _).bind fun outer => ?_
    refine (Includes.refl _).bind fun _ => Includes.bind ?_ fun _ => .refl _
    exact includes_expandNode (ih (by omega)) _

/-! ### Macros -/

/-- Whether a step has one outcome in all states with some names, and gives what is wanted if it
succeeds. -/
def Gives (names : Expander) (step : Expand α) (wanted : α → Prop) : Prop :=
  ∃ outcome, names.Yields step outcome ∧ ∀ value, outcome = .ok value → wanted value

/-- Whether a macro that is expanded in some scopes expands to some results in a state, with its
parameters bound to some arguments. -/
def MacroExpands (limit : Int) (state : Expander) (definition : Definition) (captured : Frame)
    (arguments : List Bound) (results : List Node) : Prop :=
  ∃ bindings after,
    bindParameters state.table (definition.parameters.zip arguments) = .ok bindings ∧
      (expandNode (invoke limit limit.toNat) definition.body).perform
        { state with frame := ⟨bindings, []⟩ :: captured } = (.ok results, after)

/-- Whether the body of a macro that is expanded in some scopes is plain, and so are the bodies of
all macros that are invoked from there, with the parameters bound to some arguments. -/
def IsPlainMacro (state : Expander) (definition : Definition) (captured : Frame)
    (arguments : List Bound) : Prop :=
  ∀ bindings, bindParameters state.table (definition.parameters.zip arguments) = .ok bindings →
    { state with frame := ⟨bindings, []⟩ :: captured }.StaysPlain definition.body

theorem yields_invoke_zero (invocation : Invocation) :
    ∃ failure, names.Yields (invoke limit 0 invocation) (.error failure) := by
  obtain ⟨failure | found, yields⟩ := names.isSteady_calleeOf invocation
  · exact ⟨failure, yields.bind_error⟩
  · rw [invoke]
    cases shown : invocation.statement.construct with
    | error failure => exact ⟨failure, yields.bind (Yields.bind_error (.lift _))⟩
    | ok text => exact ⟨_, yields.bind ((Yields.lift (.ok text)).bind (.lift _))⟩

theorem gives_invoke {wanted : List Node → Prop}
    (callee : names.callee? invocation.name = some (definition, captured))
    (arity : invocation.operands.length = definition.parameters.length)
    (opens : names.Yields (openScope definition invocation) (.ok scope))
    (inside : ∀ less, depth = less + 1 → { names with frame := scope :: captured }.Gives
      (expandNode (invoke limit less) definition.body) wanted) :
    names.Gives (invoke limit depth invocation) wanted := by
  cases depth with
  | zero =>
    obtain ⟨failure, yields⟩ := names.yields_invoke_zero invocation
    exact ⟨_, yields, by simp⟩
  | succ less =>
    obtain ⟨outcome, yields, holds⟩ := inside less rfl
    exact ⟨outcome, yields_invoke callee arity opens yields, holds⟩

theorem gives_plainMacro (callee : names.callee? invocation.name = some (definition, captured))
    (arity : invocation.operands.length = definition.parameters.length)
    (evaluated : names.Yields (invocation.operands.mapM evaluateOperand) (.ok arguments))
    (plain : names.IsPlainMacro definition captured arguments) (within : depth ≤ limit.toNat) :
    names.Gives (invoke limit depth invocation)
      (names.MacroExpands limit definition captured arguments) := by
  cases bound : bindParameters names.table (definition.parameters.zip arguments) with
  | error failure =>
    cases depth with
    | zero =>
      obtain ⟨failure, yields⟩ := names.yields_invoke_zero invocation
      exact ⟨_, yields, by simp⟩
    | succ less =>
      have fails : names.Yields (openScope definition invocation) (.error failure) := by
        refine evaluated.bind (.get (fun state _ => ?_) ?_)
        · rw [bindParameters_table state.table names.table]
        · rw [bound]
          exact Yields.bind_error (.lift _)
      exact ⟨_, (yields_calleeOf callee arity).bind fails.bind_error, by simp⟩
  | ok bindings =>
    have stays := plain bindings bound
    refine gives_invoke callee arity (yields_openScope evaluated bound stays.own.localLabels)
      fun less deeper => ?_
    obtain ⟨outcome, yields⟩ := stays.isSteady limit less
    refine ⟨outcome, yields, fun results succeeds => ?_⟩
    obtain ⟨after, performed, -⟩ := yields _ (.refl _)
    rw [succeeds] at performed
    exact ⟨bindings, after, bound,
      includes_expandNode (includes_invoke limit (by omega)) _ _ _ _ performed⟩

end Expander

end MacroAssembler
