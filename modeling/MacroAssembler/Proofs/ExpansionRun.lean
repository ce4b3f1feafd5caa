/-
This module says what a run of macro expansion does, step by step.

Expansion is defined by recursion on the depth that is left and on the statements. A run that
succeeds has no more use for the depth, so it is told here by rules, one for each kind of statement
and one for an invocation. Along with its result a run leaves a trace: the operands it resolved
where it started, and all invocations it opened on the way, each with the operands that were
resolved directly in its body.
-/
import MacroAssembler.Proofs.OpenedScope

namespace MacroAssembler

open Action Expander

/-! ### Traces -/

structure Resolution where
  state : Expander
  written : Node
  result : Node

/-- An invocation that was expanded: the state in which it was met, the macro with the frame it is
expanded in, what the operands were bound as, the scope, and the operands that were resolved
directly in the body. -/
structure Opening where
  before : Expander
  invocation : Invocation
  definition : Definition
  captured : Frame
  arguments : List Bound
  scope : Scope Bound
  resolutions : List Resolution

/-- What a run did: the operands it resolved where it started, and the invocations it opened. -/
structure Trace where
  resolutions : List Resolution := []
  openings : List Opening := []

namespace Trace

def append (first second : Trace) : Trace :=
  ⟨first.resolutions ++ second.resolutions, first.openings ++ second.openings⟩

def ofOperands (state : Expander) (written results : List Node) : Trace :=
  { resolutions := List.zipWith (Resolution.mk state) written results }

/-- The operand that an operand of an invocation was resolved to, unless it is bound as a macro. -/
def argumentResolution? (state : Expander) (written : Node) : Bound → Option Resolution
  | .operand result => some ⟨state, written, result⟩
  | .closure .. => none

/-- Operands of an invocation that were evaluated in a state. -/
def ofArguments (state : Expander) (written : List Node) (arguments : List Bound) :
    List Resolution :=
  (List.zipWith (argumentResolution? state) written arguments).filterMap id

end Trace

/-! ### Rules -/

inductive Task
  | statement (node : Node)
  | statements (items : List Node)
  | invocation (invocation : Invocation)

namespace Expander

def withBinding (state : Expander) (name : String) (bound : Bound) : Expander :=
  ((bind name bound).perform state).2

def counted (state : Expander) (invocation : Invocation) : Expander :=
  { state with
    expansions := state.expansions + 1
    notices := state.notices ++ [.expanding invocation.statement.origin
      invocation.shown.display invocation.operands.length] }

def entered (state : Expander) (invocation : Invocation) (frame : Frame) : Expander :=
  { state.counted invocation with frame := frame }

end Expander

/-- The rules of expansion: a task is expanded to statements, with a trace. -/
inductive Expands : Expander → Task → List Node → Trace → Expander → Prop
  | nothing (state : Expander) : Expands state (.statements []) [] {} state
  | statements {before middle after : Expander} {item : Node} {rest first others : List Node}
      {firstTrace otherTrace : Trace}
      (expandsFirst : Expands before (.statement item) first firstTrace middle)
      (expandsRest : Expands middle (.statements rest) others otherTrace after) :
      Expands before (.statements (item :: rest)) (first ++ others) (firstTrace.append otherTrace)
        after
  | sequence {before after : Expander} {items results : List Node} {trace : Trace}
      (origin : Origin) (expands : Expands before (.statements items) results trace after) :
      Expands before (.statement (.sequence origin items)) results trace after
  | call {before after : Expander} {origin : Origin} {name : String} {operands results : List Node}
      {comment writtenName : Value} {trace : Trace}
      (expands : Expands before (.invocation ⟨name, writtenName.orElse (.text name), operands,
        .call origin name operands comment writtenName⟩) results trace after) :
      Expands before (.statement (.call origin name operands comment writtenName)) results trace
        after
  | macroInstruction {before after : Expander} {origin : Origin} {opcode : String}
      {operands results : List Node} {comment : Value} {trace : Trace}
      (expands : Expands before (.invocation ⟨opcode, .text opcode, operands,
        .instruction origin opcode operands comment⟩) results trace after) :
      Expands before (.statement (.instruction origin opcode operands comment)) results trace after
  | instruction {before after : Expander} {operands results : List Node} (origin : Origin)
      (opcode : String) (comment : Value) (uses : before.Uses after)
      (resolves : List.Forall₂ (Resolves before.meaning? before.renamed?) operands results) :
      Expands before (.statement (.instruction origin opcode operands comment))
        [.instruction origin opcode results comment] (.ofOperands before operands results) after
  | literalLabel (state : Expander) (mark : Label)
      (literal : SymbolTable.isTemplate mark.name = false) :
      Expands state (.statement (.label mark)) [.label mark] {} state
  | templateLabel (state : Expander) (mark : Label) (name : String)
      (template : SymbolTable.isTemplate mark.name = true)
      (interpolated : state.interpolate (.label mark) mark.name = .ok name) :
      Expands state (.statement (.label mark)) [.label (state.table.defineLabel name mark.origin).1]
        {} { state with table := (state.table.defineLabel name mark.origin).2 }
  | localLabel (state : Expander) (mark : LocalLabel) :
      Expands state (.statement (.localLabel mark))
        [.localLabel ((state.renamed? mark.name).getD mark)] {} state
  | constant {before middle : Expander} {value result : Node} (origin : Origin)
      (binding : Variable) (uses : before.Uses middle)
      (resolves : Resolves before.meaning? before.renamed? value result) :
      Expands before (.statement (.constant origin binding value))
        [.constant origin binding result] (.ofOperands before [value] [result])
        (middle.withBinding binding.name (.operand result))
  | definition (state : Expander) (origin : Origin) (name : Value) (parameters : List Node)
      (body : Node) (named : name.isNull = false) (outermost : state.frame = []) :
      Expands state (.statement (.definition origin name parameters body)) [] {} state
  | conditional {before middle after : Expander} {thenCase elseCase : Node}
      {thenItems elseItems : List Node} {thenTrace elseTrace : Trace} (origin : Origin)
      (predicate : Node) (expandsThen : Expands before (.statement thenCase) thenItems thenTrace
        middle)
      (expandsElse : Expands middle (.statement elseCase) elseItems elseTrace after) :
      Expands before (.statement (.conditional origin predicate thenCase elseCase))
        [.conditional origin predicate (.sequence thenCase.origin thenItems)
          (.sequence elseCase.origin elseItems)] (thenTrace.append elseTrace) after
  | skip (state : Expander) (origin : Origin) :
      Expands state (.statement (.skip origin)) [] {} state
  | trap (state : Expander) (origin : Origin) :
      Expands state (.statement (.trap origin)) [.trap origin] {} state
  | operand {before after : Expander} {node result : Node} (isOperand : node.isOperand)
      (uses : before.Uses after)
      (resolves : Resolves before.meaning? before.renamed? node result) :
      Expands before (.statement node) [result] (.ofOperands before [node] [result]) after
  | invocation {before opened after : Expander} {invocation : Invocation} {definition : Definition}
      {captured : Frame} {arguments : List Bound} {scope : Scope Bound} {results : List Node}
      {trace : Trace} (callee : before.callee? invocation.name = some (definition, captured))
      (arity : invocation.operands.length = definition.parameters.length)
      (opens : before.Opens definition invocation arguments scope opened)
      (expands : Expands (opened.entered invocation (scope :: captured))
        (.statement definition.body) results trace after) :
      Expands before (.invocation invocation) results
        ⟨Trace.ofArguments before invocation.operands arguments,
          ⟨before, invocation, definition, captured, arguments, scope, trace.resolutions⟩ ::
            trace.openings⟩
        { after with frame := before.frame }

/-! ### Expansion follows the rules -/

namespace Expander

variable {state after : Expander}

variable {node : Node} {results statements : List Node} {invocation : Invocation} {done : Unit}
  {parts : List (Node ⊕ Node)} {limit : Int}

theorem expandLabel_ok {mark : Label} (ran : (expandLabel mark).perform state = (.ok node, after)) :
    Expands state (.statement (.label mark)) [node] {} after := by
  unfold expandLabel at ran
  split at ran
  · rename_i template
    simp only [perform_bind_ok, perform_get, perform_lift, perform_onTable,
      perform_pure, Prod.mk.injEq, Except.ok.injEq] at ran
    obtain ⟨_, _, ⟨rfl, rfl⟩, name, _, ⟨interpolated, rfl⟩, _, _, ⟨rfl, rfl⟩, rfl, rfl⟩ := ran
    exact .templateLabel _ mark name template interpolated
  · rename_i literal
    simp only [pure_ok] at ran
    obtain ⟨rfl, rfl⟩ := ran
    exact .literalLabel _ mark (by simpa using literal)

theorem expandItems_ok {invoke : Invocation → Expand (List Node)} {items : List Node}
    (each : ∀ item ∈ items, ∀ state results after,
      (expandNode invoke item).perform state = (.ok results, after) →
        ∃ trace, Expands state (.statement item) results trace after)
    (ran : (expandItems invoke items).perform state = (.ok results, after)) :
    ∃ trace, Expands state (.statements items) results trace after := by
  induction items generalizing state results with
  | nil =>
    simp only [expandItems, pure_ok] at ran
    obtain ⟨rfl, rfl⟩ := ran
    exact ⟨_, .nothing _⟩
  | cons item rest ih =>
    simp only [expandItems, perform_bind_ok, pure_ok] at ran
    obtain ⟨first, middle, expandsFirst, others, _, expandsRest, rfl, rfl⟩ := ran
    obtain ⟨firstTrace, first⟩ := each item List.mem_cons_self _ _ _ expandsFirst
    obtain ⟨otherTrace, others⟩ := ih
      (fun item mem => each item (List.mem_cons_of_mem _ mem)) expandsRest
    exact ⟨_, .statements first others⟩

theorem expandNode_eq_substitute {invoke : Invocation → Expand (List Node)}
    (isOperand : node.isOperand) :
    expandNode invoke node = substitute node >>= fun result => pure [result] := by
  cases node <;> first | rfl | cases isOperand

theorem expandNode_ok {invoke : Invocation → Expand (List Node)}
    (invokes : ∀ invocation state results after,
      (invoke invocation).perform state = (.ok results, after) →
        ∃ trace, Expands state (.invocation invocation) results trace after)
    (node : Node) : ∀ state results after,
      (expandNode invoke node).perform state = (.ok results, after) →
        ∃ trace, Expands state (.statement node) results trace after := by
  induction node with
  | step node ih =>
    intro state results after ran
    by_cases isOperand : node.isOperand
    · simp only [expandNode_eq_substitute isOperand, perform_bind_ok, pure_ok] at ran
      obtain ⟨result, _, replaced, rfl, rfl⟩ := ran
      obtain ⟨uses, resolves⟩ := substitute_ok _ _ _ _ replaced
      exact ⟨_, .operand isOperand uses resolves⟩
    cases node with
    | sequence origin items =>
      rw [expandNode] at ran
      obtain ⟨trace, expands⟩ := expandItems_ok ih ran
      exact ⟨trace, .sequence origin expands⟩
    | call origin name operands comment writtenName =>
      rw [expandNode] at ran
      obtain ⟨trace, expands⟩ := invokes _ _ _ _ ran
      exact ⟨trace, .call expands⟩
    | instruction origin opcode operands comment =>
      simp only [expandNode, perform_bind_ok, perform_get, Prod.mk.injEq, Except.ok.injEq] at ran
      obtain ⟨_, _, ⟨rfl, rfl⟩, decided⟩ := ran
      split at decided
      · obtain ⟨trace, expands⟩ := invokes _ _ _ _ decided
        exact ⟨trace, .macroInstruction expands⟩
      · simp only [perform_bind_ok, pure_ok] at decided
        obtain ⟨resolved, _, replaced, rfl, rfl⟩ := decided
        obtain ⟨uses, resolves⟩ := substituteAll_ok replaced
        exact ⟨_, .instruction origin opcode comment uses resolves⟩
    | label mark =>
      simp only [expandNode, perform_bind_ok, pure_ok] at ran
      obtain ⟨defined, _, expands, rfl, rfl⟩ := ran
      exact ⟨_, expandLabel_ok expands⟩
    | localLabel mark =>
      simp only [expandNode, perform_bind_ok, perform_get, perform_pure,
        Prod.mk.injEq, Except.ok.injEq] at ran
      obtain ⟨_, _, ⟨rfl, rfl⟩, rfl, rfl⟩ := ran
      exact ⟨_, .localLabel _ mark⟩
    | constant origin binding value =>
      simp only [expandNode, perform_bind_ok, pure_ok] at ran
      obtain ⟨result, middle, replaced, _, _, bound, rfl, rfl⟩ := ran
      obtain ⟨uses, resolves⟩ := substitute_ok _ _ _ _ replaced
      obtain rfl : middle.withBinding binding.name (.operand result) = _ := congrArg Prod.snd bound
      exact ⟨_, .constant origin binding uses resolves⟩
    | definition origin name parameters body =>
      simp only [expandNode, perform_bind_ok, perform_get, Prod.mk.injEq, Except.ok.injEq] at ran
      obtain ⟨_, _, ⟨rfl, rfl⟩, decided⟩ := ran
      split at decided
      · rename_i collected
        simp only [Bool.and_eq_true, Bool.not_eq_true', List.isEmpty_iff] at collected
        simp only [pure_ok] at decided
        obtain ⟨rfl, rfl⟩ := decided
        exact ⟨_, .definition _ _ _ _ _ collected.1 collected.2⟩
      · simp only [perform_bind_ok, perform_lift, report, Prod.mk.injEq,
          reduceCtorEq, false_and, and_false, exists_false] at decided
    | conditional origin predicate thenCase elseCase =>
      simp only [expandNode, perform_bind_ok, pure_ok] at ran
      obtain ⟨thenItems, _, expandsThen, elseItems, _, expandsElse, rfl, rfl⟩ := ran
      obtain ⟨_, expandsThen⟩ :=
        ih thenCase (by simp [Node.children]) _ _ _ expandsThen
      obtain ⟨_, expandsElse⟩ :=
        ih elseCase (by simp [Node.children]) _ _ _ expandsElse
      exact ⟨_, .conditional origin predicate expandsThen expandsElse⟩
    | skip origin =>
      simp only [expandNode, pure_ok] at ran
      obtain ⟨rfl, rfl⟩ := ran
      exact ⟨_, .skip _ origin⟩
    | trap origin =>
      simp only [expandNode, pure_ok] at ran
      obtain ⟨rfl, rfl⟩ := ran
      exact ⟨_, .trap _ origin⟩
    | _ => exact absurd rfl isOperand

theorem refuseInvocation_ne_ok {α : Type} (result : α) :
    state.refuseInvocation invocation ≠ .ok result := by
  intro ran
  simp only [refuseInvocation, Checked.bind_ok] at ran
  obtain ⟨_, -, decided⟩ := ran
  split at decided
  · cases decided
  · simp only [Checked.bind_ok, report, reduceCtorEq, and_false, exists_false] at decided

theorem calleeOf_ok {definition : Definition} {captured : Frame}
    (ran : (calleeOf invocation).perform state = (.ok (definition, captured), after)) :
    after = state ∧ state.callee? invocation.name = some (definition, captured) ∧
      invocation.operands.length = definition.parameters.length := by
  simp only [calleeOf, perform_bind_ok, perform_get, Prod.mk.injEq, Except.ok.injEq] at ran
  obtain ⟨_, _, ⟨rfl, rfl⟩, decided⟩ := ran
  split at decided
  · exact absurd (congrArg Prod.fst decided) (refuseInvocation_ne_ok _)
  · rename_i found
    split at decided
    · rename_i arity
      simp only [pure_ok] at decided
      obtain ⟨⟨rfl, rfl⟩, rfl⟩ := decided
      exact ⟨rfl, found, arity⟩
    · simp only [perform_bind_ok, perform_lift, report, Prod.mk.injEq,
        reduceCtorEq, false_and, and_false, exists_false] at decided

theorem perform_countExpansion (invocation : Invocation) :
    (countExpansion invocation).perform state = (.ok (), state.counted invocation) := rfl

/-- A step in another frame succeeds or fails as it would there, and leaves the frame it found. -/
theorem perform_inFrame {α : Type} (frame : Frame) (step : Expand α) (state : Expander) :
    (inFrame frame step).perform state =
      match step.perform { state with frame := frame } with
      | (.ok result, inside) => (.ok result, { inside with frame := state.frame })
      | (.error failure, inside) => (.error failure, inside) := by
  rw [inFrame, perform_bind, perform_get]
  dsimp only
  rw [perform_bind, perform_modify]
  dsimp only
  rw [perform_bind]
  rcases step.perform { state with frame := frame } with ⟨failure | result, inside⟩ <;> rfl

theorem inFrame_ok {α : Type} {frame : Frame} {step : Expand α} {result : α}
    (ran : (inFrame frame step).perform state = (.ok result, after)) :
    ∃ inside, step.perform { state with frame := frame } = (.ok result, inside) ∧
      after = { inside with frame := state.frame } := by
  simp only [inFrame, perform_bind_ok, perform_get, perform_modify,
    perform_pure, Prod.mk.injEq, Except.ok.injEq, true_and] at ran
  obtain ⟨_, _, ⟨rfl, rfl⟩, _, _, rfl, _, inside, performed, _, _, rfl, rfl, rfl⟩ := ran
  exact ⟨inside, performed, rfl⟩

/-- An invocation is expanded by the rules, however deep invocations may nest. -/
theorem invoke_ok (limit : Int) (depth : Nat) : ∀ invocation state results after,
    (invoke limit depth invocation).perform state = (.ok results, after) →
      ∃ trace, Expands state (.invocation invocation) results trace after := by
  induction depth with
  | zero =>
    intro invocation state results after ran
    simp only [invoke, perform_bind_ok, perform_lift, report, Prod.mk.injEq,
      reduceCtorEq, false_and, and_false, exists_false] at ran
  | succ depth ih =>
    intro invocation state results after ran
    simp only [invoke, perform_bind_ok, perform_countExpansion, Prod.mk.injEq, true_and] at ran
    obtain ⟨⟨definition, captured⟩, before, found, scope, opened, opens, _, _, rfl, entered⟩ :=
      ran
    obtain ⟨rfl, callee, arity⟩ := calleeOf_ok found
    obtain ⟨arguments, opens⟩ := openScope_ok opens
    obtain ⟨inside, expanded, rfl⟩ := inFrame_ok entered
    obtain ⟨trace, expands⟩ := expandNode_ok ih _ _ _ _ expanded
    have sameFrame : (opened.counted invocation).frame = before.frame := by
      show opened.frame = before.frame
      rw [opens.rest]
    rw [sameFrame]
    exact ⟨_, .invocation callee arity opens expands⟩

/-! ### Units -/

/-- The macro that a statement of a unit adds, under its name. -/
def collected? : Node → Option (Name × Definition)
  | .definition origin name parameters body =>
    if name.isNull then none
    else (Name.ofValue? name).map fun key => (key, ⟨origin, name, parameters, body⟩)
  | _ => none

theorem toName_ok {value : Value} {name : Name} :
    value.toName = .ok name ↔ Name.ofValue? value = some name := by
  unfold Value.toName
  split
  · simp [*]
  · simp [*, refuse]

theorem collectMacros_ok (ran : (collectMacros statements).perform state = (.ok done, after)) :
    after = { state with macros := state.macros ++ statements.filterMap collected? } := by
  induction statements generalizing state with
  | nil =>
    simp only [collectMacros, perform_pure, Prod.mk.injEq] at ran
    simp [← ran.2]
  | cons stmt rest ih =>
    unfold collectMacros at ran
    split at ran
    · contradiction
    · rename_i same
      cases same
      exact ih ran
    · rename_i origin name parameters body _ named same
      cases same
      simp only [perform_bind_ok, perform_lift, perform_get, Prod.mk.injEq, Except.ok.injEq] at ran
      obtain ⟨key, _, ⟨spelled, rfl⟩, _, _, ⟨rfl, rfl⟩, decided⟩ := ran
      split at decided
      · simp [report] at decided
      · simp only [perform_bind_ok, perform_modify, Prod.mk.injEq, true_and] at decided
        obtain ⟨_, _, rfl, collects⟩ := decided
        have present : name.isNull = false := by
          cases name with
          | null => exact absurd rfl named
          | _ => rfl
        rw [ih collects]
        simp [collected?, present, toName_ok.mp spelled]
    · rename_i other _ unnamed named same
      cases same
      rw [ih ran]
      cases stmt with
      | definition origin name parameters body =>
        exact absurd rfl (named origin name parameters body)
      | _ => rfl

/-- How the constants of a unit are resolved: each declaration gets the value it has where it
stands, and the other statements are kept for later. -/
inductive Declares : Expander → List Node → List (Node ⊕ Node) → Expander → Prop
  | nothing (state : Expander) : Declares state [] [] state
  | constant {before middle after : Expander} {value result : Node} {rest : List Node}
      {parts : List (Node ⊕ Node)} (origin : Origin) (binding : Variable) (notices : List Notice)
      (uses : before.Uses middle)
      (resolves : Resolves before.meaning? before.renamed? value result)
      (declares : Declares { middle with
        constants := Association.set middle.constants binding.name result
        notices := notices } rest parts after) :
      Declares before (.constant origin binding value :: rest)
        (.inl (.constant origin binding result) :: parts) after
  | other {before after : Expander} {item : Node} {rest : List Node} {parts : List (Node ⊕ Node)}
      (notConstant : item.isConstant = false) (declares : Declares before rest parts after) :
      Declares before (item :: rest) (.inr item :: parts) after

theorem noteConstant_ok {origin : Origin} {name : String} {previous value : Node}
    (ran : (noteConstant origin name previous value).perform state = (.ok done, after)) :
    after = { state with notices := after.notices } := by
  simp only [noteConstant, perform_bind_ok, perform_lift, Prod.mk.injEq] at ran
  obtain ⟨_, _, ⟨-, rfl⟩, _, _, ⟨-, rfl⟩, decided⟩ := ran
  split at decided <;> cases decided <;> rfl

theorem resolveConstants_ok
    (ran : (resolveConstants statements).perform state = (.ok parts, after)) :
    Declares state statements parts after := by
  induction statements generalizing state parts with
  | nil =>
    simp only [resolveConstants, pure_ok] at ran
    obtain ⟨rfl, rfl⟩ := ran
    exact .nothing _
  | cons stmt rest ih =>
    by_cases constant : stmt.isConstant
    · cases stmt with
      | constant origin binding value =>
        simp only [resolveConstants, perform_bind_ok, perform_get, Prod.mk.injEq,
          Except.ok.injEq] at ran
        obtain ⟨result, middle, replaced, _, _, ⟨rfl, rfl⟩, decided⟩ := ran
        obtain ⟨uses, resolves⟩ := substitute_ok _ _ _ _ replaced
        have declare : ∀ (noted : Expander) others,
            noted = { middle with notices := noted.notices } →
            (resolveConstants rest).perform { noted with
              constants := Association.set noted.constants binding.name result } =
                (.ok others, after) →
            Declares state (.constant origin binding value :: rest)
              (.inl (.constant origin binding result) :: others) after := by
          intro noted others kept resolved
          rw [kept] at resolved
          exact .constant origin binding _ uses resolves (ih resolved)
        split at decided
        · simp only [perform_bind_ok, perform_modify, perform_pure,
            Prod.mk.injEq, Except.ok.injEq, true_and] at decided
          obtain ⟨_, noted, notes, _, _, rfl, others, _, resolved, rfl, rfl⟩ := decided
          exact declare noted others (noteConstant_ok notes) resolved
        · simp only [perform_bind_ok, perform_modify, perform_pure,
            Prod.mk.injEq, Except.ok.injEq, true_and] at decided
          obtain ⟨_, _, rfl, others, _, resolved, rfl, rfl⟩ := decided
          exact declare middle others rfl resolved
      | _ => cases constant
    · rw [Bool.not_eq_true] at constant
      have skips : resolveConstants (stmt :: rest) =
          resolveConstants rest >>= fun others => pure (.inr stmt :: others) := by
        cases stmt with
        | constant => cases constant
        | _ => rfl
      simp only [skips, perform_bind_ok, pure_ok] at ran
      obtain ⟨others, _, resolved, rfl, rfl⟩ := ran
      exact .other constant (ih resolved)

/-- How the statements of a unit are expanded, with the declarations of constants in between. -/
inductive ExpandsUnit : Expander → List (Node ⊕ Node) → List Node → Trace → Expander → Prop
  | nothing (state : Expander) : ExpandsUnit state [] [] {} state
  | resolved {before after : Expander} {parts : List (Node ⊕ Node)} {results : List Node}
      {trace : Trace} (declaration : Node)
      (expands : ExpandsUnit before parts results trace after) :
      ExpandsUnit before (.inl declaration :: parts) (declaration :: results) trace after
  | statement {before middle after : Expander} {item : Node} {parts : List (Node ⊕ Node)}
      {first others : List Node} {firstTrace otherTrace : Trace}
      (expandsFirst : Expands before (.statement item) first firstTrace middle)
      (expandsRest : ExpandsUnit middle parts others otherTrace after) :
      ExpandsUnit before (.inr item :: parts) (first ++ others) (firstTrace.append otherTrace) after

theorem expandUnit_ok {depth : Nat}
    (ran : (expandUnit (invoke limit depth) parts).perform state = (.ok results, after)) :
    ∃ trace, ExpandsUnit state parts results trace after := by
  induction parts generalizing state results with
  | nil =>
    simp only [expandUnit, pure_ok] at ran
    obtain ⟨rfl, rfl⟩ := ran
    exact ⟨_, .nothing _⟩
  | cons part rest ih =>
    cases part with
    | inl declaration =>
      simp only [expandUnit, perform_bind_ok, pure_ok] at ran
      obtain ⟨others, _, expanded, rfl, rfl⟩ := ran
      obtain ⟨trace, expands⟩ := ih expanded
      exact ⟨trace, .resolved declaration expands⟩
    | inr item =>
      simp only [expandUnit, perform_bind_ok, pure_ok] at ran
      obtain ⟨first, middle, expandedFirst, others, _, expandedRest, rfl, rfl⟩ := ran
      obtain ⟨_, expandsFirst⟩ := expandNode_ok (invoke_ok limit depth) _ _ _ _ expandedFirst
      obtain ⟨_, expandsRest⟩ := ih expandedRest
      exact ⟨_, .statement expandsFirst expandsRest⟩

/-- The state in which the statements of a unit are looked at: outside all macros, with the macros
of the unit collected. -/
def readied (state : Expander) (tree : Node) : Expander :=
  { state with
    frame := []
    macros := state.macros ++ tree.statements.filterMap collected? }

/-- How a unit is expanded: its constants are resolved in the state that knows its macros, and then
its statements are expanded. -/
inductive ExpandsTree (before : Expander) (tree : Node) (results : List Node) (trace : Trace)
    (after : Expander) : Prop
  | intro {parts : List (Node ⊕ Node)} {declared : Expander}
      (declares : Declares (before.readied tree) tree.statements parts declared)
      (expands : ExpandsUnit declared parts results trace after)

/-- Expansion of a unit resolves its constants and expands its statements by the rules. -/
theorem expand_ok {tree result : Node}
    (ran : (expand limit tree).perform state = (.ok result, after)) :
    ∃ results trace expanded, result = .sequence tree.origin results ∧
      after = { expanded with notices := after.notices } ∧
      state.ExpandsTree tree results trace expanded := by
  simp only [expand, note, perform_bind_ok, perform_modify, perform_get,
    perform_pure, Prod.mk.injEq, Except.ok.injEq, true_and] at ran
  obtain ⟨_, _, rfl, _, collected, collects, parts, declared, resolved, results, expanded, expands,
    _, _, ⟨rfl, rfl⟩, _, _, rfl, rfl, rfl⟩ := ran
  obtain rfl := collectMacros_ok collects
  obtain ⟨trace, expands⟩ := expandUnit_ok expands
  exact ⟨results, trace, expanded, rfl, rfl, .intro (resolveConstants_ok resolved) expands⟩

end Expander

end MacroAssembler
