/-
This module says what the operands of a statement become when the statement is expanded.

Every name in an operand is looked up where the statement stands: a variable becomes the operand it
is bound to, a local label becomes the one it was renamed to, and the template of a label becomes
the label it stands for. Everything around the names is built anew from its parts. The meaning of
names does not change on the way, because looking one up changes the symbol table and nothing else.
-/
import MacroAssembler.Expansion.Expander
import MacroAssembler.Proofs.Construction
import MacroAssembler.Proofs.Labels

namespace MacroAssembler

open Action Node

/-- What an operand becomes, given what variables mean and what local labels were renamed to. -/
inductive Resolves (meaning? : String → Option Bound) (renamed? : Name → Option LocalLabel) :
    Node → Node → Prop
  | bound {binding : Variable} {node : Node}
      (meaning : meaning? binding.name = some (.operand node)) :
      Resolves meaning? renamed? (.var binding) node
  | free {binding : Variable} (meaning : meaning? binding.name = none) :
      Resolves meaning? renamed? (.var binding) (.var binding)
  | localReference (origin : Origin) (mark : LocalLabel) :
      Resolves meaning? renamed? (.localReference origin mark)
        (.localReference origin ((renamed? mark.name).getD mark))
  | labelReference (origin : Origin) (mark target : Label) (offset : Int)
      (literal : SymbolTable.isTemplate mark.name = false → target = mark) :
      Resolves meaning? renamed? (.labelReference origin mark offset)
        (.labelReference origin target offset)
  | parts {node result : Node} (notVariable : node.isVariable = false)
      (notReference : node.isReference = false) (notDefinition : node.isDefinition = false)
      (built : node.rebuild result.children = .ok result)
      (resolved : List.Forall₂ (Resolves meaning? renamed?) node.children result.children) :
      Resolves meaning? renamed? node result

namespace Expander

variable {state after later : Expander}

/-! ### What looking up names changes -/

/-- Whether a step changes an expander at most by noting uses of labels. -/
structure Uses (before after : Expander) : Prop where
  rest : after = { before with table := after.table }
  table : before.table.Uses after.table

theorem Uses.refl (state : Expander) : state.Uses state := ⟨rfl, .refl _⟩

theorem Uses.trans (first : state.Uses after) (second : after.Uses later) : state.Uses later where
  rest := by rw [second.rest, first.rest]
  table := first.table.trans second.table

theorem Uses.meaning? (uses : state.Uses after) : after.meaning? = state.meaning? := by
  rw [uses.rest]
  rfl

theorem Uses.renamed? (uses : state.Uses after) : after.renamed? = state.renamed? := by
  rw [uses.rest]
  rfl

@[simp]
theorem perform_onTable {α : Type} (change : SymbolTable → α × SymbolTable) (state : Expander) :
    (onTable change).perform state =
      (.ok (change state.table).1, { state with table := (change state.table).2 }) := rfl

/-! ### Substitution -/

theorem substituteAll_eq_mapM (nodes : List Node) :
    substituteAll nodes = nodes.mapM substitute := by
  induction nodes with
  | nil => rfl
  | cons node rest ih =>
    rw [substituteAll, List.mapM_cons, ih]

theorem substitute_eq_mapChildren {node : Node} (notVariable : node.isVariable = false)
    (notReference : node.isReference = false) (notDefinition : node.isDefinition = false) :
    substitute node = node.mapChildren substitute := by
  cases node with
  | var => cases notVariable
  | labelReference | localReference => cases notReference
  | definition => cases notDefinition
  | plain origin value =>
    cases value with
    | truth value => cases value <;> rfl
    | _ => rfl
  | _ => simp [substitute, mapChildren, substituteAll_eq_mapM]

variable {result : Node} {origin : Origin}

theorem substituteVariable_ok {binding : Variable}
    (ran : (substituteVariable binding).perform state = (.ok result, after)) :
    after = state ∧ Resolves state.meaning? state.renamed? (.var binding) result := by
  simp only [substituteVariable, perform_bind_ok, perform_get, Prod.mk.injEq,
    Except.ok.injEq] at ran
  obtain ⟨_, _, ⟨rfl, rfl⟩, decided⟩ := ran
  split at decided
  · rename_i unbound
    simp only [pure_ok] at decided
    obtain ⟨rfl, rfl⟩ := decided
    exact ⟨rfl, .free unbound⟩
  · rename_i node bound
    simp only [pure_ok] at decided
    obtain ⟨rfl, rfl⟩ := decided
    exact ⟨rfl, .bound bound⟩
  · simp only [perform_bind_ok, perform_lift, report, Prod.mk.injEq, reduceCtorEq,
      false_and, and_false, exists_false] at decided

theorem substituteReference_ok {mark : Label} {offset : Int}
    (ran : (substituteReference origin mark offset).perform state = (.ok result, after)) :
    state.Uses after ∧
      Resolves state.meaning? state.renamed? (.labelReference origin mark offset) result := by
  unfold substituteReference at ran
  dsimp only at ran
  split at ran
  · rename_i template
    simp only [perform_bind_ok, perform_get, perform_lift, perform_onTable,
      Prod.mk.injEq, Except.ok.injEq] at ran
    obtain ⟨_, _, ⟨rfl, rfl⟩, name, _, ⟨-, rfl⟩, rfl, rfl⟩ := ran
    exact ⟨⟨rfl, SymbolTable.uses_labelReference origin offset⟩,
      .labelReference _ _ _ _ fun literal => by simp [template] at literal⟩
  · simp only [pure_ok] at ran
    obtain ⟨rfl, rfl⟩ := ran
    exact ⟨.refl _, .labelReference _ _ _ _ fun _ => rfl⟩

theorem substituteLocal_ok {mark : LocalLabel}
    (ran : (substituteLocal origin mark).perform state = (.ok result, after)) : after = state ∧
      Resolves state.meaning? state.renamed? (.localReference origin mark) result := by
  simp only [substituteLocal, perform_bind_ok, perform_get, perform_pure,
    Prod.mk.injEq, Except.ok.injEq] at ran
  obtain ⟨_, _, ⟨rfl, rfl⟩, rfl, rfl⟩ := ran
  exact ⟨rfl, .localReference origin mark⟩

theorem substitute_ok (node : Node) : ∀ state after result,
    (substitute node).perform state = (.ok result, after) →
      state.Uses after ∧ Resolves state.meaning? state.renamed? node result := by
  induction node with
  | step node ih =>
    intro state after result ran
    by_cases ordinary : node.isVariable = false ∧ node.isReference = false ∧
        node.isDefinition = false
    · obtain ⟨notVariable, notReference, notDefinition⟩ := ordinary
      rw [substitute_eq_mapChildren notVariable notReference notDefinition] at ran
      obtain ⟨uses, resolved, built⟩ := mapChildren_ok (state.Uses ·)
        (Resolves state.meaning? state.renamed?)
        (fun child mem middle next part uses replaced => by
          obtain ⟨usesNext, resolves⟩ := ih child mem _ _ _ replaced
          rw [uses.meaning?, uses.renamed?] at resolves
          exact ⟨uses.trans usesNext, resolves⟩)
        (.refl state) ran
      exact ⟨uses, .parts notVariable notReference notDefinition built resolved⟩
    · cases node with
      | var binding =>
        rw [substitute] at ran
        obtain ⟨rfl, resolves⟩ := substituteVariable_ok ran
        exact ⟨.refl _, resolves⟩
      | labelReference origin mark offset =>
        rw [substitute] at ran
        exact substituteReference_ok ran
      | localReference origin mark =>
        rw [substitute] at ran
        obtain ⟨rfl, resolves⟩ := substituteLocal_ok ran
        exact ⟨.refl _, resolves⟩
      | definition origin name parameters body =>
        simp only [substitute, perform_bind_ok, perform_lift, report, Prod.mk.injEq,
          reduceCtorEq, false_and, and_false, exists_false] at ran
      | _ => exact absurd ⟨rfl, rfl, rfl⟩ ordinary

theorem substituteAll_ok {nodes results : List Node}
    (ran : (substituteAll nodes).perform state = (.ok results, after)) : state.Uses after ∧
      List.Forall₂ (Resolves state.meaning? state.renamed?) nodes results := by
  rw [substituteAll_eq_mapM] at ran
  refine perform_mapM_ok (state.Uses ·) _ ?_ (.refl state) ran
  intro node _ middle next result uses replaced
  obtain ⟨usesNext, resolves⟩ := substitute_ok node _ _ _ replaced
  rw [uses.meaning?, uses.renamed?] at resolves
  exact ⟨uses.trans usesNext, resolves⟩

/-! ### Operands of invocations -/

/-- What an operand of an invocation is bound as. -/
inductive Evaluates (state : Expander) : Node → Bound → Prop
  | closure (origin : Origin) (name : Value) (parameters : List Node) (body : Node) :
      Evaluates state (.definition origin name parameters body)
        (.closure ⟨origin, name, parameters, body⟩ state.frame)
  | bound {binding : Variable} {bound : Bound}
      (meaning : state.meaning? binding.name = some bound) :
      Evaluates state (.var binding) bound
  | operand {node result : Node} (resolves : Resolves state.meaning? state.renamed? node result) :
      Evaluates state node (.operand result)

theorem evaluateOperand_eq {node : Node} (notVariable : node.isVariable = false)
    (notDefinition : node.isDefinition = false) :
    evaluateOperand node = substitute node >>= fun result => pure (.operand result) := by
  cases node with
  | var => cases notVariable
  | definition => cases notDefinition
  | _ => rfl

theorem evaluateOperand_ok {operand : Node} {bound : Bound}
    (ran : (evaluateOperand operand).perform state = (.ok bound, after)) :
    state.Uses after ∧ state.Evaluates operand bound := by
  unfold evaluateOperand at ran
  split at ran
  · simp only [perform_bind_ok, perform_get, perform_pure, Prod.mk.injEq, Except.ok.injEq] at ran
    obtain ⟨_, _, ⟨rfl, rfl⟩, rfl, rfl⟩ := ran
    exact ⟨.refl _, .closure _ _ _ _⟩
  · rename_i binding
    simp only [perform_bind_ok, perform_get, perform_pure, Prod.mk.injEq, Except.ok.injEq] at ran
    obtain ⟨_, _, ⟨rfl, rfl⟩, rfl, rfl⟩ := ran
    refine ⟨.refl _, ?_⟩
    cases meaning : state.meaning? binding.name with
    | some bound => exact .bound meaning
    | none => exact .operand (.free meaning)
  · simp only [perform_bind_ok, pure_ok] at ran
    obtain ⟨result, _, replaced, rfl, rfl⟩ := ran
    obtain ⟨uses, resolves⟩ := substitute_ok _ _ _ _ replaced
    exact ⟨uses, .operand resolves⟩

theorem evaluateOperands_ok {operands : List Node} {arguments : List Bound}
    (ran : (operands.mapM evaluateOperand).perform state = (.ok arguments, after)) :
    state.Uses after ∧ List.Forall₂ state.Evaluates operands arguments := by
  refine perform_mapM_ok (state.Uses ·) _ ?_ (.refl state) ran
  intro operand _ middle next bound uses evaluated
  obtain ⟨usesNext, evaluates⟩ := evaluateOperand_ok evaluated
  refine ⟨uses.trans usesNext, ?_⟩
  have sameFrame : middle.frame = state.frame := by rw [uses.rest]
  cases evaluates with
  | closure => exact sameFrame ▸ .closure _ _ _ _
  | bound meaning => exact .bound (uses.meaning? ▸ meaning)
  | operand resolves =>
    rw [uses.meaning?, uses.renamed?] at resolves
    exact .operand resolves

end Expander

end MacroAssembler
