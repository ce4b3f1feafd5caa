/-
This module compares the scopes in which a macro body is expanded with those in which an instance of
the body is.

In the one run the parameters of the macro are bound in a scope, in the other one nothing is, since
the operands stand in the body already. A macro without a name that the body passes on carries its
scopes along, so the two runs may come to expand it anywhere. What they have in common is that one
macro is an instance of the other one, by the names that are given an operand where it was written
and that it does not bind itself.
-/
import MacroAssembler.Proofs.Correspondence
import MacroAssembler.Proofs.Instantiation

namespace MacroAssembler

open Action Expander Node

/-! ### Scopes -/

mutual

/-- Whether one bound value is bound in the place of another one when operands stand for names. -/
inductive Bound.Mirrors : Bound → Bound → Prop
  | operand (node : Node) : Bound.Mirrors (.operand node) (.operand node)
  | closure {definition : Definition} {given : Assignment} {hidden : List LocalLabel}
      {frame otherFrame : Frame} (admitted : definition.admits given hidden)
      (frames : Frame.Mirrors given hidden frame otherFrame) :
      Bound.Mirrors (.closure definition frame) (.closure (definition.instantiate given) otherFrame)

/-- Whether the scopes around a statement mirror those around its instance. The scopes give operands
to names and rename local labels; in the place of the scope that binds the parameters there is one
that does not. -/
inductive Frame.Mirrors : Assignment → List LocalLabel → Frame → Frame → Prop
  | unit : Frame.Mirrors .empty [] [] []
  | parameters {given : Assignment} {scope other : Scope Bound} (unlabelled : scope.labels = [])
      (otherUnlabelled : other.labels = [])
      (replaced : ∀ name node, given name = some node → node.IsGround ∧
        Association.get? scope.bindings name = some (.operand node) ∧
        Association.get? other.bindings name = none)
      (bindings : ∀ name, given name = none → Option.Rel Bound.Mirrors
        (Association.get? scope.bindings name) (Association.get? other.bindings name)) :
      Frame.Mirrors given [] [scope] [other]
  | scope {given outer : Assignment} {hidden outerHidden : List LocalLabel}
      {scope other : Scope Bound} {frame otherFrame : Frame} (labels : other.labels = scope.labels)
      (renames : ∀ name, (Frame.labelIn? scope.labels name).isSome →
        ∃ mark ∈ hidden, mark.name.key = name.key)
      (wider : outerHidden ⊆ hidden)
      (shadows : ∀ name, given name =
        if (Association.get? scope.bindings name).isSome then none else outer name)
      (bindings : ∀ name, Option.Rel Bound.Mirrors (Association.get? scope.bindings name)
        (Association.get? other.bindings name))
      (frames : Frame.Mirrors outer outerHidden frame otherFrame) :
      Frame.Mirrors given hidden (scope :: frame) (other :: otherFrame)

end

namespace Frame.Mirrors

variable {given : Assignment} {hidden : List LocalLabel} {frame other : Frame}

variable (mirrors : Frame.Mirrors given hidden frame other)

include mirrors

theorem binding? {name : String} (free : given name = none) :
    Option.Rel Bound.Mirrors (frame.binding? name) (other.binding? name) := by
  induction frame generalizing given hidden other with
  | nil =>
    cases mirrors
    exact .none
  | cons scope frame ih =>
    cases mirrors with
    | parameters _ _ _ bindings =>
      simp only [Frame.binding?, List.findSome?_cons, List.findSome?_nil]
      have here := bindings name free
      generalize Association.get? scope.bindings name = found at here
      generalize Association.get? _ name = otherFound at here
      cases here with
      | some here => exact .some here
      | none => exact .none
    | scope _ _ _ shadows bindings frames =>
      simp only [Frame.binding?, List.findSome?_cons]
      have here := bindings name
      have outer := shadows name
      generalize Association.get? scope.bindings name = found at here outer
      generalize Association.get? _ name = otherFound at here
      cases here with
      | some here => exact .some here
      | none => exact ih frames (outer.symm.trans free)

/-- A name that stands for an operand is bound to it, and in the other run to nothing. -/
theorem replaced {name : String} {node : Node} (found : given name = some node) :
    node.IsGround ∧ frame.binding? name = some (.operand node) ∧ other.binding? name = none := by
  induction frame generalizing given hidden other with
  | nil =>
    cases mirrors
    cases found
  | cons scope frame ih =>
    cases mirrors with
    | parameters _ _ replaced _ =>
      obtain ⟨ground, bound, unbound⟩ := replaced name node found
      simp [Frame.binding?, ground, bound, unbound]
    | scope _ _ _ shadows bindings frames =>
      simp only [Frame.binding?, List.findSome?_cons]
      have here := bindings name
      have outer := shadows name
      generalize Association.get? scope.bindings name = bound at here outer
      generalize Association.get? _ name = otherBound at here
      cases here with
      | some => rw [found] at outer; cases outer
      | none => exact ih frames (outer.symm.trans found)

theorem label? (name : Name) : other.label? name = frame.label? name := by
  induction frame generalizing given hidden other with
  | nil =>
    cases mirrors
    rfl
  | cons scope frame ih =>
    cases mirrors with
    | parameters unlabelled otherUnlabelled =>
      simp only [Frame.label?, List.findSome?_cons, unlabelled, otherUnlabelled]
    | scope labels _ _ _ _ frames =>
      have outer := ih frames
      simp only [Frame.label?, List.findSome?_cons, labels] at outer ⊢
      rw [outer]

/-- Only the local labels of the macros around a statement are renamed. -/
theorem label?_eq_none {name : Name}
    (unhidden : ∀ mark ∈ hidden, mark.name.key ≠ name.key) : frame.label? name = none := by
  induction frame generalizing given hidden other with
  | nil => rfl
  | cons scope frame ih =>
    cases mirrors with
    | parameters unlabelled =>
      simp only [Frame.label?, List.findSome?_cons, unlabelled]
      rfl
    | scope _ renames wider _ _ frames =>
      have here : Frame.labelIn? scope.labels name = none := by
        rw [← Option.not_isSome_iff_eq_none]
        intro renamed
        obtain ⟨mark, mem, same⟩ := renames name renamed
        exact unhidden mark mem same
      have outer := ih frames fun mark mem => unhidden mark (wider mem)
      simp only [Frame.label?, List.findSome?_cons, here] at outer ⊢
      exact outer

theorem isEmpty_eq : other.isEmpty = frame.isEmpty := by
  cases mirrors <;> rfl

theorem isOperand_instantiate {node : Node}
    (isOperand : node.isOperand) : (node.instantiate given).isOperand := by
  cases node with
  | var binding =>
    rw [instantiate]
    cases found : given binding.name with
    | none => rfl
    | some operand => exact (mirrors.replaced found).1.operand
  | _ => first | rfl | cases isOperand

end Frame.Mirrors

/-! ### States -/

/-- Whether a scope is one of the unit itself, in which constants are bound and nothing is
renamed. -/
structure Scope.IsOfUnit (scope : Scope Bound) : Prop where
  unlabelled : scope.labels = []
  constants : ∀ name bound, Association.get? scope.bindings name = some bound →
    ∃ node, bound = .operand node

/-- Whether a state in which a statement is expanded mirrors one in which its instance is. -/
structure Expander.Mirrors (given : Assignment) (hidden : List LocalLabel)
    (state other : Expander) : Prop where
  table : other.table = state.table
  macros : other.macros = state.macros
  constants : other.constants = state.constants
  root : other.root = state.root
  ofUnit : state.root.IsOfUnit
  frames : Frame.Mirrors given hidden state.frame other.frame

theorem Bound.Mirrors.ofUnit (definition : Definition) :
    Bound.Mirrors (.closure definition []) (.closure definition []) := by
  have mirrors := Bound.Mirrors.closure (definition.admits_empty []) Frame.Mirrors.unit
  rw [Definition.instantiate_empty] at mirrors
  exact mirrors

namespace Expander

variable {given : Assignment} {hidden : List LocalLabel} {state other : Expander}

theorem binding?_eq (state : Expander) (name : String) : state.binding? name =
      (Frame.binding? state.frame name).or (Association.get? state.root.bindings name) := by
  rw [binding?, Frame.binding?, List.findSome?_append]
  simp [Frame.binding?]

theorem renamed?_eq (state : Expander) (name : Name) : state.renamed? name =
      (Frame.label? state.frame name).or (Frame.labelIn? state.root.labels name) := by
  rw [renamed?, Frame.label?, List.findSome?_append]
  simp [Frame.label?]

namespace Mirrors

variable (mirrors : state.Mirrors given hidden other)

include mirrors

theorem findMacro? (name : Name) : other.findMacro? name = state.findMacro? name := by
  unfold Expander.findMacro?
  rw [mirrors.macros]

theorem binding? {name : String} (free : given name = none) :
    Option.Rel Bound.Mirrors (state.binding? name) (other.binding? name) := by
  rw [binding?_eq, binding?_eq, mirrors.root]
  have inside := mirrors.frames.binding? free
  generalize Frame.binding? state.frame name = found at inside
  generalize Frame.binding? other.frame name = otherFound at inside
  cases inside with
  | some inside => exact .some inside
  | none =>
    rw [Option.none_or]
    cases outside : Association.get? state.root.bindings name with
    | none => exact .none
    | some bound =>
      obtain ⟨node, rfl⟩ := mirrors.ofUnit.constants name bound outside
      exact .some (.operand node)

theorem meaning? {name : String} (free : given name = none) :
    Option.Rel Bound.Mirrors (state.meaning? name) (other.meaning? name) := by
  have bound := mirrors.binding? free
  unfold Expander.meaning?
  rw [mirrors.constants, mirrors.findMacro?]
  generalize state.binding? name = found at bound
  generalize other.binding? name = otherFound at bound
  cases bound with
  | some bound => exact .some bound
  | none =>
    cases Association.get? state.constants name with
    | some value => exact .some (.operand value)
    | none =>
      cases state.findMacro? (.text name) with
      | some definition => exact .some (.ofUnit definition)
      | none => exact .none

theorem meaning?_given {name : String} {node : Node}
    (found : given name = some node) : state.meaning? name = some (.operand node) := by
  obtain ⟨-, bound, -⟩ := mirrors.frames.replaced found
  unfold Expander.meaning?
  rw [binding?_eq, bound, Option.some_or]

/-- An invocation of a name means macros that mirror each other. A name that stands for an operand
is no macro in either run. -/
theorem callee? (name : String) : Option.Rel (fun callee otherCallee =>
        Bound.Mirrors (.closure callee.1 callee.2) (.closure otherCallee.1 otherCallee.2))
      (state.callee? name) (other.callee? name) := by
  have outside : Option.Rel (fun callee otherCallee =>
        Bound.Mirrors (.closure callee.1 callee.2) (.closure otherCallee.1 otherCallee.2))
      ((state.findMacro? (.text name)).map fun definition => (definition, ([] : Frame)))
      ((state.findMacro? (.text name)).map fun definition => (definition, ([] : Frame))) := by
    cases state.findMacro? (.text name) with
    | some definition => exact .some (.ofUnit definition)
    | none => exact .none
  unfold Expander.callee?
  rw [mirrors.findMacro?]
  cases replaced : given name with
  | none =>
    have bound := mirrors.binding? replaced
    generalize state.binding? name = found at bound
    generalize other.binding? name = otherFound at bound
    cases bound with
    | none => exact outside
    | some bound =>
      cases bound with
      | operand => exact outside
      | closure admitted frames => exact .some (.closure admitted frames)
  | some node =>
    obtain ⟨-, bound, unbound⟩ := mirrors.frames.replaced replaced
    rw [binding?_eq, binding?_eq, bound, unbound, mirrors.root, Option.some_or, Option.none_or]
    cases constant : Association.get? state.root.bindings name with
    | none => exact outside
    | some value =>
      obtain ⟨node, rfl⟩ := mirrors.ofUnit.constants name value constant
      exact outside

theorem renamed? (name : Name) : other.renamed? name = state.renamed? name := by
  rw [renamed?_eq, renamed?_eq, mirrors.root, mirrors.frames.label?]

theorem renamed?_eq_none {name : Name}
    (unhidden : ∀ mark ∈ hidden, mark.name.key ≠ name.key) : other.renamed? name = none := by
  rw [mirrors.renamed?, renamed?_eq, mirrors.frames.label?_eq_none unhidden,
    mirrors.ofUnit.unlabelled]
  rfl

theorem ofRest {after otherAfter : Expander} (table : otherAfter.table = after.table)
    (rest : after = { state with
      table := after.table, expansions := after.expansions, notices := after.notices })
    (otherRest : otherAfter = { other with
      table := otherAfter.table, expansions := otherAfter.expansions
      notices := otherAfter.notices }) :
    after.Mirrors given hidden otherAfter := by
  rw [otherRest, rest]
  exact ⟨table, mirrors.macros, mirrors.constants, mirrors.root, mirrors.ofUnit, mirrors.frames⟩

end Mirrors

theorem contribution?_mirrors {bound other : Bound} (mirrors : bound.Mirrors other) :
    contribution? other = contribution? bound := by
  cases mirrors <;> rfl

theorem interpolate_mirrors (mirrors : state.Mirrors given hidden other) {mark : Label}
    (free : mark.isFree given) (node : Node) :
    other.interpolate node mark.name = state.interpolate node mark.name := by
  have pieces : (Template.pieces mark.name).mapM (other.pieceValue node) =
      (Template.pieces mark.name).mapM (state.pieceValue node) := by
    refine Checked.mapM_congr fun piece mem => ?_
    cases piece with
    | literal => rfl
    | parameter name =>
      have unreplaced := List.all_eq_true.mp free _ mem
      have meaning := mirrors.meaning? (Option.isNone_iff_eq_none.mp unreplaced)
      unfold pieceValue
      dsimp only
      generalize state.meaning? name = found at meaning
      generalize other.meaning? name = otherFound at meaning
      cases meaning with
      | none => rfl
      | some meaning =>
        dsimp only
        rw [contribution?_mirrors meaning]
  unfold interpolate
  rw [pieces]

/-! ### Operands -/

/-- Whether two steps, from states that mirror each other, both fail or have related results and
leave states that mirror each other. -/
abbrev Imitates {α β : Type} (given : Assignment) (hidden : List LocalLabel)
    (results : α → β → Prop) (first : Expand α) (second : Expand β) : Prop :=
  Action.Corresponds Failure.Any (Expander.Mirrors given hidden) results first second

theorem relates_onTable_mirrors {α : Type} (change : SymbolTable → α × SymbolTable) :
    Imitates given hidden Eq (onTable change) (onTable change) := by
  intro state other mirrors
  rw [perform_onTable, perform_onTable, mirrors.table]
  exact .ok ⟨rfl, mirrors.ofRest rfl rfl rfl⟩

theorem substitute_ground {state : Expander} (node : Node) :
    (node.Throughout fun part => (part.isOperand ∨ part.isLabel) ∧ part.KeepsRules ∧
      (part.isVariable = false ∧ part.isTemplateLabel = false) ∧
      ∀ origin mark, part = .localReference origin mark → state.renamed? mark.name = none) →
    (substitute node).perform state = (.ok node, state) := by
  induction node with
  | step node ih =>
    intro settled
    obtain ⟨kind, keeps, ⟨notVariable, -⟩, unrenamed⟩ := settled.here
    by_cases isReference : node.isReference
    · cases node with
      | labelReference origin mark offset =>
        have mem : Node.label mark ∈ (Node.labelReference origin mark offset).children := by
          simp [children]
        obtain ⟨-, -, ⟨-, plain⟩, -⟩ := (settled.below mem).here
        rw [Node.isTemplateLabel] at plain
        simp [substitute, substituteReference, plain]
      | localReference origin mark =>
        rw [substitute, substituteLocal, perform_bind, perform_get]
        dsimp only
        rw [unrenamed origin mark rfl, Option.getD_none, perform_pure]
      | _ => cases isReference
    · have notDefinition : node.isDefinition = false := by
        cases node with
        | definition => exact absurd kind (by simp [isOperand, isLabel])
        | _ => rfl
      rw [substitute_eq_mapChildren notVariable (Bool.eq_false_iff.mpr isReference) notDefinition]
      exact mapChildren_self (fun child mem => ih child mem (settled.below mem)) keeps

/-- An operand that stands for a name is left alone. -/
theorem Mirrors.substitute_given (mirrors : state.Mirrors given hidden other) {name : String}
    {node : Node} (found : given name = some node)
    (unhidden : node.flatten.any (refersToOne hidden) = false) :
    (substitute node).perform other = (.ok node, other) := by
  obtain ⟨ground, -, -⟩ := mirrors.frames.replaced found
  refine substitute_ground node fun part mem => ?_
  refine ⟨isExpression_iff.mp ground.expression part mem, ground.rules part mem,
    ground.closed part mem, ?_⟩
  rintro origin mark rfl
  refine mirrors.renamed?_eq_none fun hiddenMark isHidden same => ?_
  have clash := List.any_eq_false.mp unhidden _ mem
  rw [refersToOne, List.any_eq_true] at clash
  exact clash ⟨hiddenMark, isHidden, decide_eq_true same⟩

theorem unhidden_of_admits {binding : Variable} {node : Node}
    (admitted : (Node.var binding).admits given hidden) (found : given binding.name = some node) :
    node.flatten.any (refersToOne hidden) = false := by
  rw [admits, found, Option.all_some] at admitted
  simpa using admitted

theorem relates_substituteVariable_mirrors {binding : Variable}
    (admitted : (Node.var binding).admits given hidden) :
    Imitates given hidden Eq (substitute (.var binding))
      (substitute ((Node.var binding).instantiate given)) := by
  rw [instantiate]
  cases found : given binding.name with
  | none =>
    rw [Option.getD_none, substitute]
    refine .get fun state other mirrors => ?_
    have meaning := mirrors.meaning? found
    generalize state.meaning? binding.name = bound at meaning
    generalize other.meaning? binding.name = otherBound at meaning
    cases meaning with
    | none => exact .pure rfl
    | some meaning =>
      cases meaning with
      | operand => exact .pure rfl
      | closure =>
        refine .bothFail ?_ ?_ <;> simp [perform_bind_ok, report]
  | some node =>
    intro state other mirrors
    rw [Option.getD_some, mirrors.substitute_given found (unhidden_of_admits admitted found),
      substitute, substituteVariable, perform_bind, perform_get]
    dsimp only
    rw [mirrors.meaning?_given found]
    exact .ok ⟨rfl, mirrors⟩

theorem relates_substituteReference_mirrors (origin : Origin) {mark : Label} (offset : Int)
    (free : mark.isFree given) : Imitates given hidden Eq (substituteReference origin mark offset)
      (substituteReference origin mark offset) := by
  unfold substituteReference
  dsimp only
  split
  · refine .get fun state other mirrors => ?_
    rw [interpolate_mirrors mirrors free]
    exact .bind_eq (.lift (.refl _)) fun _ => relates_onTable_mirrors _
  · exact .pure rfl

theorem relates_substitute_mirrors (node : Node) : node.admits given hidden →
    Imitates given hidden Eq (substitute node) (substitute (node.instantiate given)) := by
  induction node with
  | step node ih =>
    intro admitted
    by_cases ordinary : node.isVariable = false ∧ node.isReference = false ∧
        node.isDefinition = false
    · obtain ⟨notVariable, notReference, notDefinition⟩ := ordinary
      have otherKind : (node.instantiate given).isVariable = false ∧
          (node.instantiate given).isReference = false ∧
          (node.instantiate given).isDefinition = false := by
        cases node <;> first | exact ⟨rfl, rfl, rfl⟩ | contradiction
      rw [substitute_eq_mapChildren notVariable notReference notDefinition,
        substitute_eq_mapChildren otherKind.1 otherKind.2.1 otherKind.2.2, mapChildren_eq,
        mapChildren_eq, children_instantiate admitted notVariable notDefinition]
      refine (Action.Corresponds.mapM_map fun child mem => ih child mem
        (admits_children admitted notDefinition mem)).bind ?_
      rintro parts others ⟨same, number⟩
      obtain rfl : parts = others := List.forall₂_eq_eq_eq ▸ same
      rw [sameHead_instantiate notVariable notDefinition parts number]
      exact .lift (.refl _)
    · cases node with
      | var binding => exact relates_substituteVariable_mirrors admitted
      | labelReference origin mark offset =>
        exact relates_substituteReference_mirrors origin offset admitted
      | localReference origin mark =>
        refine .get fun state other mirrors => ?_
        rw [mirrors.renamed?]
        exact .pure rfl
      | definition =>
        refine .bothFail ?_ ?_ <;> simp [instantiate, substitute, perform_bind_ok, report]
      | _ => exact absurd ⟨rfl, rfl, rfl⟩ ordinary

end Expander

end MacroAssembler
