/-
This module compares what is known in one state of expansion with what is known in another one.

Two runs of expansion that go side by side look up the same names. How an operand of the one run
compares with an operand of the other depends on what is to be proved, and so does how their macros
and their local labels compare. Given that, bound values, scopes and states are compared alike: a
macro that is bound carries its scopes along, so they have to be compared as well.
-/
import MacroAssembler.Proofs.ExpansionRun

namespace MacroAssembler

open List

/-- How operands, macros and local labels compare, and the names of macros that are left out. -/
structure Comparison where
  operands : Node → Node → Prop
  definitions : Definition → Definition → Prop
  marks : LocalLabel → LocalLabel → Prop
  hidden : List String

mutual

/-- Whether what is bound to a name compares with what is bound to it in another run. -/
inductive Bound.Related (comparison : Comparison) : Bound → Bound → Prop
  | operand {node other : Node} (related : comparison.operands node other) :
      Bound.Related comparison (.operand node) (.operand other)
  | closure {definition other : Definition} {frame otherFrame : Frame}
      (related : comparison.definitions definition other)
      (frames : List.Forall₂ (Scope.Related comparison) frame otherFrame) :
      Bound.Related comparison (.closure definition frame) (.closure other otherFrame)

/-- Whether two scopes rename the same local labels and bind the same names, to what compares. -/
inductive Scope.Related (comparison : Comparison) : Scope Bound → Scope Bound → Prop
  | intro {scope other : Scope Bound}
      (labels : ∀ name, Option.Rel comparison.marks (Frame.labelIn? scope.labels name)
        (Frame.labelIn? other.labels name))
      (bindings : ∀ name, Option.Rel (Bound.Related comparison)
        (Association.get? scope.bindings name) (Association.get? other.bindings name)) :
      Scope.Related comparison scope other

end

variable {comparison : Comparison}

namespace Scope.Related

variable {scope other : Scope Bound}

theorem labels (related : scope.Related comparison other) (name : Name) :
    Option.Rel comparison.marks (Frame.labelIn? scope.labels name)
      (Frame.labelIn? other.labels name) := by
  cases related with
  | intro labels => exact labels name

theorem bindings (related : scope.Related comparison other) (name : String) :
    Option.Rel (Bound.Related comparison) (Association.get? scope.bindings name)
      (Association.get? other.bindings name) := by
  cases related with
  | intro _ bindings => exact bindings name

theorem empty : Scope.Related comparison {} {} := .intro (fun _ => .none) fun _ => .none

theorem set (related : scope.Related comparison other) {bound otherBound : Bound}
    (new : bound.Related comparison otherBound) (name : String) :
    Scope.Related comparison { scope with bindings := Association.set scope.bindings name bound }
      { other with bindings := Association.set other.bindings name otherBound } := by
  refine .intro related.labels fun key => ?_
  rw [Association.get?_set, Association.get?_set]
  split
  · exact .some new
  · exact related.bindings key

end Scope.Related

namespace Frame

theorem findSome?_related {α β : Type} {relation : α → β → Prop} {look : Scope Bound → Option α}
    {otherLook : Scope Bound → Option β} {frame other : Frame}
    (scopes : List.Forall₂ (Scope.Related comparison) frame other)
    (each : ∀ scope otherScope : Scope Bound, scope.Related comparison otherScope →
      Option.Rel relation (look scope) (otherLook otherScope)) :
    Option.Rel relation (frame.findSome? look) (other.findSome? otherLook) := by
  induction scopes with
  | nil => exact .none
  | @cons scope otherScope _ _ related _ ih =>
    rw [List.findSome?_cons, List.findSome?_cons]
    have here := each scope otherScope related
    generalize look scope = found at here
    generalize otherLook otherScope = otherFound at here
    cases here with
    | some here => exact .some here
    | none => exact ih

end Frame

/-! ### States -/

/-- Whether what is known in two states compares. The symbol tables may differ. -/
structure Expander.Related (comparison : Comparison) (state other : Expander) : Prop where
  frame : List.Forall₂ (Scope.Related comparison) state.frame other.frame
  root : state.root.Related comparison other.root
  constants : ∀ name, Option.Rel comparison.operands (Association.get? state.constants name)
    (Association.get? other.constants name)
  macros : ∀ key, (∀ name ∈ comparison.hidden, key ≠ .text name) →
    Option.Rel comparison.definitions (state.findMacro? key) (other.findMacro? key)

namespace Expander.Related

variable {state other : Expander}

theorem initial {table otherTable : SymbolTable} :
    Expander.Related comparison { table := table } { table := otherTable } :=
  ⟨.nil, .empty, fun _ => .none, fun _ _ => .none⟩

variable (related : state.Related comparison other)

include related

theorem binding? (name : String) :
    Option.Rel (Bound.Related comparison) (state.binding? name) (other.binding? name) :=
  Frame.findSome?_related (rel_append related.frame (.cons related.root .nil))
    fun _ _ scopes => scopes.bindings name

theorem renamed? (name : Name) :
    Option.Rel comparison.marks (state.renamed? name) (other.renamed? name) :=
  Frame.findSome?_related (rel_append related.frame (.cons related.root .nil))
    fun _ _ scopes => scopes.labels name

theorem findMacro? (name : String)
    (shown : name ∉ comparison.hidden) : Option.Rel comparison.definitions
      (state.findMacro? (.text name)) (other.findMacro? (.text name)) :=
  related.macros _ fun _ mem same => shown (Name.text.inj same ▸ mem)

theorem meaning? (name : String) (shown : name ∉ comparison.hidden) :
    Option.Rel (Bound.Related comparison) (state.meaning? name) (other.meaning? name) := by
  have bound := related.binding? name
  have constant := related.constants name
  have known := related.findMacro? name shown
  unfold Expander.meaning?
  generalize state.binding? name = found at bound
  generalize other.binding? name = otherFound at bound
  cases bound with
  | some bound => exact .some bound
  | none =>
    generalize Association.get? state.constants name = value at constant
    generalize Association.get? other.constants name = otherValue at constant
    cases constant with
    | some constant => exact .some (.operand constant)
    | none =>
      generalize state.findMacro? (.text name) = definition at known
      generalize other.findMacro? (.text name) = otherDefinition at known
      cases known with
      | some known => exact .some (.closure known .nil)
      | none => exact .none

/-- The macros that an invocation means compare, and so do the scopes they are expanded in. -/
theorem callee? (name : String) (shown : name ∉ comparison.hidden) :
    Option.Rel (fun callee otherCallee => comparison.definitions callee.1 otherCallee.1 ∧
      List.Forall₂ (Scope.Related comparison) callee.2 otherCallee.2)
      (state.callee? name) (other.callee? name) := by
  have bound := related.binding? name
  have known := related.findMacro? name shown
  unfold Expander.callee?
  generalize state.findMacro? (.text name) = definition at known
  generalize other.findMacro? (.text name) = otherDefinition at known
  have outside : Option.Rel (fun callee otherCallee =>
      comparison.definitions callee.1 otherCallee.1 ∧
        List.Forall₂ (Scope.Related comparison) callee.2 otherCallee.2)
      (definition.map fun definition => (definition, ([] : Frame)))
      (otherDefinition.map fun definition => (definition, ([] : Frame))) := by
    cases known with
    | some known => exact .some ⟨known, .nil⟩
    | none => exact .none
  generalize state.binding? name = found at bound
  generalize other.binding? name = otherFound at bound
  cases bound with
  | none => exact outside
  | some bound =>
    cases bound with
    | operand => exact outside
    | closure definitions frames => exact .some ⟨definitions, frames⟩

theorem isSome_callee? (name : String) (shown : name ∉ comparison.hidden) :
    (other.callee? name).isSome = (state.callee? name).isSome := by
  have callee := related.callee? name shown
  generalize state.callee? name = found at callee
  generalize other.callee? name = otherFound at callee
  cases callee <;> rfl

theorem withBinding {bound otherBound : Bound}
    (new : bound.Related comparison otherBound) (name : String) :
    (state.withBinding name bound).Related comparison (other.withBinding name otherBound) := by
  obtain ⟨frames, root, constants, macros⟩ := related
  obtain ⟨_, _, _, _, _, frame, _⟩ := state
  obtain ⟨_, _, _, _, _, otherFrame, _⟩ := other
  cases frames with
  | nil => exact ⟨.nil, root.set new name, constants, macros⟩
  | cons first rest => exact ⟨.cons (first.set new name) rest, root, constants, macros⟩

theorem withConstant {value otherValue : Node}
    (new : comparison.operands value otherValue) (name : String) : Expander.Related comparison
      { state with constants := Association.set state.constants name value }
      { other with constants := Association.set other.constants name otherValue } := by
  refine ⟨related.frame, related.root, fun key => ?_, related.macros⟩
  rw [Association.get?_set, Association.get?_set]
  split
  · exact .some new
  · exact related.constants key

theorem withMacros {entries others : List (Name × Definition)}
    (added : List.Forall₂ (fun entry other => entry.1 = other.1 ∧
      comparison.definitions entry.2 other.2) entries others) :
    Expander.Related comparison { state with macros := state.macros ++ entries }
      { other with macros := other.macros ++ others } := by
  refine ⟨related.frame, related.root, related.constants, fun key shown => ?_⟩
  have new : Option.Rel comparison.definitions
      ((entries.find? fun entry => decide (entry.1.key = key.key)).map (·.2))
      ((others.find? fun entry => decide (entry.1.key = key.key)).map (·.2)) := by
    induction added with
    | nil => exact .none
    | cons head _ ih =>
      obtain ⟨sameName, definitions⟩ := head
      rw [find?_cons, find?_cons, sameName]
      split
      · exact .some definitions
      · exact ih
  have before := related.macros key shown
  unfold Expander.findMacro? at before ⊢
  rw [find?_append, find?_append, Option.map_or, Option.map_or]
  generalize (state.macros.find? _).map _ = found at before ⊢
  generalize (other.macros.find? _).map _ = otherFound at before ⊢
  cases before with
  | some known => exact .some known
  | none => exact new

theorem ofRest {after otherAfter : Expander} (rest : after = { state with
      table := after.table, expansions := after.expansions, notices := after.notices })
    (otherRest : otherAfter = { other with
      table := otherAfter.table, expansions := otherAfter.expansions
      notices := otherAfter.notices }) : after.Related comparison otherAfter := by
  rw [rest, otherRest]
  exact ⟨related.frame, related.root, related.constants, related.macros⟩

end Expander.Related

end MacroAssembler
