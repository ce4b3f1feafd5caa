/-
This module says which macro an invocation expands.

The scopes around an invocation bind names, and in an operand the innermost scope that binds a name
decides what it means. An invocation asks for a macro: if the innermost binding of its name is one,
it is the one that is expanded, whatever the scopes further out and the unit have under that name.
A binding to anything else is passed over in favour of the macro of the unit with that name. It is
reported only if there is none.
-/
import MacroAssembler.Expansion.Expander
import MacroAssembler.Proofs.Step

namespace MacroAssembler.Expander

open Action List

/-- The failure of an invocation that is nested too deep. It is reported if it can be shown. -/
def depthFailure (limit : Int) (node : Node) : Failure :=
  match node.construct with
  | .ok construct => .diagnostic ⟨.expansionTooDeep limit, node.origin, construct⟩
  | .error failure => failure

def expandBody (limit : Int) (invocation : Invocation) :
    Nat → Definition × Frame → Expand (List Node)
  | 0, _ => liftM (.error (depthFailure limit invocation.statement) : Checked (List Node))
  | depth + 1, (definition, captured) => do
    let scope ← openScope definition invocation
    countExpansion invocation
    inFrame (scope :: captured) (expandNode (invoke limit depth) definition.body)

/-- A macro for an invocation, which has to take as many operands as it is given. -/
def accept (invocation : Invocation) (definition : Definition) (captured : Frame) :
    Checked (Definition × Frame) :=
  if invocation.operands.length = definition.parameters.length then .ok (definition, captured)
  else do
    let construct ← invocation.statement.construct
    report (.macroArity (definition.nameOr invocation.shown) definition.parameters.length
      invocation.operands.length) invocation.statement.origin construct

def expandAs (limit : Int) (depth : Nat) (invocation : Invocation) (definition : Definition)
    (captured : Frame) : Expand (List Node) := do
  let callee ← accept invocation definition captured
  expandBody limit invocation depth callee

variable {limit : Int} {depth : Nat} {invocation : Invocation} {state : Expander} {name : String}

theorem perform_invoke : (invoke limit depth invocation).perform state =
    (calleeOf invocation >>= expandBody limit invocation depth).perform state := by
  cases depth with
  | zero =>
    simp only [invoke, perform_bind, expandBody, depthFailure]
    rcases (calleeOf invocation).perform state with ⟨_ | _, _⟩
    · rfl
    · cases invocation.statement.construct <;> rfl
  | succ depth => rfl

theorem perform_invoke_as {definition : Definition} {captured : Frame}
    (found : state.callee? invocation.name = some (definition, captured)) :
    (invoke limit depth invocation).perform state =
      (expandAs limit depth invocation definition captured).perform state := by
  simp only [perform_invoke, calleeOf, expandAs, accept, perform_bind, perform_get, found]
  by_cases arity : invocation.operands.length = definition.parameters.length
  · simp [arity]
  · simp only [arity, if_false]
    cases invocation.statement.construct <;> rfl

theorem binding?_innermost {inner outer : Frame} {scope : Scope Bound} {bound : Bound}
    (chain : state.frame ++ [state.root] = inner ++ scope :: outer)
    (unbound : ∀ other ∈ inner, Association.get? other.bindings name = none)
    (binds : Association.get? scope.bindings name = some bound) :
    state.binding? name = some bound := by
  rw [binding?, chain, Frame.binding?, findSome?_append, findSome?_eq_none_iff.mpr unbound,
    Option.none_or, findSome?_cons, binds]

/-- The innermost binding of a name decides what it means in an operand. It decides what is invoked
if it is a macro. Otherwise the macro of the unit with that name is expanded, and only without one
it is reported that the name is bound to no macro. -/
theorem call_follows_binding (limit : Int) (depth : Nat) (state : Expander) {name : String}
    {inner outer : Frame} {scope : Scope Bound} {bound : Bound}
    (chain : state.frame ++ [state.root] = inner ++ scope :: outer)
    (unbound : ∀ other ∈ inner, Association.get? other.bindings name = none)
    (binds : Association.get? scope.bindings name = some bound)
    (origin : Origin) (operands : List Node) (comment writtenName : Value) :
    let call : Node := .call origin name operands comment writtenName
    let invocation : Invocation := ⟨name, writtenName.orElse (.text name), operands, call⟩
    let expands := fun definition captured =>
      (expandNode (invoke limit depth) call).perform state =
        (expandAs limit depth invocation definition captured).perform state
    state.meaning? name = some bound ∧
      (∀ definition captured, bound = .closure definition captured →
        expands definition captured) ∧
      ∀ node, bound = .operand node →
        (∀ definition, state.findMacro? (.text name) = some definition → expands definition []) ∧
        (state.findMacro? (.text name) = none →
          (expandNode (invoke limit depth) call).perform state = (do
            let construct ← call.construct
            report (.notBoundToMacro invocation.shown.display) origin construct, state)) := by
  intro call invocation expands
  have found := binding?_innermost chain unbound binds
  have invokes : (expandNode (invoke limit depth) call).perform state =
      (invoke limit depth invocation).perform state := by
    rw [expandNode]
  refine ⟨by rw [meaning?, found], ?_, ?_⟩
  · rintro definition captured rfl
    have callee : state.callee? name = some (definition, captured) := by rw [callee?, found]
    exact invokes.trans (perform_invoke_as callee)
  · rintro node rfl
    refine ⟨fun definition isMacro => ?_, fun noMacro => ?_⟩
    · have callee : state.callee? name = some (definition, []) := by
        rw [callee?, found, isMacro]
        rfl
      exact invokes.trans (perform_invoke_as callee)
    · have callee : state.callee? name = none := by
        rw [callee?, found, noMacro]
        rfl
      rw [invokes, perform_invoke, perform_bind]
      simp only [calleeOf, perform_bind, perform_get, invocation, callee, refuseInvocation, found]
      cases call.construct <;> rfl

/-- A macro that traps, a register and a macro without effect under one name, from the inside out. -/
def shadowingState : Expander :=
  let traps : Definition := ⟨.nowhere, .text "f", [], .trap .nowhere⟩
  let skips : Definition := ⟨.nowhere, .text "f", [], .skip .nowhere⟩
  { table := {}, macros := [(.text "f", skips)],
    root := ⟨[("f", .operand (.register .nowhere .general "t0"))], []⟩,
    frame := [⟨[], []⟩, ⟨[("f", .closure traps [])], []⟩] }

def shadowedCall : Node := .call .nowhere "f" [] .null .null

/-- The invocation expands to the trap, of which the inner scope says that it is meant. -/
theorem call_follows_binding_shadowed :
    ∃ definition, (expandNode (invoke 1 1) shadowedCall).perform shadowingState =
        (expandAs 1 1 ⟨"f", .text "f", [], shadowedCall⟩ definition []).perform shadowingState ∧
      ((expandNode (invoke 1 1) shadowedCall).perform shadowingState).1 =
        .ok [.trap .nowhere] := by
  refine ⟨⟨.nowhere, .text "f", [], .trap .nowhere⟩, ?_, rfl⟩
  have unbound : ∀ other ∈ [(⟨[], []⟩ : Scope Bound)], Association.get? other.bindings "f" = none :=
    forall_mem_singleton.mpr rfl
  exact (@call_follows_binding 1 1 shadowingState "f" [⟨[], []⟩] _ _ _ rfl unbound rfl .nowhere []
    .null .null).2.1 _ _ rfl

/-- A unit with a macro and a macro that invokes its parameter of the same name. -/
def invokedParameter (globalNames : List String) : Node :=
  let parameter : Node := .var ⟨.nowhere, "f", .null⟩
  .sequence .nowhere (globalNames.map (fun name =>
      .definition .nowhere (.text name) [parameter] (.trap .nowhere)) ++
    [.definition .nowhere (.text "m") [parameter]
      (.call .nowhere "f" [.immediate .nowhere 1] .null .null),
    .call .nowhere "m" [.register .nowhere .general "t0"] .null .null])

/-- A parameter that is bound to a register can be invoked if there is a macro with its name. -/
theorem operand_invoked :
    ((expand 100 (invokedParameter ["f"])).perform { table := {} }).1 =
        .ok (.sequence .nowhere [.trap .nowhere]) ∧
      ∃ construct, ((expand 100 (invokedParameter [])).perform { table := {} }).1 =
        report (.notBoundToMacro "f") (some .nowhere) construct :=
  ⟨rfl, _, rfl⟩

end MacroAssembler.Expander
