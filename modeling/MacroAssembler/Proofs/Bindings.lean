/-
This module carries a property of operands and a property of macros through everything that a state
of expansion knows.

A name may be bound to a macro, a macro carries the frame it was written in, and that frame binds
names again. A property that every bound operand and every bound macro has, however deep, is kept by
all that expansion does to frames: opening a scope for operands that have it, leaving the scope
again, and binding a constant. What a name means then has the property, wherever it was bound.
-/
import MacroAssembler.Proofs.ExpansionRun

namespace MacroAssembler

open List

/-- Whether everything that the scopes of a frame bind has a property. -/
def Frame.AllBound (property : Bound → Prop) (frame : Frame) : Prop :=
  ∀ scope ∈ frame, ∀ name bound, Association.get? scope.bindings name = some bound → property bound

/-- Whether the operands and macros that can be reached from a bound value have a property. The
property of a macro may concern the frame it is expanded in. -/
inductive Bound.Holds (onOperand : Node → Prop) (onMacro : Definition → Frame → Prop) :
    Bound → Prop
  | operand {node : Node} (holds : onOperand node) : Holds onOperand onMacro (.operand node)
  | closure {definition : Definition} {frame : Frame} (holds : onMacro definition frame)
      (captured : ∀ scope ∈ frame, ∀ name bound,
        Association.get? scope.bindings name = some bound → Holds onOperand onMacro bound) :
      Holds onOperand onMacro (.closure definition frame)

namespace Expander

structure Holds (onOperand : Node → Prop) (onMacro : Definition → Frame → Prop)
    (state : Expander) : Prop where
  frame : Frame.AllBound (Bound.Holds onOperand onMacro) state.frame
  root : Frame.AllBound (Bound.Holds onOperand onMacro) [state.root]
  constants : ∀ name node, Association.get? state.constants name = some node → onOperand node
  macros : ∀ name definition, state.findMacro? name = some definition → onMacro definition []

variable {onOperand : Node → Prop} {onMacro : Definition → Frame → Prop}
  {state before after opened : Expander} {name : String} {bound : Bound}

/-! ### Looking up -/

theorem Holds.binding? (holds : state.Holds onOperand onMacro)
    (found : state.binding? name = some bound) : bound.Holds onOperand onMacro := by
  obtain ⟨scope, mem, chosen⟩ := List.exists_of_findSome?_eq_some found
  rcases mem_append.mp mem with inside | outside
  · exact holds.frame scope inside name bound chosen
  · exact holds.root scope outside name bound chosen

variable {definition : Definition} {captured : Frame}

theorem Holds.closed (holds : state.Holds onOperand onMacro) {key : Name}
    (found : state.findMacro? key = some definition) :
    (Bound.closure definition []).Holds onOperand onMacro :=
  .closure (holds.macros key definition found) (by simp)

theorem Holds.meaning? (holds : state.Holds onOperand onMacro)
    (found : state.meaning? name = some bound) : bound.Holds onOperand onMacro := by
  unfold Expander.meaning? at found
  split at found
  · rename_i known
    cases found
    exact holds.binding? known
  · split at found
    · rename_i known
      cases found
      exact .operand (holds.constants _ _ known)
    · obtain ⟨definition, known, rfl⟩ := Option.map_eq_some_iff.mp found
      exact holds.closed known

/-- The macro of an invocation has the property, and so has all that its frame binds. -/
theorem Holds.callee? (holds : state.Holds onOperand onMacro)
    (found : state.callee? name = some (definition, captured)) :
    (Bound.closure definition captured).Holds onOperand onMacro := by
  unfold Expander.callee? at found
  split at found
  · rename_i known
    cases found
    exact holds.binding? known
  · obtain ⟨definition, known, same⟩ := Option.map_eq_some_iff.mp found
    cases same
    exact holds.closed known

/-! ### Changes of a state -/

theorem Holds.ofRest (holds : before.Holds onOperand onMacro)
    (rest : after = { before with table := after.table }) : after.Holds onOperand onMacro := by
  rw [rest]
  exact ⟨holds.frame, holds.root, holds.constants, holds.macros⟩

theorem withBinding_table (state : Expander) (name : String) (bound : Bound) :
    (state.withBinding name bound).table = state.table := by
  obtain ⟨table, macros, constants, expansions, root, frame, notices⟩ := state
  cases frame <;> rfl

theorem Holds.withBinding (holds : state.Holds onOperand onMacro)
    (new : bound.Holds onOperand onMacro) :
    (state.withBinding name bound).Holds onOperand onMacro := by
  have changed : ∀ scope : Scope Bound, Frame.AllBound (Bound.Holds onOperand onMacro) [scope] →
      Frame.AllBound (Bound.Holds onOperand onMacro)
        [{ scope with bindings := Association.set scope.bindings name bound }] := by
    intro scope allBound other mem key found chosen
    obtain rfl := mem_singleton.mp mem
    rw [Association.get?_set] at chosen
    split at chosen
    · cases chosen
      exact new
    · exact allBound scope mem_cons_self key found chosen
  obtain ⟨table, macros, constants, expansions, root, frame, notices⟩ := state
  cases frame with
  | nil => exact ⟨holds.frame, changed root holds.root, holds.constants, holds.macros⟩
  | cons scope outer =>
    refine ⟨?_, holds.root, holds.constants, holds.macros⟩
    intro other mem
    rcases mem_cons.mp mem with rfl | mem
    · refine changed scope ?_ _ mem_cons_self
      intro inner innerMem
      obtain rfl := mem_singleton.mp innerMem
      exact holds.frame inner mem_cons_self
    · exact holds.frame other (mem_cons_of_mem _ mem)

theorem Holds.withConstant (holds : state.Holds onOperand onMacro) {node : Node}
    (new : onOperand node) (notices : List Notice) :
    { state with
      constants := Association.set state.constants name node
      notices := notices }.Holds onOperand onMacro := by
  refine ⟨holds.frame, holds.root, fun other value found => ?_, holds.macros⟩
  rw [Association.get?_set] at found
  split at found
  · cases found
    exact new
  · exact holds.constants other value found

theorem Holds.entered (holds : before.Holds onOperand onMacro) {invocation : Invocation}
    {arguments : List Bound} {scope : Scope Bound}
    (callee : before.callee? invocation.name = some (definition, captured))
    (opens : before.Opens definition invocation arguments scope opened)
    (operands : ∀ operand ∈ invocation.operands, ∀ argument, before.Evaluates operand argument →
      argument.Holds onOperand onMacro) :
    (opened.entered invocation (scope :: captured)).Holds onOperand onMacro := by
  have inside := holds.ofRest opens.rest
  refine ⟨?_, inside.root, inside.constants, inside.macros⟩
  intro other mem
  rcases mem_cons.mp mem with rfl | mem
  · intro name bound chosen
    rw [opens.bindings] at chosen
    obtain ⟨parameter, pairMem, -⟩ := argument?_mem chosen
    obtain ⟨operand, operandMem, evaluates⟩ :=
      exists_left_of_forall₂ opens.evaluated bound (of_mem_zip pairMem).2
    exact operands operand operandMem bound evaluates
  · cases holds.callee? callee with
    | closure _ allBound => exact allBound other mem

theorem Holds.left (inside : after.Holds onOperand onMacro)
    (holds : before.Holds onOperand onMacro) :
    { after with frame := before.frame }.Holds onOperand onMacro :=
  ⟨holds.frame, inside.root, inside.constants, inside.macros⟩

theorem collected?_mem {statements : List Node} {key : Name}
    (mem : (key, definition) ∈ statements.filterMap collected?) :
    .definition definition.origin definition.name definition.parameters definition.body ∈
      statements := by
  obtain ⟨stmt, statementMem, found⟩ := mem_filterMap.mp mem
  unfold collected? at found
  split at found
  · split at found
    · cases found
    · obtain ⟨_, -, same⟩ := Option.map_eq_some_iff.mp found
      cases same
      exact statementMem
  · cases found

theorem holds_readied {table : SymbolTable} {tree : Node} (macros : ∀ origin name parameters body,
      .definition origin name parameters body ∈ tree.statements →
        onMacro ⟨origin, name, parameters, body⟩ []) :
    ((⟨table, [], [], 0, {}, [], []⟩ : Expander).readied tree).Holds onOperand onMacro := by
  refine ⟨by simp [readied, Frame.AllBound], ?_, by simp [readied, Association.get?_nil], ?_⟩
  · intro scope mem name bound found
    obtain rfl := mem_singleton.mp mem
    cases found
  · intro key definition found
    obtain ⟨⟨_, _⟩, known, rfl⟩ := Option.map_eq_some_iff.mp found
    exact macros _ _ _ _ (collected?_mem (mem_of_find?_eq_some known))

end Expander

end MacroAssembler
