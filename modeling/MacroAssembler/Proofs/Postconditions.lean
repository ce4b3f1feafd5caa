/-
This module says how a property of results is carried through actions.

An action ensures a property if every result it gives has the property. What it gives may depend
on the state, so the states are asked to satisfy an invariant. The invariant has to hold also where
the action fails, since the state that a failed action leaves behind is there for later actions.
-/
import MacroAssembler.Proofs.Step

namespace MacroAssembler.Action

variable {σ α β : Type} {invariant : σ → Prop} {property : α → Prop} {wanted : β → Prop}

/-- Whether an action keeps an invariant, however it ends, and gives results with a property. -/
def Ensures (invariant : σ → Prop) (property : α → Prop) (action : Action σ α) : Prop :=
  ∀ state, invariant state → invariant (action.perform state).2 ∧
      ∀ result, (action.perform state).1 = .ok result → property result

namespace Ensures

theorem pure {value : α} (holds : property value) :
    Ensures invariant property (Pure.pure value : Action σ α) := by
  intro state kept
  refine ⟨kept, fun result given => ?_⟩
  cases given
  exact holds

theorem of_any (action : Action σ α) : Ensures (fun _ => True) (fun _ => True) action :=
  fun _ _ => ⟨trivial, fun _ _ => trivial⟩

variable {outcome : Checked α} {next : α → Action σ β}

theorem lift (holds : ∀ result, outcome = .ok result → property result) :
    Ensures invariant property (liftM outcome : Action σ α) :=
  fun _ kept => ⟨kept, holds⟩

theorem report {cause : Cause} {location : Option Origin} {construct : Option String} :
    Ensures invariant property
      (liftM (MacroAssembler.report cause location construct : Checked α) : Action σ α) :=
  .lift fun _ impossible => by cases impossible

theorem modify {change : σ → σ} (keeps : ∀ state, invariant state → invariant (change state)) :
    Ensures invariant (fun _ => True) (modify change : Action σ Unit) :=
  fun state kept => ⟨keeps state kept, fun _ _ => trivial⟩

theorem bind {first : Action σ α} (ensures : Ensures invariant property first)
    (continues : ∀ value, property value → Ensures invariant wanted (next value)) :
    Ensures invariant wanted (first >>= next) := by
  intro state kept
  obtain ⟨keptFirst, holds⟩ := ensures state kept
  rw [perform_bind]
  rcases performed : first.perform state with ⟨failure | value, middle⟩
  · rw [performed] at keptFirst
    exact ⟨keptFirst, fun result impossible => by cases impossible⟩
  · rw [performed] at keptFirst holds
    exact continues value (holds value rfl) middle keptFirst

theorem check (continues : ∀ value, outcome = .ok value → Ensures invariant wanted (next value)) :
    Ensures invariant wanted (liftM outcome >>= next) :=
  bind (.lift fun _ passed => passed) continues

theorem get {next : σ → Action σ β}
    (continues : ∀ state, invariant state → Ensures invariant wanted (next state)) :
    Ensures invariant wanted (MonadState.get >>= next) := by
  have looks : Ensures invariant invariant (MonadState.get : Action σ σ) := by
    intro state kept
    refine ⟨kept, fun result given => ?_⟩
    cases given
    exact kept
  exact looks.bind continues

theorem mapM {items : List α} {step : α → Action σ β}
    (each : ∀ item ∈ items, Ensures invariant wanted (step item)) :
    Ensures invariant (fun results => ∀ result ∈ results, wanted result) (items.mapM step) := by
  induction items with
  | nil => exact .pure (by simp)
  | cons item rest ih =>
    obtain ⟨first, others⟩ := List.forall_mem_cons.mp each
    rw [List.mapM_cons]
    refine first.bind fun head here => (ih others).bind fun tail there => ?_
    exact .pure (List.forall_mem_cons.mpr ⟨here, there⟩)

theorem ok {action : Action σ α} (ensures : Ensures invariant property action) {state after : σ}
    {result : α} (kept : invariant state) (ran : action.perform state = (.ok result, after)) :
    invariant after ∧ property result := by
  obtain ⟨keptAfter, holds⟩ := ensures state kept
  rw [ran] at keptAfter holds
  exact ⟨keptAfter, holds result rfl⟩

end Ensures

end MacroAssembler.Action
