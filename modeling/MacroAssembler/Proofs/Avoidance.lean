/-
This module says how it is shown that an action cannot fail in a certain way.

An action fails where one of its steps does. So it avoids a failure if all its steps do, in whatever
states they are taken, and the steps that matter are those that report something. A check that can
only meet a fault is silent: it never reports anything.
-/
import MacroAssembler.Document.Coercion
import MacroAssembler.Proofs.Step

namespace MacroAssembler

variable {σ α β : Type} {excluded : Failure → Prop}

def Failure.IsDiagnostic (failure : Failure) : Prop := ∃ problem, failure = .diagnostic problem

/-- Whether a check never fails in an excluded way. -/
def Checked.Avoids (excluded : Failure → Prop) (outcome : Checked α) : Prop :=
  ∀ failure, outcome = .error failure → ¬ excluded failure

/-- Whether a check never reports anything. -/
abbrev Checked.IsSilent (outcome : Checked α) : Prop := outcome.Avoids Failure.IsDiagnostic

variable {outcome : Checked α}

namespace Checked.Avoids

theorem mono {other : Failure → Prop} (avoids : outcome.Avoids excluded)
    (narrower : ∀ failure, other failure → excluded failure) : outcome.Avoids other :=
  fun failure failed isOther => avoids failure failed (narrower failure isOther)

theorem pure (value : α) : Avoids excluded (Pure.pure value : Checked α) :=
  fun _ impossible => by cases impossible

theorem fault (fault : Fault) : (MacroAssembler.refuse fault : Checked α).IsSilent :=
  fun _ failed ⟨_, isDiagnostic⟩ => by
    cases failed
    cases isDiagnostic

theorem bind {first : Checked α} {next : α → Checked β} (avoids : Avoids excluded first)
    (continues : ∀ value, Avoids excluded (next value)) : Avoids excluded (first >>= next) := by
  intro failure failed
  rcases Checked.bind_error.mp failed with early | ⟨value, -, late⟩
  · exact avoids failure early
  · exact continues value failure late

end Checked.Avoids

theorem silent_toName (name : Value) : name.toName.IsSilent := by
  unfold Value.toName
  split
  · exact .pure _
  · exact .fault _

namespace Action

/-- Whether an action never fails in an excluded way. -/
def Avoids (excluded : Failure → Prop) (action : Action σ α) : Prop :=
  ∀ state failure after, action.perform state = (.error failure, after) → ¬ excluded failure

namespace Avoids

theorem pure (value : α) : Avoids excluded (Pure.pure value : Action σ α) :=
  fun _ _ _ impossible => by cases impossible

theorem lift (avoids : outcome.Avoids excluded) : Avoids excluded (liftM outcome : Action σ α) :=
  fun _ failure _ failed => avoids failure (congrArg Prod.fst failed)

theorem modify (change : σ → σ) : Avoids excluded (modify change : Action σ Unit) :=
  fun _ _ _ impossible => by cases impossible

theorem bind {first : Action σ α} {next : α → Action σ β} (avoids : Avoids excluded first)
    (continues : ∀ value, Avoids excluded (next value)) : Avoids excluded (first >>= next) := by
  intro state failure after failed
  rcases perform_bind_error.mp failed with early | ⟨value, middle, -, late⟩
  · exact avoids _ _ _ early
  · exact continues value _ _ _ late

theorem mapM {items : List α} {step : α → Action σ β}
    (each : ∀ item ∈ items, Avoids excluded (step item)) : Avoids excluded (items.mapM step) := by
  induction items with
  | nil => exact .pure []
  | cons item rest ih =>
    obtain ⟨first, others⟩ := List.forall_mem_cons.mp each
    rw [List.mapM_cons]
    exact first.bind fun _ => (ih others).bind fun _ => .pure _

end Avoids

end Action

end MacroAssembler
