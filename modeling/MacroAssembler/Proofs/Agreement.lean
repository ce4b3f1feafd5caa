/-
This module compares two runs of one action that start from different states.

An action respects a relation between states if it takes related states to the same outcome and to
related states again. Whatever is built from such actions respects the relation too.

Two symbol tables agree if they know the same labels and the same local labels, and have noted the
same forward references.
-/
import MacroAssembler.Proofs.Step
import MacroAssembler.SymbolTable

namespace MacroAssembler

/-! ### Actions -/

namespace Action

variable {σ α β : Type}

/-- Whether an action takes related states to the same outcome and to related states. -/
def Respects (relation : σ → σ → Prop) (action : Action σ α) : Prop :=
  ∀ first second, relation first second → (action.perform first).1 = (action.perform second).1 ∧
      relation (action.perform first).2 (action.perform second).2

namespace Respects

variable {relation : σ → σ → Prop}

theorem pure (value : α) : Respects relation (Pure.pure value : Action σ α) :=
  fun _ _ related => ⟨rfl, related⟩

theorem lift (outcome : Checked α) : Respects relation (liftM outcome : Action σ α) :=
  fun _ _ related => ⟨rfl, related⟩

variable {action : Action σ α}

theorem results_eq {first second after afterwards : σ} {result other : α}
    (respects : Respects relation action) (related : relation first second)
    (ran : action.perform first = (.ok result, after))
    (otherRan : action.perform second = (.ok other, afterwards)) :
    other = result ∧ relation after afterwards := by
  obtain ⟨same, kept⟩ := respects first second related
  rw [ran, otherRan] at same kept
  exact ⟨(Except.ok.inj same).symm, kept⟩

theorem modify {change : σ → σ}
    (kept : ∀ first second, relation first second → relation (change first) (change second)) :
    Respects relation (modify change : Action σ Unit) :=
  fun first second related => ⟨rfl, kept first second related⟩

theorem bind {next : α → Action σ β} (respects : Respects relation action)
    (continues : ∀ value, Respects relation (next value)) :
    Respects relation (action >>= next) := by
  intro first second related
  obtain ⟨same, afterwards⟩ := respects first second related
  rw [perform_bind, perform_bind]
  generalize action.perform first = left at same afterwards
  generalize action.perform second = right at same afterwards
  obtain ⟨outcome, left⟩ := left
  obtain ⟨_, right⟩ := right
  subst same
  cases outcome with
  | ok value => exact continues value left right afterwards
  | error failure => exact ⟨rfl, afterwards⟩

/-- A step that depends on a part of the state in which related states do not differ. -/
theorem get {next : σ → Action σ β}
    (same : ∀ first second, relation first second → next first = next second)
    (continues : ∀ state, Respects relation (next state)) :
    Respects relation (MonadState.get >>= next) := by
  intro first second related
  show ((next first).perform first).1 = ((next second).perform second).1 ∧
    relation ((next first).perform first).2 ((next second).perform second).2
  rw [← same first second related]
  exact continues first first second related

theorem mapM {step : α → Action σ β} {items : List α}
    (each : ∀ item ∈ items, Respects relation (step item)) :
    Respects relation (items.mapM step) := by
  induction items with
  | nil => exact .pure []
  | cons item rest ih =>
    rw [List.mapM_cons]
    refine (each item List.mem_cons_self).bind fun first => ?_
    refine (ih fun item mem => each item (List.mem_cons_of_mem _ mem)).bind fun others => ?_
    exact .pure _

end Respects

end Action

namespace SymbolTable

/-- Whether two tables know the same labels and local labels and have noted the same uses. -/
structure Agrees (first second : SymbolTable) : Prop where
  labels : ∀ name : String, second.findLabel? (.text name) = first.findLabel? (.text name)
  locals : ∀ name, second.findLocal? name = first.findLocal? name
  referenced : second.referenced = first.referenced
  counter : second.counter = first.counter

/-- Whether related tables know the same about labels and are still related after a use is noted in
both. -/
structure TracksUses (relation : SymbolTable → SymbolTable → Prop) : Prop where
  flagsOf : ∀ first second name, relation first second → second.flagsOf name = first.flagsOf name
  noteUse : ∀ first second name, relation first second →
    relation (first.noteUse name) (second.noteUse name)

end SymbolTable

end MacroAssembler
