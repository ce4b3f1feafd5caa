/-
This module compares the runs of two actions of which each may fail where the other one succeeds.

The two actions may be different, and so may their states and results; what is asked is that from
related states they come to related results and to related states again, if both succeed. The
comparison of two actions is put together from comparisons of their steps.
-/
import MacroAssembler.Proofs.Step

namespace MacroAssembler

variable {σ τ α β γ δ : Type}

namespace Action

/-- Whether two actions, run from related states, have related results and leave related states if
both succeed. -/
def Relates (states : σ → τ → Prop) (results : α → β → Prop) (first : Action σ α)
    (second : Action τ β) : Prop :=
  ∀ state other after otherAfter result otherResult, states state other →
    first.perform state = (.ok result, after) →
    second.perform other = (.ok otherResult, otherAfter) →
      results result otherResult ∧ states after otherAfter

namespace Relates

variable {states : σ → τ → Prop} {results : α → β → Prop} {wanted : γ → δ → Prop}
  {first : Action σ α} {second : Action τ β}

theorem ok (related : Relates states results first second) {state after : σ}
    {other otherAfter : τ} {result : α} {otherResult : β} (initially : states state other)
    (ran : first.perform state = (.ok result, after))
    (otherRan : second.perform other = (.ok otherResult, otherAfter)) :
    results result otherResult ∧ states after otherAfter :=
  related _ _ _ _ _ _ initially ran otherRan

theorem mono {wider : α → β → Prop} (weaker : ∀ value other, results value other → wider value other)
    (related : Relates states results first second) : Relates states wider first second :=
  fun _ _ _ _ _ _ initially ran otherRan =>
    (related.ok initially ran otherRan).imp_left (weaker _ _)

theorem pure {value : α} {other : β} (related : results value other) :
    Relates states results (Pure.pure value : Action σ α) (Pure.pure other : Action τ β) := by
  rintro state other _ _ _ _ initially ⟨⟩ ⟨⟩
  exact ⟨related, initially⟩

theorem lift {outcome : Checked α} {other : Checked β}
    (related : ∀ value otherValue, outcome = .ok value → other = .ok otherValue →
      results value otherValue) :
    Relates states results (liftM outcome : Action σ α) (liftM other : Action τ β) := by
  intro state otherState after otherAfter result otherResult initially ran otherRan
  rw [perform_lift, Prod.mk.injEq] at ran otherRan
  obtain ⟨given, rfl⟩ := ran
  obtain ⟨otherGiven, rfl⟩ := otherRan
  exact ⟨related _ _ given otherGiven, initially⟩

theorem get : Relates states states (MonadState.get : Action σ σ)
    (MonadState.get : Action τ τ) := by
  rintro state other _ _ _ _ initially ⟨⟩ ⟨⟩
  exact ⟨initially, initially⟩

theorem modify {change : σ → σ} {otherChange : τ → τ}
    (kept : ∀ state other, states state other → states (change state) (otherChange other)) :
    Relates states (fun _ _ => True) (modify change : Action σ Unit)
      (modify otherChange : Action τ Unit) := by
  rintro state other _ _ _ _ initially ⟨⟩ ⟨⟩
  exact ⟨trivial, kept state other initially⟩

theorem bind {next : α → Action σ γ} {otherNext : β → Action τ δ}
    (related : Relates states results first second)
    (continues : ∀ value other, results value other →
      Relates states wanted (next value) (otherNext other)) :
    Relates states wanted (first >>= next) (second >>= otherNext) := by
  intro state other after otherAfter result otherResult initially ran otherRan
  obtain ⟨value, middle, passed, rest⟩ := perform_bind_ok.mp ran
  obtain ⟨otherValue, otherMiddle, otherPassed, otherRest⟩ :=
    perform_bind_ok.mp otherRan
  obtain ⟨alike, between⟩ := related.ok initially passed otherPassed
  exact (continues value otherValue alike).ok between rest otherRest

theorem mapM {items : List α} {others : List β} {alike : α → β → Prop} {step : α → Action σ γ}
    {otherStep : β → Action τ δ} (related : List.Forall₂ alike items others)
    (each : ∀ item ∈ items, ∀ other, alike item other →
      Relates states wanted (step item) (otherStep other)) : Relates states
      (fun results otherResults => List.Forall₂ wanted results otherResults ∧
        results.length = items.length) (items.mapM step) (others.mapM otherStep) := by
  induction related with
  | nil => exact .pure ⟨.nil, rfl⟩
  | @cons item other items others head _ ih =>
    rw [List.mapM_cons, List.mapM_cons]
    refine (each item List.mem_cons_self other head).bind fun result otherResult alike => ?_
    refine (ih fun item mem => each item (List.mem_cons_of_mem _ mem)).bind
      fun results otherResults ⟨allAlike, number⟩ => ?_
    exact .pure ⟨.cons alike allAlike, congrArg Nat.succ number⟩

end Relates

end Action

end MacroAssembler
