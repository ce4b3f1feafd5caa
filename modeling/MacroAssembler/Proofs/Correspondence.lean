/-
This module compares the runs of two actions, their failures included.

Two runs correspond if both succeed with related results or both fail in ways that count as alike.
Which failures do is left open: it may be asked that they are of one class, or that neither is of a
certain sort. The comparison of two actions is put together from comparisons of their steps. Two
runs that both correspond to a third one correspond to each other.
-/
import MacroAssembler.Proofs.Step

namespace MacroAssembler

open List

/-- The class of a failure: the kind of the diagnostic or of the fault. -/
def Failure.family : Failure → DiagnosticKind ⊕ FaultKind
  | .diagnostic problem => .inl problem.kind
  | .fault refusal => .inr refusal.kind

abbrev Failure.Any (_failure _other : Failure) : Prop := True

instance : Std.Refl Failure.Any := ⟨fun _ => trivial⟩

variable {σ τ α β γ δ : Type} {fails otherFails : Failure → Failure → Prop}

/-- Whether two outcomes are related values or failures that count as alike. -/
inductive Checked.Corresponds (fails : Failure → Failure → Prop) (alike : α → β → Prop) :
    Checked α → Checked β → Prop
  | ok {value : α} {other : β} (related : alike value other) :
      Corresponds fails alike (.ok value) (.ok other)
  | error {failure other : Failure} (related : fails failure other) :
      Corresponds fails alike (.error failure) (.error other)

variable {wider : α → β → Prop}

namespace Checked.Corresponds

variable {alike : α → β → Prop} {outcome : Checked α} {other : Checked β}

theorem mono (weaker : ∀ value other, alike value other → wider value other)
    (corresponds : Corresponds fails alike outcome other) :
    Corresponds fails wider outcome other := by
  cases corresponds with
  | ok related => exact .ok (weaker _ _ related)
  | error related => exact .error related

theorem refl [Std.Refl fails] (outcome : Checked α) : Corresponds fails Eq outcome outcome := by
  cases outcome with
  | ok => exact .ok rfl
  | error failure => exact .error (Std.Refl.refl failure)

theorem known (corresponds : Corresponds fails alike outcome other) :
    Corresponds fails (fun value otherValue => alike value otherValue ∧ outcome = .ok value ∧
      other = .ok otherValue) outcome other := by
  cases corresponds with
  | ok related => exact .ok ⟨related, rfl, rfl⟩
  | error related => exact .error related

theorem bothFail (failed : ∀ value, outcome ≠ .ok value) (otherFailed : ∀ value, other ≠ .ok value) :
    Corresponds Failure.Any alike outcome other := by
  rcases outcome with failure | value
  · rcases other with otherFailure | otherValue
    · exact .error trivial
    · exact absurd rfl (otherFailed otherValue)
  · exact absurd rfl (failed value)

theorem bind {next : α → Checked γ} {otherNext : β → Checked δ} {wanted : γ → δ → Prop}
    (corresponds : Corresponds fails alike outcome other)
    (continues : ∀ value otherValue, alike value otherValue →
      Corresponds fails wanted (next value) (otherNext otherValue)) :
    Corresponds fails wanted (outcome >>= next) (other >>= otherNext) := by
  cases corresponds with
  | ok related => exact continues _ _ related
  | error related => exact .error related

theorem bind_eq {other : Checked α} {next : α → Checked γ} {otherNext : α → Checked δ}
    {wanted : γ → δ → Prop} (corresponds : Corresponds fails Eq outcome other)
    (continues : ∀ value, Corresponds fails wanted (next value) (otherNext value)) :
    Corresponds fails wanted (outcome >>= next) (other >>= otherNext) :=
  corresponds.bind fun value _ same => same ▸ continues value

theorem mapM {items : List γ} {check otherCheck : γ → Checked α}
    (each : ∀ item ∈ items, Corresponds fails Eq (check item) (otherCheck item)) :
    Corresponds fails Eq (items.mapM check) (items.mapM otherCheck) := by
  induction items with
  | nil => exact .ok rfl
  | cons item rest ih =>
    obtain ⟨first, others⟩ := forall_mem_cons.mp each
    rw [mapM_cons, mapM_cons]
    exact first.bind_eq fun value => (ih others).bind_eq fun values => .ok rfl

theorem meet {third : Checked γ} {otherAlike : γ → β → Prop} {wanted : α → γ → Prop}
    (values : ∀ value another result, alike value result → otherAlike another result →
      wanted value another)
    (failures : ∀ failure another result, fails failure result → fails another result →
      otherFails failure another) (corresponds : Corresponds fails alike outcome other)
    (otherwise : Corresponds fails otherAlike third other) :
    Corresponds otherFails wanted outcome third := by
  cases corresponds with
  | ok related =>
    cases otherwise with
    | ok otherRelated => exact .ok (values _ _ _ related otherRelated)
  | error related =>
    cases otherwise with
    | error otherRelated => exact .error (failures _ _ _ related otherRelated)

end Checked.Corresponds

namespace Action

/-- Whether two actions, run from related states, have outcomes that correspond and, if both
succeed, leave related states. -/
def Corresponds (fails : Failure → Failure → Prop) (states : σ → τ → Prop) (results : α → β → Prop)
    (first : Action σ α) (second : Action τ β) : Prop :=
  ∀ state other, states state other → Checked.Corresponds fails
    (fun result otherResult => results result otherResult ∧
      states (first.perform state).2 (second.perform other).2)
    (first.perform state).1 (second.perform other).1

namespace Corresponds

variable {states : σ → τ → Prop} {results : α → β → Prop} {wanted : γ → δ → Prop}
  {first : Action σ α} {second : Action τ β}

theorem mono (weaker : ∀ value other, results value other → wider value other)
    (corresponds : Corresponds fails states results first second) :
    Corresponds fails states wider first second :=
  fun state other initially => (corresponds state other initially).mono fun _ _ kept =>
    ⟨weaker _ _ kept.1, kept.2⟩

theorem pure {value : α} {other : β} (related : results value other) :
    Corresponds fails states results (Pure.pure value : Action σ α)
      (Pure.pure other : Action τ β) :=
  fun _ _ initially => .ok ⟨related, initially⟩

theorem lift {outcome : Checked α} {other : Checked β}
    (corresponds : Checked.Corresponds fails results outcome other) :
    Corresponds fails states results (liftM outcome : Action σ α) (liftM other : Action τ β) :=
  fun _ _ initially => corresponds.mono fun _ _ related => ⟨related, initially⟩

theorem modify {change : σ → σ} {otherChange : τ → τ}
    (kept : ∀ state other, states state other → states (change state) (otherChange other)) :
    Corresponds fails states (fun _ _ => True) (modify change : Action σ Unit)
      (modify otherChange : Action τ Unit) :=
  fun state other initially => .ok ⟨trivial, kept state other initially⟩

theorem bind {next : α → Action σ γ} {otherNext : β → Action τ δ}
    (corresponds : Corresponds fails states results first second)
    (continues : ∀ value other, results value other →
      Corresponds fails states wanted (next value) (otherNext other)) :
    Corresponds fails states wanted (first >>= next) (second >>= otherNext) := by
  intro state other initially
  have outcomes := corresponds state other initially
  rw [perform_bind, perform_bind]
  generalize first.perform state = run at outcomes
  generalize second.perform other = otherRun at outcomes
  obtain ⟨outcome, after⟩ := run
  obtain ⟨otherOutcome, otherAfter⟩ := otherRun
  cases outcomes with
  | ok kept => exact continues _ _ kept.1 _ _ kept.2
  | error related => exact .error related

theorem bind_eq {second : Action τ α} {next : α → Action σ γ} {otherNext : α → Action τ δ}
    (corresponds : Corresponds fails states Eq first second)
    (continues : ∀ value, Corresponds fails states wanted (next value) (otherNext value)) :
    Corresponds fails states wanted (first >>= next) (second >>= otherNext) :=
  corresponds.bind fun value _ same => same ▸ continues value

theorem get {next : σ → Action σ α} {otherNext : τ → Action τ β}
    (continues : ∀ state other, states state other →
      Corresponds fails states results (next state) (otherNext other)) :
    Corresponds fails states results (MonadState.get >>= next) (MonadState.get >>= otherNext) :=
  bind (fun _ _ initially => .ok ⟨initially, initially⟩) continues

theorem meet {υ : Type} {third : Action υ γ} {otherStates : υ → τ → Prop}
    {otherResults : γ → β → Prop} {joint : σ → υ → Prop} {jointResults : α → γ → Prop}
    (initially : ∀ state another, joint state another →
      ∃ other, states state other ∧ otherStates another other)
    (atLast : ∀ state another other, states state other → otherStates another other →
      joint state another)
    (values : ∀ value another other, results value other → otherResults another other →
      jointResults value another)
    (failures : ∀ failure another other, fails failure other → fails another other →
      otherFails failure another) (corresponds : Corresponds fails states results first second)
    (otherwise : Corresponds fails otherStates otherResults third second) :
    Corresponds otherFails joint jointResults first third := by
  intro state another alike
  obtain ⟨other, here, there⟩ := initially state another alike
  refine Checked.Corresponds.meet (fun value anotherValue result kept otherKept => ?_) failures
    (corresponds state other here) (otherwise another other there)
  exact ⟨values _ _ _ kept.1 otherKept.1, atLast _ _ _ kept.2 otherKept.2⟩

theorem bothFail (failed : ∀ state result after, first.perform state ≠ (.ok result, after))
    (otherFailed : ∀ state result after, second.perform state ≠ (.ok result, after)) :
    Corresponds Failure.Any states results first second :=
  fun _ _ _ => .bothFail (fun _ ran => failed _ _ _ (perform_of_fst ran))
    fun _ ran => otherFailed _ _ _ (perform_of_fst ran)

theorem outcomes (corresponds : Corresponds fails states results first second) {state : σ}
    {other : τ} (initially : states state other) :
    (∃ failure otherFailure, (first.perform state).1 = .error failure ∧
        (second.perform other).1 = .error otherFailure) ∨
      ∃ result otherResult, (first.perform state).1 = .ok result ∧
        (second.perform other).1 = .ok otherResult ∧ results result otherResult ∧
        states (first.perform state).2 (second.perform other).2 := by
  have compared := corresponds state other initially
  generalize first.perform state = run at compared ⊢
  generalize second.perform other = otherRun at compared ⊢
  obtain ⟨outcome, after⟩ := run
  obtain ⟨otherOutcome, otherAfter⟩ := otherRun
  cases compared with
  | ok kept => exact .inr ⟨_, _, rfl, rfl, kept⟩
  | @error failure otherFailure => exact .inl ⟨failure, otherFailure, rfl, rfl⟩

/-- A run that is compared with one that succeeds does so too. -/
theorem follows (corresponds : Corresponds fails states results first second) {state after : σ}
    {other : τ} {result : α} (initially : states state other)
    (ran : first.perform state = (.ok result, after)) :
    ∃ otherResult otherAfter, second.perform other = (.ok otherResult, otherAfter) ∧
      results result otherResult ∧ states after otherAfter := by
  rcases corresponds.outcomes initially with ⟨_, _, failed, -⟩ |
    ⟨value, otherResult, same, passed, kept⟩
  · rw [ran] at failed
    cases failed
  · rw [ran] at same kept
    cases same
    exact ⟨otherResult, _, perform_of_fst passed, kept⟩

variable {otherStep : β → Action τ δ} {step : α → Action σ γ} {items : List α} {change : α → β}

theorem mapM {others : List β} {alike : α → β → Prop} (related : List.Forall₂ alike items others)
    (each : ∀ item ∈ items, ∀ other, alike item other →
      Corresponds fails states wanted (step item) (otherStep other)) : Corresponds fails states
      (fun results otherResults => List.Forall₂ wanted results otherResults ∧
        results.length = items.length) (items.mapM step) (others.mapM otherStep) := by
  induction related with
  | nil => exact .pure ⟨.nil, rfl⟩
  | @cons item other items others head _ ih =>
    rw [mapM_cons, mapM_cons]
    refine (each item mem_cons_self other head).bind fun result otherResult alike => ?_
    refine (ih fun item mem => each item (mem_cons_of_mem _ mem)).bind
      fun results otherResults ⟨allAlike, number⟩ => ?_
    exact .pure ⟨.cons alike allAlike, congrArg Nat.succ number⟩

theorem mapM_map
    (each : ∀ item ∈ items, Corresponds fails states wanted (step item) (otherStep (change item))) :
    Corresponds fails states (fun results otherResults => List.Forall₂ wanted results otherResults ∧
        results.length = items.length) (items.mapM step) ((items.map change).mapM otherStep) := by
  have related : List.Forall₂ (fun item other => other = change item) items (items.map change) :=
    forall₂_map_right_iff.mpr (forall₂_same.mpr fun _ _ => rfl)
  refine mapM related fun item mem other same => ?_
  rw [same]
  exact each item mem

theorem mapM_becomes {changeResult : γ → δ}
    (each : ∀ item ∈ items, Corresponds fails states (fun result other => other = changeResult result)
      (step item) (otherStep (change item))) : Corresponds fails states
      (fun results others => others = results.map changeResult ∧ results.length = items.length)
      (items.mapM step) ((items.map change).mapM otherStep) := by
  refine mono (fun results others ⟨related, number⟩ => ⟨?_, number⟩) (mapM_map each)
  rw [← forall₂_eq_eq_eq, forall₂_map_right_iff]
  exact related.flip

end Corresponds

end Action

end MacroAssembler
