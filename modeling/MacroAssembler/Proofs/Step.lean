/-
This module reads the outcome of an action off the outcomes of its parts.

An action threads a state and may stop with a failure, so the outcome of two actions in a row is
decided by the first one when it fails and by the second one when it does not. All that is ever
needed of a successful action is therefore the chain of its parts: every part succeeded, and the
state that one part left is the state that the next one found.
-/
import MacroAssembler.Failure
import Mathlib.Data.List.Forall2

namespace MacroAssembler

open List

theorem exists_left_of_forall₂ {α β : Type} {relation : α → β → Prop} {items : List α}
    {results : List β} (related : List.Forall₂ relation items results) :
    ∀ result ∈ results, ∃ item ∈ items, relation item result := by
  induction related with
  | nil => simp
  | cons head _ ih =>
    intro result mem
    rcases mem_cons.mp mem with rfl | mem
    · exact ⟨_, mem_cons_self, head⟩
    · obtain ⟨item, itemMem, holds⟩ := ih result mem
      exact ⟨item, mem_cons_of_mem _ itemMem, holds⟩

theorem forall₂_meet {α β γ : Type} {relation : α → β → Prop} {other : α → γ → Prop}
    {wanted : β → γ → Prop} {items : List α} {results : List β} {others : List γ}
    (meet : ∀ item ∈ items, ∀ result another, relation item result → other item another →
      wanted result another) (related : List.Forall₂ relation items results)
    (otherRelated : List.Forall₂ other items others) : List.Forall₂ wanted results others := by
  induction related generalizing others with
  | nil =>
    cases otherRelated
    exact .nil
  | cons head _ ih =>
    cases otherRelated with
    | cons otherHead otherRest =>
      refine .cons (meet _ mem_cons_self _ _ head otherHead) (ih ?_ otherRest)
      exact fun item mem => meet item (mem_cons_of_mem _ mem)

theorem Checked.mapM_congr {α β : Type} {items : List α} {step other : α → Checked β}
    (same : ∀ item ∈ items, step item = other item) : items.mapM step = items.mapM other := by
  induction items with
  | nil => rfl
  | cons item rest ih =>
    obtain ⟨first, others⟩ := forall_mem_cons.mp same
    rw [mapM_cons, mapM_cons, first, ih others]

variable {failure : Failure}

namespace Action

variable {σ α β : Type}

@[simp]
theorem perform_pure (value : α) (state : σ) :
    (pure value : Action σ α).perform state = (.ok value, state) := rfl

variable {after : σ} {action : Action σ α} {next : α → Action σ β} {results : List β}

theorem pure_ok {value result : α} {state : σ} :
    (pure value : Action σ α).perform state = (.ok result, after) ↔ value = result ∧ state = after :=
  by simp

@[simp]
theorem perform_get (state : σ) : (get : Action σ σ).perform state = (.ok state, state) := rfl

@[simp]
theorem perform_modify (change : σ → σ) (state : σ) :
    (modify change : Action σ Unit).perform state = (.ok (), change state) := rfl

@[simp]
theorem perform_lift (outcome : Checked α) (state : σ) :
    (liftM outcome : Action σ α).perform state = (outcome, state) := rfl

@[simp]
theorem lift_ok (value : α) : (liftM (.ok value : Checked α) : Action σ α) = pure value := rfl

theorem perform_bind (action : Action σ α) (next : α → Action σ β) (state : σ) :
    (action >>= next).perform state =
      match action.perform state with
      | (.ok value, after) => (next value).perform after
      | (.error failure, after) => (.error failure, after) := by
  show (ExceptT.bindCont next (action.perform state).1) (action.perform state).2 = _
  rcases action.perform state with ⟨failure | value, after⟩ <;> rfl

/-- Two actions in a row succeed exactly when both do, the second one from the state that the
first one left. -/
theorem perform_bind_ok {state : σ} {result : β} :
    (action >>= next).perform state = (.ok result, after) ↔
      ∃ value middle, action.perform state = (.ok value, middle) ∧
        (next value).perform middle = (.ok result, after) := by
  rw [perform_bind]
  rcases action.perform state with ⟨failure | value, middle⟩
  · simp
  · constructor
    · exact fun ran => ⟨value, middle, rfl, ran⟩
    · rintro ⟨_, _, same, ran⟩
      cases same
      exact ran

/-- Two actions in a row fail exactly when the first one does, or the second one does from the state
that the first one left. -/
theorem perform_bind_error {state : σ} : (action >>= next).perform state = (.error failure, after) ↔
      action.perform state = (.error failure, after) ∨
        ∃ value middle, action.perform state = (.ok value, middle) ∧
          (next value).perform middle = (.error failure, after) := by
  rw [perform_bind]
  rcases action.perform state with ⟨problem | value, middle⟩
  · simp
  · constructor
    · exact fun failed => .inr ⟨value, middle, rfl, failed⟩
    · rintro (impossible | ⟨_, _, same, failed⟩)
      · cases impossible
      · cases same
        exact failed

variable {state : σ} {items : List α} {step : α → Action σ β}

theorem perform_of_fst {outcome : Checked α} (same : (action.perform state).1 = outcome) :
    action.perform state = (outcome, (action.perform state).2) := by
  rw [← same]

theorem perform_mapM_cons_ok {item : α} {rest : List α} :
    ((item :: rest).mapM step).perform state = (.ok results, after) ↔
      ∃ first middle others, (step item).perform state = (.ok first, middle) ∧
        (rest.mapM step).perform middle = (.ok others, after) ∧ results = first :: others := by
  simp only [mapM_cons, perform_bind_ok, pure_ok]
  constructor
  · rintro ⟨first, middle, stepFirst, others, _, stepOthers, rfl, rfl⟩
    exact ⟨first, middle, others, stepFirst, stepOthers, rfl⟩
  · rintro ⟨first, middle, others, stepFirst, stepOthers, rfl⟩
    exact ⟨first, middle, stepFirst, others, after, stepOthers, rfl, rfl⟩

/-- What every step on an item keeps is kept by the steps on a list of items, and what every step
says about its item and its result holds all along the list. -/
theorem perform_mapM_ok (invariant : σ → Prop) (relation : α → β → Prop)
    (each : ∀ item ∈ items, ∀ state after result, invariant state →
      (step item).perform state = (.ok result, after) → invariant after ∧ relation item result)
    (initially : invariant state) (ran : (items.mapM step).perform state = (.ok results, after)) :
    invariant after ∧ List.Forall₂ relation items results := by
  induction items generalizing state results with
  | nil =>
    simp only [mapM_nil, pure_ok] at ran
    obtain ⟨rfl, rfl⟩ := ran
    exact ⟨initially, .nil⟩
  | cons item rest ih =>
    obtain ⟨first, middle, others, stepFirst, stepOthers, rfl⟩ :=
      perform_mapM_cons_ok.mp ran
    obtain ⟨keptFirst, related⟩ :=
      each item mem_cons_self _ _ _ initially stepFirst
    obtain ⟨keptOthers, relatedOthers⟩ := ih
      (fun item mem => each item (mem_cons_of_mem _ mem)) keptFirst stepOthers
    exact ⟨keptOthers, .cons related relatedOthers⟩

theorem perform_mapM_map {change : α → β}
    (each : ∀ item ∈ items, (step item).perform state = (.ok (change item), state)) :
    (items.mapM step).perform state = (.ok (items.map change), state) := by
  induction items with
  | nil => rfl
  | cons item rest ih =>
    refine perform_mapM_cons_ok.mpr ⟨change item, state, rest.map change, ?_, ?_, rfl⟩
    · exact each item mem_cons_self
    · exact ih fun item mem => each item (mem_cons_of_mem _ mem)

theorem perform_mapM_self {step : α → Action σ α}
    (each : ∀ item ∈ items, (step item).perform state = (.ok item, state)) :
    (items.mapM step).perform state = (.ok items, state) := by
  rw [perform_mapM_map each, List.map_id']

end Action

theorem Checked.bind_ok {α β : Type} {first : Checked α} {next : α → Checked β} {result : β} :
    (first >>= next) = .ok result ↔ ∃ value, first = .ok value ∧ next value = .ok result := by
  rcases first with failure | value
  · constructor
    · intro failed
      cases failed
    · rintro ⟨_, same, _⟩
      cases same
  · constructor
    · exact fun ran => ⟨value, rfl, ran⟩
    · rintro ⟨_, same, ran⟩
      cases same
      exact ran

theorem Checked.bind_error {α β : Type} {first : Checked α} {next : α → Checked β} :
    (first >>= next) = .error failure ↔
      first = .error failure ∨ ∃ value, first = .ok value ∧ next value = .error failure := by
  rcases first with problem | value
  · constructor
    · intro failed
      cases failed
      exact .inl rfl
    · rintro (failed | ⟨_, same, _⟩)
      · cases failed
        rfl
      · cases same
  · constructor
    · exact fun failed => .inr ⟨value, rfl, failed⟩
    · rintro (impossible | ⟨_, same, failed⟩)
      · cases impossible
      · cases same
        exact failed

theorem Except.eq_ok_of_toOption {ε α : Type} {outcome : Except ε α} {value : α}
    (found : outcome.toOption = some value) : outcome = .ok value := by
  cases outcome <;> cases found
  rfl

end MacroAssembler
