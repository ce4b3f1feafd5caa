/-
This module says what the scope holds that an invocation opens.

The scope binds every parameter to its operand, as the operand is evaluated where the invocation
stands, and it gives every local label of the macro body a label of its own. These labels are made
one after the other, each under a name that no label had before, so they differ from each other and
from every label that the table knew when the invocation was met.
-/
import MacroAssembler.Proofs.FreshLabel
import MacroAssembler.Proofs.Resolution

namespace MacroAssembler

open Action List

/-! ### Minted labels -/

variable {name : String} {table : SymbolTable} {labels : List (Name × LocalLabel)}

namespace SymbolTable

/-- Whether the local labels of a table grow by new ones: each has a name that no label had, they
differ from each other, and no other label is added. -/
structure Gains (before after : SymbolTable) (minted : List LocalLabel) : Prop where
  fresh : ∀ mark ∈ minted, ¬ before.IsInterned mark.name
  distinct : (minted.map (·.name.key)).Nodup
  interned : ∀ name, after.IsInterned name ↔
    before.IsInterned name ∨ ∃ mark ∈ minted, mark.name.key = name.key

/-- Whether a table grows by new local labels and by nothing else. -/
structure Mints (before after : SymbolTable) (minted : List LocalLabel) : Prop
    extends Gains before after minted where
  flags : ∀ name, after.flagsOf name = before.flagsOf name

variable {before middle after : SymbolTable} {mark : LocalLabel} {minted others : List LocalLabel}

theorem Gains.ofSymbols (same : after.symbols = before.symbols) : before.Gains after [] where
  fresh := by simp
  distinct := nodup_nil
  interned name := by simp [isInterned_of_symbols_eq same]

/-- Labels that are gained one after the other are new and distinct together. -/
theorem Gains.append (first : before.Gains middle minted) (second : middle.Gains after others) :
    before.Gains after (minted ++ others) where
  fresh mark mem interned := by
    rcases mem_append.mp mem with early | late
    · exact first.fresh mark early interned
    · exact second.fresh mark late ((first.interned _).mpr (.inl interned))
  distinct := by
    rw [map_append, nodup_append']
    refine ⟨first.distinct, second.distinct, fun key early late => ?_⟩
    obtain ⟨mark, mem, rfl⟩ := mem_map.mp early
    obtain ⟨other, otherMem, same⟩ := mem_map.mp late
    exact second.fresh other otherMem ((first.interned _).mpr (.inr ⟨mark, mem, same.symm⟩))
  interned name := by
    rw [second.interned, first.interned]
    simp only [mem_append, or_and_right, exists_or, or_assoc]

theorem Mints.none (table : SymbolTable) : table.Mints table [] :=
  ⟨.ofSymbols rfl, fun _ => rfl⟩

theorem Mints.isInternal (mints : before.Mints after minted) :
    after.IsInternal name ↔ before.IsInternal name := by
  unfold IsInternal
  rw [mints.flags]

theorem isInterned_congr {name other : Name} (same : name.key = other.key) :
    table.IsInterned name ↔ table.IsInterned other := by
  rw [isInterned_iff, isInterned_iff, same]

theorem mints_freshLocalLabel (table : SymbolTable) (comment : String) (origin : Origin) :
    table.Mints (table.freshLocalLabel comment origin).2
      [(table.freshLocalLabel comment origin).1] := by
  obtain ⟨fresh, interned⟩ := freshLocalLabel_fresh table comment origin
  have sameLabels := congrArg labels (draws_freshLocalLabel table comment origin).table
  refine ⟨⟨?_, ?_, ?_⟩, fun name => flagsOf_of_labels_eq sameLabels⟩
  · intro mark mem
    rwa [mem_singleton.mp mem]
  · exact nodup_singleton _
  · intro name
    rw [interned]
    simp [eq_comm]

theorem Mints.cons (first : before.Mints middle [mark]) (rest : middle.Mints after minted) :
    before.Mints after (mark :: minted) where
  toGains := first.toGains.append rest.toGains
  flags name := by rw [rest.flags, first.flags]

theorem Uses.mints (uses : before.Uses middle) (mints : middle.Mints after minted) :
    before.Mints after minted where
  toGains := (Gains.ofSymbols uses.symbols).append mints.toGains
  flags name := by rw [mints.flags, uses.flags]

end SymbolTable

/-! ### Renaming -/

theorem Node.localLabelsOf_eq_nil {items : List Node} :
    localLabelsOf items = [] ↔ ∀ item ∈ items, item.localLabels = [] := by
  induction items with
  | nil => simp [localLabelsOf]
  | cons item rest ih => simp [localLabelsOf, ih]

namespace Frame

theorem labelIn?_nil (name : Name) : labelIn? [] name = none := rfl

theorem isSome_labelIn? {name : Name} :
    (labelIn? labels name).isSome ↔ ∃ entry ∈ labels, entry.1.key = name.key := by
  simp [labelIn?]

theorem labelIn?_of_mem (distinct : (labels.map (·.1.key)).Nodup) {entry : Name × LocalLabel}
    (mem : entry ∈ labels) {name : Name} (same : entry.1.key = name.key) :
    labelIn? labels name = some entry.2 := by
  induction labels with
  | nil => cases mem
  | cons first rest ih =>
    rw [map_cons, nodup_cons] at distinct
    unfold labelIn?
    rw [find?_cons]
    rcases mem_cons.mp mem with rfl | mem
    · simp [same]
    · have different : first.1.key ≠ name.key := fun equal =>
        distinct.1 (mem_map.mpr ⟨entry, mem, same.trans equal.symm⟩)
      simp only [different, decide_false]
      exact ih distinct.2 mem

end Frame

namespace Expander

open Frame SymbolTable

variable {state after : Expander}

/-- Renaming adds labels to those that are renamed already. The new ones are minted, every label of
the body is covered, and if the body defines no label twice each of its labels gets one. -/
theorem renameLabels_ok {renamed : List (Name × LocalLabel)} {marks : List LocalLabel}
    (ran : (renameLabels name renamed marks).perform state = (.ok labels, after)) :
    after = { state with table := after.table } ∧
    ∃ added, labels = renamed ++ added ∧ state.table.Mints after.table (added.map (·.2)) ∧
      (∀ mark ∈ marks, (labelIn? labels mark.name).isSome) ∧
      ((marks.map (·.name.key)).Nodup → (∀ mark ∈ marks, labelIn? renamed mark.name = none) →
        added.map (·.1) = marks.map (·.name)) := by
  induction marks generalizing renamed state with
  | nil =>
    simp only [renameLabels, pure_ok] at ran
    obtain ⟨rfl, rfl⟩ := ran
    exact ⟨rfl, [], by simp, .none _, by simp, by simp⟩
  | cons mark rest ih =>
    rw [renameLabels] at ran
    split at ran
    · rename_i known
      obtain ⟨kept, added, rfl, mints, covered, _⟩ := ih ran
      refine ⟨kept, added, rfl, mints, ?_, ?_⟩
      · intro other mem
        rcases mem_cons.mp mem with rfl | mem
        · obtain ⟨entry, entryMem, same⟩ := isSome_labelIn?.mp known
          exact isSome_labelIn?.mpr ⟨entry, mem_append_left _ entryMem, same⟩
        · exact covered other mem
      · intro _ unknown
        rw [unknown mark mem_cons_self] at known
        cases known
    · simp only [perform_bind_ok, perform_lift, perform_onTable, Prod.mk.injEq,
        Except.ok.injEq] at ran
      obtain ⟨clean, _, ⟨-, rfl⟩, fresh, _, ⟨rfl, rfl⟩, renames⟩ := ran
      obtain ⟨kept, added, rfl, mints, covered, exact⟩ := ih renames
      refine ⟨kept, (mark.name, (state.table.freshLocalLabel _ mark.origin).1) :: added,
        by rw [append_assoc]; rfl, (mints_freshLocalLabel _ _ _).cons mints, ?_, ?_⟩
      · intro other mem
        rcases mem_cons.mp mem with rfl | mem
        · exact isSome_labelIn?.mpr ⟨(other.name, (state.table.freshLocalLabel _ other.origin).1),
            mem_append_left _ (mem_append_right _ mem_cons_self), rfl⟩
        · exact covered other mem
      · intro distinct unknown
        rw [map_cons, nodup_cons] at distinct
        rw [map_cons, map_cons, exact distinct.2]
        intro other mem
        rw [← Option.not_isSome_iff_eq_none, isSome_labelIn?]
        rintro ⟨entry, entryMem, same⟩
        rcases mem_append.mp entryMem with old | new
        · have known := unknown other (mem_cons_of_mem _ mem)
          rw [← Option.not_isSome_iff_eq_none] at known
          exact known (isSome_labelIn?.mpr ⟨entry, old, same⟩)
        · rw [mem_singleton.mp new] at same
          exact distinct.1 (mem_map.mpr ⟨other, mem, same.symm⟩)

/-! ### Parameters -/

theorem parameterName_table (table other : SymbolTable) (parameter : Node) :
    parameterName table parameter = parameterName other parameter := by
  have same : parameter.property table .name = parameter.property other .name := by
    cases parameter <;> rfl
  unfold parameterName
  rw [same]

def boundName? (parameter : Node) : Option String :=
  match parameterName .empty parameter with
  | .ok name => name
  | .error _ => none

/-- What is given for the last of some parameters with a name. -/
def argument? {α : Type} (pairs : List (Node × α)) (name : String) : Option α :=
  pairs.reverse.findSome? fun pair => if boundName? pair.1 = some name then some pair.2 else none

variable {α : Type} {given : List α}

theorem argument?_cons (pair : Node × α) (rest : List (Node × α)) (name : String) :
    argument? (pair :: rest) name = (argument? rest name).or
      (if boundName? pair.1 = some name then some pair.2 else none) := by
  simp [argument?, List.findSome?_append]

theorem get?_bindParameters {pairs : List (Node × Bound)} {bindings : List (String × Bound)}
    (bound : bindParameters table pairs = .ok bindings) (name : String) :
    Association.get? bindings name = argument? pairs name := by
  induction pairs generalizing bindings with
  | nil =>
    cases bound
    rfl
  | cons pair rest ih =>
    obtain ⟨parameter, argument⟩ := pair
    simp only [bindParameters, Checked.bind_ok] at bound
    obtain ⟨own, named, others, boundOthers, decided⟩ := bound
    have ownName : boundName? parameter = own := by
      rw [boundName?, parameterName_table _ table, named]
    rw [argument?_cons, ownName, ← ih boundOthers]
    cases own with
    | none =>
      cases decided
      simp
    | some own =>
      dsimp only at decided
      rw [Association.holds_eq_isSome] at decided
      split at decided
      · rename_i shadowed
        cases decided
        by_cases same : own = name
        · subst same
          obtain ⟨found, known⟩ := Option.isSome_iff_exists.mp shadowed
          simp [known]
        · simp [same]
      · rename_i single
        cases decided
        rw [Association.get?_cons]
        by_cases same : own = name
        · subst same
          rw [Option.not_isSome_iff_eq_none.mp single]
          simp
        · simp [same]

theorem argument?_mem {pairs : List (Node × α)} {given : α}
    (found : argument? pairs name = some given) :
    ∃ parameter, (parameter, given) ∈ pairs ∧ boundName? parameter = some name := by
  obtain ⟨pair, mem, chosen⟩ := List.exists_of_findSome?_eq_some found
  split at chosen
  · rename_i named
    cases chosen
    exact ⟨pair.1, mem_reverse.mp mem, named⟩
  · cases chosen

theorem isSome_argument? {parameters : List Node} {parameter : Node}
    (sameNumber : parameters.length = given.length) (mem : parameter ∈ parameters)
    (named : boundName? parameter = some name) :
    (argument? (parameters.zip given) name).isSome := by
  obtain ⟨position, bound, same⟩ := getElem_of_mem mem
  unfold argument?
  rw [List.findSome?_isSome_iff]
  refine ⟨(parameter, given[position]), ?_, by simp [named]⟩
  rw [mem_reverse, mem_iff_getElem]
  exact ⟨position, by simpa [← sameNumber] using bound, by simp [same]⟩

theorem argument?_map {β : Type} (change : α → β) (parameters : List Node) (given : List α)
    (name : String) : argument? (parameters.zip (given.map change)) name =
      (argument? (parameters.zip given) name).map change := by
  induction parameters generalizing given with
  | nil => rfl
  | cons parameter rest ih =>
    cases given with
    | nil => rfl
    | cons first others =>
      rw [map_cons, zip_cons_cons, zip_cons_cons, argument?_cons, argument?_cons, ih, Option.map_or]
      split <;> rfl

theorem argument?_related {β : Type} {relation : α → β → Prop} {others : List β}
    (related : List.Forall₂ relation given others) (name : String) (parameters : List Node) :
    Option.Rel relation (argument? (parameters.zip given) name)
      (argument? (parameters.zip others) name) := by
  induction related generalizing parameters with
  | nil =>
    rw [List.zip_nil_right, List.zip_nil_right]
    exact .none
  | @cons _ _ given others first _ ih =>
    cases parameters with
    | nil => exact .none
    | cons parameter rest =>
      rw [zip_cons_cons, zip_cons_cons, argument?_cons, argument?_cons]
      have later := ih rest
      generalize argument? (rest.zip given) name = found at later ⊢
      generalize argument? (rest.zip others) name = otherFound at later ⊢
      cases later with
      | some later => exact .some later
      | none =>
        dsimp only [Option.none_or]
        split
        · exact .some first
        · exact .none

/-- What the scope of an invocation holds, and what opening it changes. -/
structure Opens (before : Expander) (definition : Definition) (invocation : Invocation)
    (arguments : List Bound) (scope : Scope Bound) (after : Expander) : Prop where
  rest : after = { before with table := after.table }
  evaluated : List.Forall₂ before.Evaluates invocation.operands arguments
  bindings : ∀ name, Association.get? scope.bindings name =
    argument? (definition.parameters.zip arguments) name
  mints : before.table.Mints after.table (scope.labels.map (·.2))
  covers : ∀ mark ∈ definition.body.localLabels, (labelIn? scope.labels mark.name).isSome
  labels : (definition.body.localLabels.map (·.name.key)).Nodup →
    scope.labels.map (·.1) = definition.body.localLabels.map (·.name)

theorem openScope_ok {definition : Definition} {invocation : Invocation} {scope : Scope Bound}
    (ran : (openScope definition invocation).perform state = (.ok scope, after)) :
    ∃ arguments, state.Opens definition invocation arguments scope after := by
  simp only [openScope, perform_bind_ok, perform_get, perform_lift,
    perform_pure, Prod.mk.injEq, Except.ok.injEq] at ran
  obtain ⟨arguments, middle, evaluated, _, _, ⟨rfl, rfl⟩, bindings, _, ⟨bound, rfl⟩, labels, _,
    renamed, rfl, rfl⟩ := ran
  obtain ⟨uses, evaluates⟩ := evaluateOperands_ok evaluated
  obtain ⟨kept, added, rfl, mints, covers, named⟩ := renameLabels_ok renamed
  refine ⟨arguments, ?_, evaluates, get?_bindParameters bound, uses.table.mints mints, covers, ?_⟩
  · rw [kept, uses.rest]
  · exact fun distinct => named distinct fun _ _ => rfl

end Expander

end MacroAssembler
