/-
This module proves that folding asks for every setting that a tree names.

A setting is met on one of three ways: in a predicate or another condition, of which both sides are
evaluated, in a discarded branch, of which all nodes are looked through, or in a part that is
folded. So whatever the values of the settings are, a tree is only folded if all its settings are
defined.
-/
import MacroAssembler.Proofs.DecidedShapes
import MacroAssembler.Proofs.Lowering

namespace MacroAssembler

open List Node

variable {config : Configuration}

/-! ### Listing the settings of a tree -/

namespace Node

theorem walk_ok {tree : Node} {nodes : List Node} : tree.walk = .ok nodes ↔
      (tree.Throughout fun part => part.isOpaque = false) ∧ nodes = tree.flatten := by
  unfold walk Throughout
  cases found : tree.flatten.find? isOpaque with
  | none =>
    have bare : ∀ part ∈ tree.flatten, part.isOpaque = false := by
      simpa using find?_eq_none.mp found
    exact ⟨fun walked => ⟨bare, (Except.ok.inj walked).symm⟩, fun same => by rw [same.2]⟩
  | some part =>
    have isOpaque := find?_some found
    simp only [refuse, reduceCtorEq, false_iff, not_and]
    exact fun none => absurd (none part (mem_of_find?_eq_some found)) (by simp [isOpaque])

theorem silent_walk (tree : Node) : tree.walk.IsSilent := by
  unfold walk
  split
  · exact .fault _
  · exact .pure _

theorem settingsUsed_ok {tree : Node} {names : List String} (used : tree.settingsUsed = .ok names) :
    (tree.Throughout fun part => part.isOpaque = false) ∧
      ∀ name, name ∈ names ↔ ∃ origin, .setting origin name ∈ tree.flatten := by
  obtain ⟨nodes, walks, listed⟩ := Checked.bind_ok.mp used
  obtain ⟨bare, rfl⟩ := walk_ok.mp walks
  obtain rfl := Except.ok.inj listed
  refine ⟨bare, fun name => ?_⟩
  rw [mem_mergeSort, mem_eraseDups, mem_filterMap]
  constructor
  · rintro ⟨part, mem, named⟩
    cases part with
    | setting origin other =>
      obtain rfl := Option.some.inj named
      exact ⟨origin, mem⟩
    | _ => cases named
  · exact fun ⟨origin, mem⟩ => ⟨_, mem, rfl⟩

/-- Whether a node can be looked through, and is defined if it is a setting. -/
def IsKnown (config : Configuration) (node : Node) : Prop :=
  node.isOpaque = false ∧ ∀ name, node.settingName? = some name → config.isDefined name

theorem isKnown_of_other {node : Node} (bare : node.isOpaque = false)
    (other : node.settingName? = none) : node.IsKnown config :=
  ⟨bare, fun _ named => by simp [other] at named⟩

end Node

/-! ### A tree that is folded names known settings -/

variable {name : String}

namespace Folding

theorem isDefined_of_isSet {origin : Option Origin} {value : Bool}
    (isSet : config.isSet name origin = .ok value) : config.isDefined name := by
  unfold Configuration.isSet at isSet
  unfold Configuration.isDefined
  split at isSet
  · simp [*]
  · cases isSet

theorem known_of_evaluate {condition : Node} {value : Bool}
    (evaluates : condition.evaluate config = .ok value) :
    condition.Throughout (IsKnown config) := by
  refine evaluate_induction (motive := Throughout (IsKnown config))
    ?setting ?truth ?binary ?unary evaluates
  case setting =>
    intro origin name value isSet
    refine throughout_iff.mpr ⟨⟨rfl, fun _ named => ?_⟩, by simp [children]⟩
    obtain rfl := Option.some.inj named
    exact isDefined_of_isSet isSet
  case truth =>
    exact fun _ => throughout_iff.mpr ⟨isKnown_of_other rfl rfl, by simp [children]⟩
  case binary =>
    intro _ _ left right inLeft inRight
    exact throughout_iff.mpr ⟨isKnown_of_other rfl rfl, by simp [children, inLeft, inRight]⟩
  case unary =>
    intro _ _ child inChild
    exact throughout_iff.mpr ⟨isKnown_of_other rfl rfl, by simp [children, inChild]⟩

theorem isDefined_of_requireSettings {nodes : List Node} {done : Unit}
    (required : requireSettings config nodes = .ok done) :
    ∀ node ∈ nodes, ∀ name, node.settingName? = some name → config.isDefined name := by
  induction nodes with
  | nil => simp
  | cons node rest ih =>
    rw [forall_mem_cons]
    cases node with
    | setting origin name =>
      obtain ⟨_, isSet, others⟩ := Checked.bind_ok.mp required
      refine ⟨fun _ named => ?_, ih others⟩
      obtain rfl := Option.some.inj named
      exact isDefined_of_isSet isSet
    | _ => exact ⟨nofun, ih required⟩

theorem known_of_discard {dead : Node} {counts after : FoldCounts} {done : Unit}
    (discards : (discard config dead).perform counts = (.ok done, after)) :
    dead.Throughout (IsKnown config) := by
  obtain ⟨skipped, -⟩ | ⟨-, -, nodes, walks, required⟩ := discard_ok discards
  · cases dead with
    | skip => exact throughout_iff.mpr ⟨isKnown_of_other rfl rfl, by simp [children]⟩
    | _ => cases skipped
  · obtain ⟨bare, rfl⟩ := walk_ok.mp walks
    exact fun part mem =>
      ⟨bare part mem, isDefined_of_requireSettings required part mem⟩

/-- All settings of a tree that is folded are defined, those in discarded branches as well. -/
theorem known_of_fold (tree : Node) : ∀ result, FoldsTo config tree result →
    tree.Throughout (IsKnown config) := by
  induction tree with
  | step node ih =>
    intro result folds
    have each : ∀ {results : List Node}, List.Forall₂ (FoldsTo config) node.children results →
          ∀ child ∈ node.children, child.Throughout (IsKnown config) := by
      intro results related child mem
      obtain ⟨part, -, folds⟩ := exists_left_of_forall₂ related.flip child mem
      exact ih child mem part folds
    obtain condition | ⟨_, predicate, thenCase, elseCase, rfl⟩ | ⟨_, items, rfl⟩ |
      ⟨notCondition, notConditional, single⟩ := kinds node
    · obtain ⟨value, evaluates, -⟩ := foldsTo_condition condition folds
      exact known_of_evaluate evaluates
    · obtain ⟨counts, after, folds⟩ := folds
      obtain ⟨value, middle, evaluates, discards, folds⟩ := fold_conditional_ok folds
      have decided := known_of_evaluate evaluates
      have dead := known_of_discard discards
      have live := ih _ (by cases value <;> simp [children]) _ ⟨_, _, folds⟩
      refine throughout_iff.mpr ⟨isKnown_of_other rfl rfl, ?_⟩
      cases value <;> simp_all [children]
    · obtain ⟨folded, related, -⟩ := foldsTo_sequence folds
      exact throughout_iff.mpr ⟨isKnown_of_other rfl rfl, each related⟩
    · obtain ⟨related, built⟩ := foldsTo_parts notCondition notConditional single folds
      refine throughout_iff.mpr ⟨isKnown_of_other ?_ ?_, each related⟩
      · cases node with
        | plain origin value =>
          cases value with
          | truth value => cases value with
            | true => rfl
            | false => cases built
          | _ => cases built
        | _ => rfl
      · cases node with
        | setting => cases notCondition
        | _ => rfl

end Folding

/-! ### Only unknown settings are reported -/

/-- Whether a failure reports a setting as undefined without reason: it does not stand in some nodes
where it is reported, or it is defined. -/
def Failure.IsUnfounded (config : Configuration) (nodes : List Node) (failure : Failure) :
    Prop :=
  ∃ name location construct, failure = .diagnostic ⟨.undefinedSetting name, location, construct⟩ ∧
    ¬ (config.isDefined name = false ∧
      ∃ origin, location = some origin ∧ .setting origin name ∈ nodes)

namespace Folding

variable {nodes others : List Node}

theorem founded_silent {α : Type} {outcome : Checked α} (silent : outcome.IsSilent) :
    outcome.Avoids (Failure.IsUnfounded config nodes) :=
  silent.mono fun _ ⟨_, _, _, reports, _⟩ => ⟨_, reports⟩

theorem founded_report {α : Type} {cause : Cause} {location : Option Origin}
    {construct : Option String} (other : ∀ name, cause ≠ .undefinedSetting name) :
    (report cause location construct : Checked α).Avoids (Failure.IsUnfounded config nodes) := by
  rintro _ ⟨⟩ ⟨name, _, _, reports, -⟩
  obtain ⟨rfl, -⟩ := Diagnostic.mk.inj (Failure.diagnostic.inj reports)
  exact other name rfl

theorem founded_isSet {origin : Origin} (mem : .setting origin name ∈ nodes) :
    (config.isSet name origin).Avoids (Failure.IsUnfounded config nodes) := by
  intro failure failed
  unfold Configuration.isSet at failed
  split at failed
  · cases failed
  · rename_i undefined
    cases failed
    rintro ⟨_, _, _, reports, unfounded⟩
    cases reports
    exact unfounded ⟨by simp [Configuration.isDefined, undefined], origin, rfl, mem⟩

theorem founded_evaluate (condition : Node) (inside : condition.flatten ⊆ nodes) :
    (condition.evaluate config).Avoids (Failure.IsUnfounded config nodes) := by
  induction condition with
  | step node ih =>
    have part : ∀ child ∈ node.children, (child.evaluate config).Avoids
        (Failure.IsUnfounded config nodes) := fun child mem =>
      ih child mem (List.Subset.trans (flatten_subset mem) inside)
    have refused : (node.construct >>= fun shown =>
        report .predicateNotBoolean node.origin shown : Checked Bool).Avoids
          (Failure.IsUnfounded config nodes) :=
      (founded_silent (silent_construct node)).bind fun _ => founded_report nofun
    cases node with
    | setting origin name => exact founded_isSet (inside (by simp [Node.flatten]))
    | truth => exact .pure _
    | binary origin operator left right =>
      cases operator with
      | both | either =>
        refine (part left (by simp [children])).bind fun _ => ?_
        exact (part right (by simp [children])).bind fun _ => .pure _
      | _ => exact refused
    | unary origin operator child =>
      cases operator with
      | not => exact (part child (by simp [children])).bind fun _ => .pure _
      | _ => exact refused
    | _ => exact refused

theorem founded_requireSettings {required : List Node} (inside : required ⊆ nodes) :
    (requireSettings config required).Avoids (Failure.IsUnfounded config nodes) := by
  induction required with
  | nil => exact .pure _
  | cons node rest ih =>
    obtain ⟨here, others⟩ := List.cons_subset.mp inside
    cases node with
    | setting origin name => exact (founded_isSet here).bind fun _ => ih others
    | _ => exact ih others

theorem founded_discard {dead : Node} (inside : dead.flatten ⊆ nodes) :
    (discard config dead).Avoids (Failure.IsUnfounded config nodes) := by
  unfold discard
  split
  · exact .pure _
  · refine .bind (.modify _) fun _ => ?_
    intro state failure after failed
    rcases Action.perform_bind_error.mp failed with early | ⟨walked, _, walks, late⟩
    · exact founded_silent (silent_walk dead) failure (congrArg Prod.fst early)
    · obtain ⟨-, rfl⟩ := walk_ok.mp (congrArg Prod.fst walks)
      exact founded_requireSettings inside failure (congrArg Prod.fst late)

theorem founded_rebuild {node : Node} {parts : List Node}
    (sameNumber : parts.length = node.children.length) :
    (node.rebuild parts).Avoids (Failure.IsUnfounded config nodes) := by
  intro failure failed
  cases shaped : node.shape? with
  | some shape =>
    obtain ⟨admitted, refused⟩ := decides_rebuild shaped sameNumber
    rw [failed] at admitted refused
    have notAdmitted : ¬ shape.Admits parts := fun admits => by
      obtain ⟨_, impossible, -⟩ := admitted admits
      cases impossible
    obtain ⟨_, ⟨⟩, malformed | ⟨part, -, unwritten⟩⟩ := refused notAdmitted
    · rintro ⟨_, _, _, rfl, -⟩
      obtain ⟨_, ⟨⟩, kind⟩ := malformed
      cases kind
    · exact founded_silent (silent_dump part) failure unwritten
  | none =>
    -- Without a shape only a bare value is refused, and that is a fault.
    rintro ⟨_, _, _, rfl, -⟩
    unfold rebuild at failed
    split at failed <;> first | cases failed | cases shaped

/-- Folding reports a setting as undefined only where it stands, and only if it is undefined. -/
theorem founded_fold (tree : Node) (inside : tree.flatten ⊆ nodes) :
    (fold config tree).Avoids (Failure.IsUnfounded config nodes) := by
  induction tree with
  | step node ih =>
    have part : ∀ child ∈ node.children, (fold config child).Avoids
        (Failure.IsUnfounded config nodes) := fun child mem =>
      ih child mem (List.Subset.trans (flatten_subset mem) inside)
    obtain condition | ⟨_, predicate, thenCase, elseCase, rfl⟩ | ⟨_, items, rfl⟩ |
      ⟨notCondition, notConditional, single⟩ := kinds node
    · rw [fold_of_condition condition]
      exact .bind (.lift (founded_evaluate node inside)) fun _ => .pure _
    · have below : ∀ child ∈ (Node.conditional _ predicate thenCase elseCase).children,
          child.flatten ⊆ nodes := fun child mem => List.Subset.trans (flatten_subset mem) inside
      simp only [children, forall_mem_cons] at below part
      obtain ⟨inPredicate, inThen, inElse, -⟩ := below
      rw [fold]
      refine .bind (.modify _) fun _ => ?_
      refine .bind (.lift (founded_evaluate predicate inPredicate)) fun _ => ?_
      split
      · exact .bind (founded_discard inElse) fun _ => part.2.1
      · exact .bind (founded_discard inThen) fun _ => part.2.2.1
    · rw [fold, foldItems_eq_mapM]
      exact .bind (.bind (.mapM part) fun _ => .pure _) fun _ => .pure _
    · rw [fold_eq_mapChildren notCondition notConditional single, mapChildren_eq]
      intro state failure after failed
      rcases Action.perform_bind_error.mp failed with early | ⟨parts, _, folded, late⟩
      · exact Action.Avoids.mapM part _ _ _ early
      · exact founded_rebuild (forall₂_foldsTo folded).length_eq.symm failure
          (congrArg Prod.fst late)

end Folding

/-- Unknown settings are always reported. A tree that is folded uses only settings that are defined.
A setting is reported as undefined only where it stands in the tree, and only if it is not defined.
So a tree that uses a setting that is not defined is not folded under any configuration that defines
the same settings, whatever their values are. -/
theorem undefinedSettings_reported (tree : Node) (config : Configuration) :
    (∀ result counts, tree.foldedWith config = .ok (result, counts) →
      ∃ names, tree.settingsUsed = .ok names ∧ ∀ name ∈ names, config.isDefined name) ∧
    (∀ name location construct, tree.foldedWith config =
        .error (.diagnostic ⟨.undefinedSetting name, location, construct⟩) →
      config.isDefined name = false ∧
        (∃ origin, location = some origin ∧ .setting origin name ∈ tree.flatten) ∧
        ∀ names, tree.settingsUsed = .ok names → name ∈ names) ∧
    ∀ names name, tree.settingsUsed = .ok names → name ∈ names →
      config.isDefined name = false →
      ∀ other : Configuration, (∀ name, other.isDefined name = config.isDefined name) →
        ∃ failure, tree.foldedWith other = .error failure := by
  have known : ∀ (config : Configuration) result counts,
      tree.foldedWith config = .ok (result, counts) →
        tree.Throughout (IsKnown config) := fun config result counts folds =>
    Folding.known_of_fold tree result ⟨_, _, foldedWith_ok.mp folds⟩
  refine ⟨fun result counts folds => ?_, fun name location construct fails => ?_,
    fun names name used member undefined other sameNames => ?_⟩
  · have known := known config result counts folds
    have walks := walk_ok.mpr ⟨fun part member => (known part member).1, rfl⟩
    have used : ∃ names, tree.settingsUsed = .ok names := by
      simp only [settingsUsed, Checked.bind_ok]
      exact ⟨_, tree.flatten, walks, rfl⟩
    obtain ⟨names, used⟩ := used
    refine ⟨names, used, fun name member => ?_⟩
    obtain ⟨origin, inside⟩ := ((settingsUsed_ok used).2 name).mp member
    exact (known _ inside).2 name rfl
  · have founded := Folding.founded_fold tree (List.Subset.refl _) {} _ _
      (Action.perform_of_fst (foldedWith_error.mp fails))
    obtain ⟨undefined, origin, here, inside⟩ :=
      not_not.mp fun unfounded => founded ⟨name, location, construct, rfl, unfounded⟩
    exact ⟨undefined, ⟨origin, here, inside⟩, fun names used =>
      ((settingsUsed_ok used).2 name).mpr ⟨origin, inside⟩⟩
  · obtain ⟨origin, inside⟩ := ((settingsUsed_ok used).2 name).mp member
    cases outcome : tree.foldedWith other with
    | error failure => exact ⟨failure, rfl⟩
    | ok folded =>
      have defined := (known other folded.1 folded.2 outcome _ inside).2 name rfl
      rw [sameNames, undefined] at defined
      cases defined

/-- A setting that only a dead branch names: it is reported where it stands, and once it is defined
the branch is discarded. -/
theorem undefinedSettings_reported_dead :
    let place : Origin := ⟨"unit.asm", 3, 1⟩
    let tree := Node.conditional .nowhere (.setting .nowhere "FAST") (.trap .nowhere)
      (.instruction .nowhere "move" [.setting place "SLOW"] .null)
    let config : Configuration := ⟨.arm64, [("FAST", true)], [], []⟩
    let wider : Configuration := ⟨.arm64, [("FAST", true), ("SLOW", false)], [], []⟩
    (tree.foldedWith config = .error (.diagnostic ⟨.undefinedSetting "SLOW", place, none⟩) ∧
      config.isDefined "SLOW" = false ∧
      ∃ origin, some place = some origin ∧ .setting origin "SLOW" ∈ tree.flatten) ∧
    tree.foldedWith wider = .ok (.trap .nowhere, ⟨1, 1⟩) ∧
      ∃ names, tree.settingsUsed = .ok names ∧ ∀ name ∈ names, wider.isDefined name := by
  intro place tree config wider
  have fails : tree.foldedWith config =
    .error (.diagnostic ⟨.undefinedSetting "SLOW", place, none⟩) := rfl
  have folds : tree.foldedWith wider = .ok (.trap .nowhere, ⟨1, 1⟩) := rfl
  obtain ⟨undefined, stands, -⟩ :=
    (undefinedSettings_reported tree config).2.1 _ _ _ fails
  exact ⟨⟨fails, undefined, stands⟩, folds,
    (undefinedSettings_reported tree wider).1 _ _ folds⟩

end MacroAssembler
