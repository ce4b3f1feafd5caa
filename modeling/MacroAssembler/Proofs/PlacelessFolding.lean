/-
This module proves that building and folding nodes does not look at locations.

A node is built from parts without locations as it is built from the parts, and what is reported is
of the same class. Nor does a condition depend on where it stands. So a tree without its locations
is folded to the folded tree without its locations, and either both are refused or neither.

Failures are compared by their classes. None of the steps here ever reports a layout constant
without a value, so it may also be asked that a failure is not one of these.
-/
import MacroAssembler.Proofs.FoldedForm
import MacroAssembler.Proofs.Lowering
import MacroAssembler.Proofs.PlacelessTable

namespace MacroAssembler

open List Node

variable {location otherLocation : Option Origin} {cause otherCause : Cause}

/-! ### Failures -/

/-- Whether failures of one class count as alike, unless they are about a layout constant without a
value. -/
class Tolerant (fails : Failure → Failure → Prop) : Prop where
  tolerates : ∀ failure other, failure.family = other.family → failure.isMissing = false →
    fails failure other

def Failure.SameFamily (failure other : Failure) : Prop := failure.family = other.family

instance : Tolerant Failure.SameFamily := ⟨fun _ _ same _ => same⟩

instance : Std.Refl Failure.SameFamily := ⟨fun _ => rfl⟩

abbrev Becomes {α β : Type} (change : α → β) (value : α) (other : β) : Prop := other = change value

variable {σ τ α β : Type} {fails : Failure → Failure → Prop} [Tolerant fails]

namespace Checked.Corresponds

variable {alike : α → β → Prop} {outcome : Checked α}

theorem report
    {construct otherConstruct : Option String} (sameKind : cause.kind = otherCause.kind)
    (other : cause.isMissing = false) :
    Corresponds fails alike (MacroAssembler.report cause location construct)
      (MacroAssembler.report otherCause otherLocation otherConstruct) :=
  .error (Tolerant.tolerates _ _ (congrArg Sum.inl sameKind) other)

theorem refuse {fault otherFault : Fault} (sameKind : fault.kind = otherFault.kind) :
    Corresponds fails alike (MacroAssembler.refuse fault) (MacroAssembler.refuse otherFault) :=
  .error (Tolerant.tolerates _ _ (congrArg Sum.inr sameKind) rfl)

theorem same (silent : outcome.IsSilent) : Corresponds fails Eq outcome outcome := by
  cases outcome with
  | ok value => exact .ok rfl
  | error failure =>
    exact .error (Tolerant.tolerates _ _ rfl (isMissing_of_not_isDiagnostic (silent failure rfl)))

end Checked.Corresponds

/-! ### Building nodes -/

section Building

variable {traps : Origin → Origin} (node : Node)

theorem corresponds_dump : Checked.Corresponds fails Eq node.dump node.dump :=
  .same (silent_dump node)

theorem corresponds_construct : Checked.Corresponds fails Eq node.construct node.construct :=
  .same (silent_construct node)

theorem corresponds_reportDump {alike : α → β → Prop} {cause : String → Cause}
    (sameKind : ∀ shown other, (cause shown).kind = (cause other).kind)
    (ordinary : ∀ shown, (cause shown).isMissing = false) :
    Checked.Corresponds fails alike (node.dump >>= fun shown => report (cause shown) location)
      ((node.stripped traps).dump >>= fun shown => report (cause shown) otherLocation) := by
  rw [dump_stripped]
  exact (corresponds_dump node).bind fun shown other _ => .report (sameKind _ _) (ordinary shown)

theorem corresponds_reportConstruct {alike : α → β → Prop}
    (sameKind : cause.kind = otherCause.kind) (ordinary : cause.isMissing = false) :
    Checked.Corresponds fails alike (node.construct >>= fun shown => report cause location shown)
      ((node.stripped traps).construct >>= fun shown => report otherCause otherLocation shown) := by
  rw [construct_stripped]
  exact (corresponds_construct node).bind fun _ _ _ => .report sameKind ordinary

theorem corresponds_reject {states : σ → τ → Prop} {results : α → β → Prop}
    (sameKind : cause.kind = otherCause.kind) (ordinary : cause.isMissing = false) :
    Action.Corresponds fails states results
      (liftM node.construct >>= fun shown => liftM (report cause location shown : Checked α))
      (liftM (node.stripped traps).construct >>= fun shown =>
        liftM (report otherCause otherLocation shown : Checked β)) := by
  rw [construct_stripped]
  refine .bind (.lift (corresponds_construct node)) fun _ _ _ => ?_
  exact .lift (.report sameKind ordinary)

variable {origin other : Origin}

theorem corresponds_checkBase : Checked.Corresponds fails (fun _ _ => True)
    (checkBase origin node) (checkBase other (node.stripped traps)) := by
  unfold checkBase
  rw [isVariable_stripped, isRegister_stripped]
  split
  · exact .ok trivial
  · exact corresponds_reportDump node (fun _ _ => rfl) fun _ => rfl

theorem corresponds_checkIndex : Checked.Corresponds fails (fun _ _ => True)
    (checkIndex origin node) (checkIndex other (node.stripped traps)) := by
  unfold checkIndex
  rw [isVariable_stripped, isRegister_stripped]
  split
  · exact .ok trivial
  · exact corresponds_reportDump node (fun _ _ => rfl) fun _ => rfl

theorem corresponds_checkOffset : Checked.Corresponds fails (fun _ _ => True)
    (checkOffset origin node) (checkOffset other (node.stripped traps)) := by
  unfold checkOffset
  rw [isVariable_stripped, isImmediate_stripped]
  split
  · exact .ok trivial
  · exact corresponds_reportDump node (fun _ _ => rfl) fun _ => rfl

theorem corresponds_checkScale : Checked.Corresponds fails (fun _ _ => True)
    (checkScale origin node) (checkScale other (node.stripped traps)) := by
  cases node with
  | immediate place value =>
    simp only [checkScale, stripped]
    split
    · exact .ok trivial
    · exact .report rfl rfl
  | plain place value =>
    cases value with
    | truth value => cases value with
      | true => exact .ok trivial
      | false => exact .report rfl rfl
    | _ => exact .ok trivial
  | _ => exact .ok trivial

theorem corresponds_makeAddress (base offset : Node) :
    Checked.Corresponds fails (Becomes (stripped traps)) (makeAddress origin base offset)
      (makeAddress .nowhere (base.stripped traps) (offset.stripped traps)) := by
  refine (corresponds_checkBase base).bind fun _ _ _ => ?_
  refine (corresponds_checkOffset offset).bind fun _ _ _ => ?_
  exact .ok rfl

theorem corresponds_makeIndexed (base index scale offset : Node) :
    Checked.Corresponds fails (Becomes (stripped traps))
      (makeIndexed origin base index scale offset)
      (makeIndexed .nowhere (base.stripped traps) (index.stripped traps) (scale.stripped traps)
        (offset.stripped traps)) := by
  refine (corresponds_checkBase base).bind fun _ _ _ => ?_
  refine (corresponds_checkIndex index).bind fun _ _ _ => ?_
  refine (corresponds_checkOffset offset).bind fun _ _ _ => ?_
  refine (corresponds_checkScale scale).bind fun _ _ _ => ?_
  exact .ok rfl

theorem corresponds_makeCall (name : String) (operands : List Node) (comment writtenName : Value) :
    Checked.Corresponds fails (Becomes (stripped traps))
      (makeCall origin name operands comment writtenName)
      (makeCall .nowhere name (operands.map (stripped traps)) comment writtenName) := by
  cases operands with
  | nil => exact .report rfl rfl
  | cons first rest => exact .ok (by simp [Becomes, stripped])

theorem corresponds_makeConstant (declared value : Node) :
    Checked.Corresponds fails (Becomes (stripped traps)) (makeConstant origin declared value)
      (makeConstant .nowhere (declared.stripped traps) (value.stripped traps)) := by
  cases declared with
  | var binding => exact .ok rfl
  | _ => exact corresponds_reportDump _ (fun _ _ => rfl) fun _ => rfl

theorem corresponds_makeLabelReference (target : Node) (offset : Int) :
    Checked.Corresponds fails (Becomes (stripped traps)) (makeLabelReference origin target offset)
      (makeLabelReference .nowhere (target.stripped traps) offset) := by
  cases target with
  | label mark => exact .ok rfl
  | _ => exact corresponds_reportDump _ (fun _ _ => rfl) fun _ => rfl

theorem corresponds_makeLocalReference (target : Node) :
    Checked.Corresponds fails (Becomes (stripped traps)) (makeLocalReference origin target)
      (makeLocalReference .nowhere (target.stripped traps)) := by
  cases target with
  | localLabel mark => exact .ok rfl
  | _ => exact corresponds_reportDump _ (fun _ _ => rfl) fun _ => rfl

theorem corresponds_rebuild {parts : List Node} (sameNumber : parts.length = node.children.length) :
    Checked.Corresponds fails (Becomes (stripped traps)) (node.rebuild parts)
      ((node.stripped traps).rebuild (parts.map (stripped traps))) := by
  cases node with
  | address =>
    match parts, sameNumber with
    | [base, offset], _ => exact corresponds_makeAddress base offset
  | indexed =>
    match parts, sameNumber with
    | [base, index, scale, offset], _ => exact corresponds_makeIndexed base index scale offset
  | absolute | unary =>
    match parts, sameNumber with
    | [part], _ => exact .ok rfl
  | binary =>
    match parts, sameNumber with
    | [left, right], _ => exact .ok rfl
  | conditional =>
    match parts, sameNumber with
    | [predicate, thenCase, elseCase], _ => exact .ok rfl
  | labelReference =>
    match parts, sameNumber with
    | [target], _ => exact corresponds_makeLabelReference target _
  | localReference =>
    match parts, sameNumber with
    | [target], _ => exact corresponds_makeLocalReference target
  | constant =>
    match parts, sameNumber with
    | [declared, value], _ => exact corresponds_makeConstant declared value
  | instruction | sequence => exact .ok (by simp [Becomes, stripped])
  | call => exact corresponds_makeCall _ parts _ _
  | definition origin name parameters body =>
    have nonempty : parts ≠ [] := by
      rintro rfl
      simp [children] at sameNumber
    refine .ok ?_
    simp [Becomes, stripped, List.getLastD_eq_getLast?, List.getLast?_eq_some_getLast nonempty,
      List.map_dropLast]
  | plain origin value =>
    cases value with
    | truth value => cases value with
      | true => exact .ok rfl
      | false => exact .refuse rfl
    | _ => exact .refuse rfl
  | _ => exact .ok rfl

end Building

theorem rebuild_unlocated {node result : Node} {parts : List Node}
    (built : node.rebuild parts = .ok result) (sameNumber : parts.length = node.children.length) :
    node.unlocated.rebuild (parts.map unlocated) = .ok result.unlocated := by
  have same : parts.map unlocated = parts.map (stripped id) :=
    map_congr_left fun part _ => unlocated_eq part
  have corresponds :=
    @corresponds_rebuild Failure.SameFamily inferInstance id node parts sameNumber
  rw [built] at corresponds
  rw [same, unlocated_eq, unlocated_eq]
  generalize (node.stripped id).rebuild (parts.map (stripped id)) = other at corresponds
  cases corresponds with
  | ok related => rw [related]

theorem corresponds_mapChildren {traps : Origin → Origin} {states : σ → τ → Prop}
    {replace : Node → Action σ Node} {otherReplace : Node → Action τ Node} {node : Node}
    (each : ∀ child ∈ node.children, Action.Corresponds fails states (Becomes (stripped traps))
      (replace child) (otherReplace (child.stripped traps))) :
    Action.Corresponds fails states (Becomes (stripped traps)) (node.mapChildren replace)
      ((node.stripped traps).mapChildren otherReplace) := by
  rw [mapChildren_eq, mapChildren_eq, children_stripped]
  refine (Action.Corresponds.mapM_becomes each).bind ?_
  rintro parts _ ⟨rfl, sameNumber⟩
  exact .lift (corresponds_rebuild node sameNumber)

/-! ### Folding -/

namespace Folding

variable {config : Configuration}

theorem corresponds_isSet (name : String) (origin other : Option Origin) :
    Checked.Corresponds fails Eq (config.isSet name origin) (config.isSet name other) := by
  unfold Configuration.isSet
  split
  · exact .ok rfl
  · exact .report rfl rfl

theorem corresponds_evaluate (node : Node) : Checked.Corresponds fails Eq (node.evaluate config)
      (node.placeless.evaluate config) := by
  induction node with
  | step node ih =>
    cases node with
    | setting origin name => exact corresponds_isSet name _ _
    | truth value => exact .ok rfl
    | binary origin operator left right =>
      simp only [children, forall_mem_cons] at ih
      cases operator with
      | both | either =>
        refine ih.1.bind_eq fun value => ?_
        exact ih.2.1.bind_eq fun _ => .ok rfl
      | _ => exact corresponds_reportConstruct _ rfl rfl
    | unary origin operator child =>
      simp only [children, forall_mem_cons] at ih
      cases operator with
      | not =>
        exact ih.1.bind_eq fun _ => .ok rfl
      | _ => exact corresponds_reportConstruct _ rfl rfl
    | _ => exact corresponds_reportConstruct _ rfl rfl

theorem corresponds_requireSettings (nodes : List Node) :
    Checked.Corresponds fails (fun _ _ => True) (requireSettings config nodes)
      (requireSettings config (nodes.map placeless)) := by
  induction nodes with
  | nil => exact .ok trivial
  | cons node rest ih =>
    cases node with
    | setting origin name =>
      exact (corresponds_isSet name _ _).bind fun _ _ _ => ih
    | _ => exact ih

theorem corresponds_walk (node : Node) :
    Checked.Corresponds fails (Becomes (List.map placeless)) node.walk node.placeless.walk := by
  unfold walk
  rw [flatten_stripped, find?_map]
  simp only [Function.comp_def, isOpaque_stripped]
  cases node.flatten.find? fun part => part.isOpaque with
  | none => exact .ok rfl
  | some found => exact .refuse rfl

theorem corresponds_discard (dead : Node) :
    Action.Corresponds fails Eq (fun _ _ => True) (discard config dead)
      (discard config dead.placeless) := by
  unfold discard
  rw [isSkip_stripped]
  split
  · exact .pure trivial
  · refine .bind (.modify ?_) fun _ _ _ => ?_
    · rintro counts _ rfl
      rfl
    · refine (Action.Corresponds.lift (corresponds_walk dead)).bind ?_
      rintro nodes _ rfl
      exact .lift (corresponds_requireSettings nodes)

theorem corresponds_foldCondition (condition : Node) :
    Action.Corresponds fails Eq (Becomes placeless) (foldCondition config condition)
      (foldCondition config condition.placeless) := by
  refine (Action.Corresponds.lift (corresponds_evaluate condition)).bind_eq fun value => ?_
  rw [origin_placeless]
  exact .pure rfl

theorem foldr_splice_placeless (items : List Node) :
    (items.map placeless).foldr splice [] = (items.foldr splice []).map placeless := by
  induction items with
  | nil => rfl
  | cons item rest ih =>
    rw [map_cons, foldr_cons, foldr_cons, ih]
    cases item <;> simp [splice, stripped]

/-- A tree without its locations is folded to the folded tree without its locations. -/
theorem corresponds_fold (node : Node) :
    Action.Corresponds fails Eq (Becomes placeless) (fold config node)
      (fold config node.placeless) := by
  induction node with
  | step node ih =>
    have same := @sameClasses_stripped (fun _ => .nowhere) node
    obtain condition | ⟨_, predicate, thenCase, elseCase, rfl⟩ | ⟨_, items, rfl⟩ |
      ⟨notCondition, notConditional, single⟩ := kinds node
    · rw [fold_of_condition condition, fold_of_condition (same.condition.trans condition)]
      exact corresponds_foldCondition node
    · simp only [children, forall_mem_cons] at ih
      obtain ⟨-, first, second, -⟩ := ih
      simp only [fold, stripped]
      refine .bind (.modify ?_) fun _ _ _ => ?_
      · rintro counts _ rfl
        rfl
      refine (Action.Corresponds.lift (corresponds_evaluate predicate)).bind_eq fun value => ?_
      split
      · exact (corresponds_discard elseCase).bind fun _ _ _ => first
      · exact (corresponds_discard thenCase).bind fun _ _ _ => second
    · simp only [fold, foldItems_eq_mapM, stripped, strippedAll_eq_map, bind_assoc, pure_bind]
      refine (Action.Corresponds.mapM_becomes ih).bind ?_
      rintro folded _ ⟨rfl, -⟩
      exact .pure (by simp [Becomes, stripped, foldr_splice_placeless])
    · rw [fold_eq_mapChildren notCondition notConditional single,
        fold_eq_mapChildren (same.condition.trans notCondition)
          (same.conditional.trans notConditional) (same.sequence.trans single)]
      exact corresponds_mapChildren ih

end Folding

end MacroAssembler
