/-
This module proves that a macro invocation means the body of the macro with the operands in the place
of the parameters.

The invocation and the instance of the body are expanded side by side. Wherever the one run is inside
the body, or inside a macro that the body passes on, the other one is inside the instance of it, and
wherever the one run is inside another macro of the unit, so is the other one. Names are looked up in
scopes that mirror each other. So the two runs fail together, and otherwise come to the same
statements and to the same symbol table. Only where a branch of a conditional is nothing but a
parameter do they differ: the sequence that is made of the branch shows the location of the parameter
in the one run and that of the operand in the other.
-/
import MacroAssembler.Proofs.InstantiatedScopes

namespace MacroAssembler

open Action Expander List Node

variable {given : Assignment} {hidden : List LocalLabel} {state other : Expander}

/-! ### Invocations -/

variable {invocation : Invocation} {definition : Definition} {name : String}

namespace Expander

/-- Whether one invocation is another one with operands in the place of names. -/
structure Invocation.Mirrors (given : Assignment) (hidden : List LocalLabel)
    (invocation other : Invocation) : Prop where
  name : other.name = invocation.name
  shown : other.shown = invocation.shown
  operands : other.operands = invocation.operands.map (instantiate given)
  admitted : ∀ operand ∈ invocation.operands, operand.admits given hidden

theorem relates_calleeOf_mirrors {other : Invocation}
    (invocations : invocation.Mirrors given hidden other) : Imitates given hidden
      (fun callee otherCallee =>
        Bound.Mirrors (.closure callee.1 callee.2) (.closure otherCallee.1 otherCallee.2) ∧
          invocation.operands.length = callee.1.parameters.length)
      (calleeOf invocation) (calleeOf other) := by
  refine .get fun state otherState mirrors => ?_
  have callees := mirrors.callee? invocation.name
  rw [invocations.name]
  generalize state.callee? invocation.name = found at callees
  generalize otherState.callee? invocation.name = otherFound at callees
  cases callees with
  | none =>
    exact .lift (.bothFail (fun _ => refuseInvocation_ne_ok _) fun _ => refuseInvocation_ne_ok _)
  | @some callee otherCallee callees =>
    obtain ⟨definition, captured⟩ := callee
    obtain ⟨otherDefinition, otherCaptured⟩ := otherCallee
    have sameParameters : otherDefinition.parameters = definition.parameters := by
      cases callees
      rfl
    dsimp only
    rw [invocations.operands, length_map, sameParameters]
    split
    · rename_i arity
      exact .pure ⟨callees, arity⟩
    · refine .bothFail ?_ ?_ <;> simp [perform_bind_ok, report]

theorem relates_evaluateOperand_mirrors {node : Node} (admitted : node.admits given hidden) :
    Imitates given hidden Bound.Mirrors (evaluateOperand node)
      (evaluateOperand (node.instantiate given)) := by
  by_cases ordinary : node.isVariable = false ∧ node.isDefinition = false
  · obtain ⟨notVariable, notDefinition⟩ := ordinary
    have otherKind : (node.instantiate given).isVariable = false ∧
        (node.instantiate given).isDefinition = false := by
      cases node <;> first | exact ⟨rfl, rfl⟩ | contradiction
    rw [evaluateOperand_eq notVariable notDefinition, evaluateOperand_eq otherKind.1 otherKind.2]
    exact (relates_substitute_mirrors node admitted).bind_eq fun result => .pure (.operand result)
  · cases node with
    | var binding =>
      rw [instantiate]
      cases found : given binding.name with
      | none =>
        refine .get fun state other mirrors => ?_
        have meaning := mirrors.meaning? found
        generalize state.meaning? binding.name = bound at meaning
        generalize other.meaning? binding.name = otherBound at meaning
        cases meaning with
        | none => exact .pure (.operand _)
        | some meaning => exact .pure meaning
      | some operand =>
        intro state other mirrors
        obtain ⟨ground, -, -⟩ := mirrors.frames.replaced found
        have settled := mirrors.substitute_given found (unhidden_of_admits admitted found)
        rw [Option.getD_some, evaluateOperand_eq ground.closed.here.1 ground.isDefinition,
          perform_bind, settled, evaluateOperand, perform_bind, perform_get]
        dsimp only
        rw [mirrors.meaning?_given found, Option.getD_some]
        exact .ok ⟨.operand operand, mirrors⟩
    | definition origin name parameters body =>
      refine .get fun state other mirrors => ?_
      let definition : Definition := ⟨origin, name, parameters, body⟩
      have mirrored : Bound.Mirrors (.closure definition state.frame)
          (.closure (definition.instantiate given) other.frame) := .closure admitted mirrors.frames
      exact .pure mirrored
    | _ => exact absurd ⟨rfl, rfl⟩ ordinary

variable {arguments : List Bound}

theorem bindParameters_matches (table : SymbolTable) (parameters : List Node)
    {others : List Bound} (sameNumber : arguments.length = others.length) :
    Checked.Corresponds Failure.Any (fun _ _ => True) (bindParameters table (parameters.zip arguments))
      (bindParameters table (parameters.zip others)) := by
  induction parameters generalizing arguments others with
  | nil => exact .ok trivial
  | cons parameter rest ih =>
    match arguments, others, sameNumber with
    | [], [], _ => exact .ok trivial
    | argument :: arguments, other :: others, sameNumber =>
      rw [zip_cons_cons, zip_cons_cons, bindParameters, bindParameters]
      refine .bind_eq (.refl _) fun name => ?_
      refine (ih (Nat.succ.inj sameNumber)).bind fun bindings otherBindings _ => ?_
      cases name with
      | none => exact .ok trivial
      | some name =>
        dsimp only
        split <;> split <;> exact .ok trivial

/-- Labels are renamed in the same way in both runs, and only those of the body are. -/
theorem relates_renameLabels_mirrors (name : String) (renamed : List (Name × LocalLabel))
    {marks known : List LocalLabel} (within : marks ⊆ known)
    (renamedWithin : ∀ entry ∈ renamed, ∃ mark ∈ known, mark.name = entry.1) : Imitates given hidden
      (fun labels otherLabels => otherLabels = labels ∧
        ∀ entry ∈ labels, ∃ mark ∈ known, mark.name = entry.1)
      (renameLabels name renamed marks) (renameLabels name renamed marks) := by
  induction marks generalizing renamed with
  | nil => exact .pure ⟨rfl, renamedWithin⟩
  | cons mark rest ih =>
    obtain ⟨markWithin, restWithin⟩ := List.cons_subset.mp within
    rw [renameLabels]
    split
    · exact ih renamed restWithin renamedWithin
    · refine .bind_eq (.lift (.refl _)) fun clean => ?_
      refine (relates_onTable_mirrors _).bind_eq fun fresh => ?_
      refine ih _ restWithin fun entry mem => ?_
      rcases mem_append.mp mem with old | new
      · exact renamedWithin entry old
      · rw [mem_singleton.mp new]
        exact ⟨mark, markWithin, rfl⟩

theorem isSome_argument?_eq {parameters : List Node} (name : String)
    (sameNumber : parameters.length = arguments.length) :
    (argument? (parameters.zip arguments) name).isSome =
      parameters.any fun parameter => decide (boundName? parameter = some name) := by
  rw [Bool.eq_iff_iff, any_eq_true]
  constructor
  · intro found
    obtain ⟨bound, found⟩ := Option.isSome_iff_exists.mp found
    obtain ⟨parameter, mem, named⟩ := argument?_mem found
    exact ⟨parameter, (of_mem_zip mem).1, decide_eq_true named⟩
  · rintro ⟨parameter, mem, named⟩
    exact isSome_argument? sameNumber mem (of_decide_eq_true named)

/-- A macro and its instance open scopes that mirror each other, in front of scopes that do. -/
theorem relates_openScope_mirrors {outer : Assignment} {outerHidden : List LocalLabel}
    {captured otherCaptured : Frame} {other : Invocation}
    (frames : Frame.Mirrors outer outerHidden captured otherCaptured)
    (invocations : invocation.Mirrors given hidden other)
    (arity : invocation.operands.length = definition.parameters.length) : Imitates given hidden
      (fun scope otherScope => Frame.Mirrors (outer.without definition.parameters)
        (outerHidden ++ definition.body.localLabels) (scope :: captured)
        (otherScope :: otherCaptured))
      (openScope definition invocation) (openScope (definition.instantiate outer) other) := by
  have sameLabels : (definition.instantiate outer).body.localLabels = definition.body.localLabels :=
    localLabels_instantiate (fun name operand found =>
      (frames.replaced (Assignment.without_eq_some found)).1.operand) _
  have sameName : (definition.instantiate outer).nameOr other.shown =
      definition.nameOr invocation.shown := by
    rw [invocations.shown]
    rfl
  unfold openScope
  rw [invocations.operands, sameLabels, sameName]
  refine (Action.Corresponds.mapM_map fun operand mem =>
    relates_evaluateOperand_mirrors (invocations.admitted operand mem)).bind ?_
  rintro arguments others ⟨related, number⟩
  refine .get fun state otherState mirrors => ?_
  rw [mirrors.table]
  have bound := (bindParameters_matches state.table definition.parameters related.length_eq).known
  refine (Action.Corresponds.lift bound).bind ?_
  rintro bindings otherBindings ⟨-, bound, otherBound⟩
  refine (relates_renameLabels_mirrors _ [] (List.Subset.refl definition.body.localLabels)
    (forall_mem_nil _)).bind ?_
  rintro labels _ ⟨rfl, within⟩
  refine .pure (.scope rfl ?_ (subset_append_left _ _) ?_ ?_ frames)
  · intro name renamed
    obtain ⟨entry, mem, same⟩ := Frame.isSome_labelIn?.mp renamed
    obtain ⟨mark, markMem, named⟩ := within entry mem
    exact ⟨mark, mem_append_right _ markMem, by rw [named, same]⟩
  · intro name
    rw [get?_bindParameters bound, isSome_argument?_eq name (arity.symm.trans number.symm)]
    rfl
  · intro name
    rw [get?_bindParameters bound, get?_bindParameters otherBound]
    exact argument?_related related name _

/-! ### Statements -/

end Expander

/-- Whether two expanded statements are the same, up to the locations that the branches of
conditionals show. -/
inductive SameStatement : Node → Node → Prop
  | same (node : Node) : SameStatement node node
  | conditional (origin thenOrigin elseOrigin otherThenOrigin otherElseOrigin : Origin)
      (predicate : Node) {thenItems elseItems otherThen otherElse : List Node}
      (thenAlike : List.Forall₂ SameStatement thenItems otherThen)
      (elseAlike : List.Forall₂ SameStatement elseItems otherElse) :
      SameStatement (.conditional origin predicate (.sequence thenOrigin thenItems)
          (.sequence elseOrigin elseItems))
        (.conditional origin predicate (.sequence otherThenOrigin otherThen)
          (.sequence otherElseOrigin otherElse))

theorem sameStatement_single (node : Node) : List.Forall₂ SameStatement [node] [node] :=
  .cons (.same node) .nil

namespace Expander

theorem Mirrors.withBinding (mirrors : state.Mirrors given hidden other)
    (free : given name = none) (node : Node) :
    (state.withBinding name (.operand node)).Mirrors given hidden
      (other.withBinding name (.operand node)) := by
  have set : ∀ (bindings others : List (String × Bound)) (key : String),
      (key ≠ name → Option.Rel Bound.Mirrors (Association.get? bindings key)
        (Association.get? others key)) →
      Option.Rel Bound.Mirrors
        (Association.get? (Association.set bindings name (.operand node)) key)
        (Association.get? (Association.set others name (.operand node)) key) := by
    intro bindings others key related
    rw [Association.get?_set, Association.get?_set]
    split
    · exact .some (.operand node)
    · rename_i different
      exact related fun same => different same.symm
  obtain ⟨table, macros, constants, root, ofUnit, frames⟩ := mirrors
  obtain ⟨_, _, _, _, ownRoot, frame, _⟩ := state
  obtain ⟨_, _, _, _, otherRoot, otherFrame, _⟩ := other
  cases frames with
  | unit =>
    obtain rfl : otherRoot = ownRoot := root
    refine ⟨table, macros, constants, rfl, ⟨ofUnit.unlabelled, fun key bound found => ?_⟩, .unit⟩
    change Association.get? (Association.set otherRoot.bindings name (.operand node)) key =
      some bound at found
    rw [Association.get?_set] at found
    split at found
    · exact ⟨node, (Option.some.inj found).symm⟩
    · exact ofUnit.constants key bound found
  | parameters unlabelled otherUnlabelled replaced bindings =>
    refine ⟨table, macros, constants, root, ofUnit, .parameters unlabelled otherUnlabelled ?_ ?_⟩
    · intro key operand found
      have different : name ≠ key := by
        rintro rfl
        rw [free] at found
        cases found
      rw [Association.get?_set, Association.get?_set, if_neg different, if_neg different]
      exact replaced key operand found
    · exact fun key missing => set _ _ key fun _ => bindings key missing
  | scope labels renames wider shadows bindings frames =>
    refine ⟨table, macros, constants, root, ofUnit, .scope labels renames wider ?_ ?_ frames⟩
    · intro key
      rw [Association.get?_set]
      split
      · rename_i same
        rw [← same, free]
        rfl
      · exact shadows key
    · exact fun key => set _ _ key fun _ => bindings key

theorem relates_bind_mirrors (free : given name = none) (node : Node) :
    Imitates given hidden (fun _ _ => True) (bind name (.operand node))
      (bind name (.operand node)) :=
  fun _ _ mirrors => .ok ⟨trivial, mirrors.withBinding free node⟩

theorem relates_expandLabel_mirrors {mark : Label} (free : mark.isFree given) :
    Imitates given hidden Eq (expandLabel mark) (expandLabel mark) := by
  unfold expandLabel
  split
  · refine .get fun state other mirrors => ?_
    rw [interpolate_mirrors mirrors free]
    refine .bind_eq (.lift (.refl _)) fun name => ?_
    exact (relates_onTable_mirrors _).bind_eq fun _ => .pure rfl
  · exact .pure rfl

section Statements

variable {invoke otherInvoke : Invocation → Expand (List Node)}

theorem relates_expandItems_mirrors {items : List Node}
    (each : ∀ item ∈ items, Imitates given hidden
      (List.Forall₂ SameStatement) (expandNode invoke item)
      (expandNode otherInvoke (item.instantiate given))) :
    Imitates given hidden (List.Forall₂ SameStatement)
      (expandItems invoke items) (expandItems otherInvoke (instantiateAll given items)) := by
  induction items with
  | nil => exact .pure .nil
  | cons item rest ih =>
    obtain ⟨first, others⟩ := forall_mem_cons.mp each
    rw [expandItems, instantiateAll, expandItems]
    refine first.bind fun _ _ alikeFirst => ?_
    exact (ih others).bind fun _ _ alikeRest =>
      .pure (rel_append alikeFirst alikeRest)

theorem relates_expandNode_mirrors
    (invokes : ∀ invocation other, invocation.Mirrors given hidden other →
      Imitates given hidden (List.Forall₂ SameStatement) (invoke invocation) (otherInvoke other))
    (node : Node) : node.admits given hidden → Imitates given hidden (List.Forall₂ SameStatement)
        (expandNode invoke node) (expandNode otherInvoke (node.instantiate given)) := by
  induction node with
  | step node ih =>
    intro admitted
    by_cases isOperand : node.isOperand
    · have resolved : Imitates given hidden (List.Forall₂ SameStatement)
          (substitute node >>= fun result => pure [result])
          (substitute (node.instantiate given) >>= fun result => pure [result]) := by
        refine (relates_substitute_mirrors node admitted).bind_eq fun result => ?_
        exact .pure (sameStatement_single result)
      intro state other mirrors
      have otherOperand := mirrors.frames.isOperand_instantiate isOperand
      rw [expandNode_eq_substitute isOperand, expandNode_eq_substitute otherOperand]
      exact resolved state other mirrors
    cases node with
    | sequence origin items =>
      rw [instantiate, expandNode, expandNode]
      exact relates_expandItems_mirrors fun item mem =>
        ih item mem (admits_children admitted rfl mem)
    | call origin name operands comment writtenName =>
      rw [instantiate, expandNode, expandNode]
      exact invokes _ _ ⟨rfl, rfl, instantiateAll_eq_map given operands,
        fun operand mem => admits_children admitted rfl mem⟩
    | instruction origin opcode operands comment =>
      rw [instantiate, expandNode, expandNode]
      refine .get fun state other mirrors => ?_
      have sameKind : (other.callee? opcode).isSome = (state.callee? opcode).isSome := by
        have callee := mirrors.callee? opcode
        generalize state.callee? opcode = found at callee
        generalize other.callee? opcode = otherFound at callee
        cases callee <;> rfl
      rw [sameKind]
      split
      · exact invokes _ _ ⟨rfl, rfl, instantiateAll_eq_map given operands,
          fun operand mem => admits_children admitted rfl mem⟩
      · rw [substituteAll_eq_mapM, substituteAll_eq_mapM, instantiateAll_eq_map]
        refine (Action.Corresponds.mapM_map fun operand mem => relates_substitute_mirrors operand
          (admits_children admitted rfl mem)).bind ?_
        rintro results others ⟨same, -⟩
        obtain rfl : results = others := forall₂_eq_eq_eq ▸ same
        exact .pure (sameStatement_single _)
    | label mark =>
      simp only [instantiate, expandNode]
      exact (relates_expandLabel_mirrors admitted).bind_eq fun _ => .pure (sameStatement_single _)
    | localLabel mark =>
      simp only [instantiate, expandNode]
      refine .get fun state other mirrors => ?_
      rw [mirrors.renamed?]
      exact .pure (sameStatement_single _)
    | constant origin binding value =>
      have mem : value ∈ (Node.constant origin binding value).children := by simp [children]
      have free : given binding.name = none := by
        simp only [admits, Bool.and_eq_true, Option.isNone_iff_eq_none] at admitted
        exact admitted.1
      rw [instantiate, expandNode, expandNode]
      refine (relates_substitute_mirrors value (admits_children admitted rfl mem)).bind ?_
      rintro result _ rfl
      refine (relates_bind_mirrors free result).bind fun _ _ _ => ?_
      exact .pure (sameStatement_single _)
    | definition origin name parameters body =>
      rw [instantiate, expandNode, expandNode]
      refine .get fun state other mirrors => ?_
      rw [mirrors.frames.isEmpty_eq]
      split
      · exact .pure .nil
      · refine .bothFail ?_ ?_ <;> simp [perform_bind_ok, report]
    | conditional origin predicate thenCase elseCase =>
      have samePredicate : predicate.instantiate given = predicate := by
        refine instantiate_eq_self predicate given fun part mem => ?_
        simp only [admits, Bool.and_eq_true, Bool.not_eq_true', any_eq_false] at admitted
        simpa using admitted.1.1.1 part mem
      rw [instantiate, expandNode, expandNode, samePredicate]
      refine (ih thenCase (by simp [children])
        (admits_children admitted rfl (by simp [children]))).bind fun _ _ thenAlike => ?_
      refine (ih elseCase (by simp [children])
        (admits_children admitted rfl (by simp [children]))).bind fun _ _ elseAlike => ?_
      exact .pure (.cons (.conditional _ _ _ _ _ _ thenAlike elseAlike) .nil)
    | skip origin => exact .pure .nil
    | trap origin => exact .pure (sameStatement_single _)
    | _ => exact absurd rfl isOperand

end Statements

theorem relates_inFrame_mirrors {α β : Type} {alike : α → β → Prop} {inner : Assignment}
    {innerHidden : List LocalLabel} {frame otherFrame : Frame} {step : Expand α}
    {otherStep : Expand β} (frames : Frame.Mirrors inner innerHidden frame otherFrame)
    (steps : Imitates inner innerHidden alike step otherStep) :
    Imitates given hidden alike (inFrame frame step) (inFrame otherFrame otherStep) := by
  intro state other mirrors
  have matched := steps { state with frame := frame } { other with frame := otherFrame }
    ⟨mirrors.table, mirrors.macros, mirrors.constants, mirrors.root, mirrors.ofUnit, frames⟩
  rw [perform_inFrame, perform_inFrame]
  generalize step.perform { state with frame := frame } = run at matched
  generalize otherStep.perform { other with frame := otherFrame } = otherRun at matched
  obtain ⟨outcome, inside⟩ := run
  obtain ⟨otherOutcome, otherInside⟩ := otherRun
  cases matched with
  | ok kept =>
    obtain ⟨related, left⟩ := kept
    exact .ok ⟨related, left.table, left.macros, left.constants, left.root, left.ofUnit,
      mirrors.frames⟩
  | error => exact .error trivial

theorem relates_invoke_mirrors (limit : Int) (depth : Nat) : ∀ given hidden invocation other,
    Invocation.Mirrors given hidden invocation other →
      Imitates given hidden (List.Forall₂ SameStatement)
        (invoke limit depth invocation) (invoke limit depth other) := by
  induction depth with
  | zero =>
    intro given hidden invocation other invocations
    refine (relates_calleeOf_mirrors invocations).bind fun _ _ _ => ?_
    refine .bothFail ?_ ?_ <;> simp [perform_bind_ok, report]
  | succ depth ih =>
    intro given hidden invocation other invocations
    refine (relates_calleeOf_mirrors invocations).bind ?_
    rintro ⟨definition, captured⟩ ⟨otherDefinition, otherCaptured⟩ ⟨callees, arity⟩
    cases callees with
    | closure admitted frames =>
      refine (relates_openScope_mirrors frames invocations arity).bind
        fun scope otherScope opened => ?_
      have counts : Imitates given hidden (fun _ _ => True)
          (countExpansion invocation) (countExpansion other) :=
        fun _ _ mirrors => .ok ⟨trivial, mirrors.ofRest mirrors.table rfl rfl⟩
      refine counts.bind fun _ _ _ => relates_inFrame_mirrors opened ?_
      exact relates_expandNode_mirrors (ih _ _) _ admitted

/-! ### The meaning of an invocation -/

structure IsOutside (state : Expander) : Prop where
  frame : state.frame = []
  root : state.root.IsOfUnit

theorem isOutside_start (table : SymbolTable) : IsOutside { table := table } :=
  ⟨rfl, rfl, fun _ _ bound => nomatch bound⟩

theorem IsOutside.kept {limit : Int} {levels : Nat} {node : Node} {results : List Node}
    {after : Expander} (outside : state.IsOutside)
    (expanded : (expandNode (invoke limit levels) node).perform state = (.ok results, after)) :
    after.IsOutside := by
  -- The run is compared with itself, with nothing to replace.
  have initially : state.Mirrors .empty [] state := by
    refine ⟨rfl, rfl, rfl, rfl, outside.root, ?_⟩
    rw [outside.frame]
    exact .unit
  have related := relates_expandNode_mirrors (relates_invoke_mirrors limit levels _ _) node
    (admits_empty node [])
  rw [instantiate_empty] at related
  obtain ⟨_, _, again, -, mirrors⟩ := related.follows initially expanded
  rw [expanded] at again
  cases again
  obtain ⟨_, expands⟩ := expandNode_ok (invoke_ok limit levels) node _ _ _ expanded
  exact ⟨expands.binds.frame_eq_nil.mpr outside.frame, mirrors.ofUnit⟩

end Expander

def Assignment.ofParameters (parameters operands : List Node) : Assignment :=
  argument? (parameters.zip operands)

inductive Node.Invokes (name : String) (operands : List Node) : Node → Prop
  | call (origin : Origin) (comment writtenName : Value) :
      Node.Invokes name operands (.call origin name operands comment writtenName)
  | instruction (origin : Origin) (comment : Value) :
      Node.Invokes name operands (.instruction origin name operands comment)

namespace Expander

theorem expandNode_invokes {invoke : Invocation → Expand (List Node)} {stmt : Node}
    {operands : List Node} (invokes : stmt.Invokes name operands)
    (known : (state.callee? name).isSome) : ∃ shown, (expandNode invoke stmt).perform state =
      (invoke ⟨name, shown, operands, stmt⟩).perform state := by
  cases invokes with
  | call origin comment writtenName => exact ⟨_, rfl⟩
  | instruction origin comment =>
    refine ⟨.text name, ?_⟩
    rw [expandNode, perform_bind, perform_get]
    dsimp only
    rw [if_pos known]

theorem IsOutside.callee? (outside : state.IsOutside)
    (known : state.findMacro? (.text name) = some definition) :
    state.callee? name = some (definition, []) := by
  unfold Expander.callee?
  rw [binding?_eq, outside.frame, known]
  cases bound : Association.get? state.root.bindings name with
  | none => rfl
  | some value =>
    obtain ⟨node, rfl⟩ := outside.root.constants name value bound
    rfl

theorem IsOutside.evaluateOperand (outside : state.IsOutside) {operand : Node}
    (ground : operand.IsGround) :
    (Expander.evaluateOperand operand).perform state = (.ok (.operand operand), state) := by
  have unrenamed : ∀ name, state.renamed? name = none := by
    intro name
    rw [renamed?_eq, outside.frame, outside.root.unlabelled]
    rfl
  have settled : (substitute operand).perform state = (.ok operand, state) :=
    substitute_ground operand fun part mem =>
      ⟨isExpression_iff.mp ground.expression part mem, ground.rules part mem,
        ground.closed part mem, fun _ mark _ => unrenamed mark.name⟩
  rw [evaluateOperand_eq ground.closed.here.1 ground.isDefinition, perform_bind, settled]
  rfl

theorem exists_bindParameters (table : SymbolTable) {pairs : List (Node × Bound)}
    (named : ∀ pair ∈ pairs, pair.1.isVariable) :
    ∃ bindings, bindParameters table pairs = .ok bindings := by
  induction pairs with
  | nil => exact ⟨[], rfl⟩
  | cons pair rest ih =>
    obtain ⟨parameter, argument⟩ := pair
    obtain ⟨isVariable, restNamed⟩ := forall_mem_cons.mp named
    obtain ⟨bindings, bound⟩ := ih restNamed
    cases parameter with
    | var binding =>
      have ownName : parameterName table (.var binding) = .ok (some binding.name) := rfl
      have decided : bindParameters table ((.var binding, argument) :: rest) =
          if Association.holds bindings binding.name then .ok bindings
          else .ok ((binding.name, argument) :: bindings) := by
        rw [bindParameters, ownName, bound]
        rfl
      rw [decided]
      split <;> exact ⟨_, rfl⟩
    | _ => cases isVariable

theorem IsOutside.openScope (outside : state.IsOutside)
    (named : ∀ parameter ∈ definition.parameters, parameter.isVariable)
    (ground : ∀ operand ∈ invocation.operands, operand.IsGround)
    (unlabelled : definition.body.localLabels = []) :
    ∃ scope : Scope Bound, (Expander.openScope definition invocation).perform state =
        (.ok scope, state) ∧ scope.labels = [] ∧ ∀ name, Association.get? scope.bindings name =
        (Assignment.ofParameters definition.parameters invocation.operands name).map .operand := by
  have pairsNamed : ∀ pair ∈ definition.parameters.zip (invocation.operands.map Bound.operand),
      pair.1.isVariable := fun pair mem => named pair.1 (of_mem_zip mem).1
  obtain ⟨bindings, bound⟩ := exists_bindParameters state.table pairsNamed
  refine ⟨⟨bindings, []⟩, ?_, rfl, fun name => ?_⟩
  · have evaluated := perform_mapM_map fun operand mem =>
      outside.evaluateOperand (ground operand mem)
    simp only [Expander.openScope, perform_bind, evaluated, perform_get, perform_lift, bound,
      unlabelled, renameLabels, perform_pure]
  · rw [get?_bindParameters bound, argument?_map]
    rfl

/-- A macro invocation means the body of the macro with the operands in the place of the parameters:
to expand the one outside all macros, and to expand the other in an empty scope one level further
down, either fails in both cases or leads to the same statements and the same symbol table. -/
theorem invocation_eq_instance (limit : Int) (levels : Nat) {name : String}
    {definition : Definition} {operands : List Node} {statement : Node}
    (outside : state.IsOutside) (known : state.findMacro? (.text name) = some definition)
    (named : ∀ parameter ∈ definition.parameters, parameter.isVariable)
    (arity : operands.length = definition.parameters.length)
    (ground : ∀ operand ∈ operands, operand.IsGround)
    (unlabelled : definition.body.localLabels = [])
    (admitted : definition.body.admits (.ofParameters definition.parameters operands) [])
    (invokes : statement.Invokes name operands) :
    let invoked := (expandNode (invoke limit (levels + 1)) statement).perform state
    let instantiated := (inFrame [{}] (expandNode (invoke limit levels)
      (definition.body.instantiate (.ofParameters definition.parameters operands)))).perform state
    (∃ failure other, invoked.1 = .error failure ∧ instantiated.1 = .error other) ∨
      ∃ results others, invoked.1 = .ok results ∧ instantiated.1 = .ok others ∧
        List.Forall₂ SameStatement results others ∧
        invoked.2.table = instantiated.2.table := by
  intro invoked instantiated
  have callee := outside.callee? known
  obtain ⟨shown, same⟩ : ∃ shown, invoked =
      (invoke limit (levels + 1) ⟨name, shown, operands, statement⟩).perform state :=
    expandNode_invokes invokes (by rw [callee]; rfl)
  let invocation : Invocation := ⟨name, shown, operands, statement⟩
  obtain ⟨scope, opened, unlabelledScope, bindings⟩ : ∃ scope : Scope Bound,
      (Expander.openScope definition invocation).perform state = (.ok scope, state) ∧ _ :=
    outside.openScope named ground unlabelled
  -- Once the scope is open, the one run differs from the other in the scope and in what is counted.
  have entered : invoked = (inFrame [scope] (expandNode (invoke limit levels)
      definition.body)).perform (state.counted invocation) := by
    have found : (calleeOf invocation).perform state = (.ok (definition, []), state) := by
      rw [calleeOf, perform_bind, perform_get]
      dsimp only
      rw [callee]
      dsimp only
      rw [if_pos arity, perform_pure]
    rw [same, Expander.invoke, perform_bind, found]
    dsimp only
    rw [perform_bind, opened]
    dsimp only
    rw [perform_bind, perform_countExpansion]
  have frames : Frame.Mirrors (.ofParameters definition.parameters operands) [] [scope] [{}] := by
    refine .parameters unlabelledScope rfl (fun parameter operand given => ?_)
      fun parameter missing => ?_
    · obtain ⟨_, member, -⟩ := argument?_mem given
      refine ⟨ground operand (List.of_mem_zip member).2, ?_, rfl⟩
      rw [bindings, given]
      rfl
    · rw [bindings, missing]
      exact .none
  have initially : (state.counted invocation).Mirrors .empty [] state := by
    refine ⟨rfl, rfl, rfl, rfl, outside.root, ?_⟩
    show Frame.Mirrors .empty [] state.frame state.frame
    rw [outside.frame]
    exact .unit
  have related : Imitates .empty [] (List.Forall₂ SameStatement)
      (inFrame [scope] (expandNode (invoke limit levels) definition.body))
      (inFrame [{}] (expandNode (invoke limit levels)
        (definition.body.instantiate (.ofParameters definition.parameters operands)))) :=
    relates_inFrame_mirrors frames (relates_expandNode_mirrors
      (relates_invoke_mirrors limit levels _ _) definition.body admitted)
  rw [entered]
  refine (related.outcomes initially).imp_right ?_
  rintro ⟨results, others, succeeded, otherSucceeded, alike, after⟩
  exact ⟨results, others, succeeded, otherSucceeded, alike, after.table.symm⟩

end Expander

/-! ### Two macros -/

namespace Inlining

open Finishing

def here : LocalLabel := ⟨.nowhere, .text ".here"⟩

def jump (target : Node) : Node := .instruction .nowhere "jmp" [target] .null

def perform : Definition := ⟨.nowhere, .text "perform", [named "f"], .instruction .nowhere "f" [] .null⟩

def performed (statements : List Node) : Node :=
  .call .nowhere "perform" [.definition .nowhere .null [] (.sequence .nowhere statements)] .null
    .null

/-- A macro that passes on a loop, and has a parameter as the branch of a conditional. -/
def repeated : Definition := ⟨.nowhere, .text "repeated", [named "x", named "y"],
  .sequence .nowhere [
    performed [.localLabel here, move (named "x") (named "y"), jump (.localReference .nowhere here)],
    .conditional .nowhere debug (named "x") (.skip .nowhere)]⟩

def leave : Definition := ⟨.nowhere, .text "leave", [named "x"],
  performed [.localLabel here, jump (named "x")]⟩

def loaded : Expander := {
  table := .empty
  macros := [(.text "perform", perform), (.text "repeated", repeated), (.text "leave", leave)] }

theorem isOutside_loaded : loaded.IsOutside := ⟨rfl, rfl, fun _ _ bound => nomatch bound⟩

def invoked (name : String) (operands : List Node) : Checked (List String) := do
  let stmt := Node.call .nowhere name operands .null .null
  let results ← ((expandNode (invoke defaultLimit 100) stmt).perform loaded).1
  results.mapM dump

def instantiated (definition : Definition) (operands : List Node) : Checked (List String) := do
  let body := definition.body.instantiate (.ofParameters definition.parameters operands)
  let results ← ((inFrame [{}] (expandNode (invoke defaultLimit 99) body)).perform loaded).1
  results.mapM dump

end Inlining

open Inlining

/-- The loop is expanded to the same statements in both cases. -/
theorem invocation_eq_instance_closure :
    let operands := [Finishing.register "t0",
      .address .nowhere (Finishing.register "t1") (Finishing.number 8)]
    let statement := Node.call .nowhere "repeated" operands .null .null
    let body := repeated.body.instantiate (.ofParameters repeated.parameters operands)
    ∃ results others,
      ((expandNode (invoke defaultLimit 100) statement).perform loaded).1 = .ok results ∧
      ((inFrame [{}] (expandNode (invoke defaultLimit 99) body)).perform loaded).1 = .ok others ∧
      results.mapM dump = .ok ["_f__here:", "\tmove t0, 8[t1]", "\tjmp _f__here",
        "if DEBUG\nt0\nelse\n\nend"] ∧
      List.Forall₂ SameStatement results others := by
  intro operands statement body
  have ground : ∀ operand ∈ operands, operand.IsGround := by
    rw [List.forall_mem_cons, List.forall_mem_singleton]
    constructor <;> constructor <;> first | rfl | (unfold Throughout; decide)
  have texts : invoked "repeated" operands = .ok ["_f__here:", "\tmove t0, 8[t1]",
      "\tjmp _f__here", "if DEBUG\nt0\nelse\n\nend"] := by
    decide +kernel
  simp only [invoked, Checked.bind_ok] at texts
  obtain ⟨results, succeeded, texts⟩ := texts
  have known : loaded.findMacro? (.text "repeated") = some repeated := rfl
  have arity : operands.length = repeated.parameters.length := rfl
  have invokes : statement.Invokes "repeated" operands := .call .nowhere .null .null
  rcases invocation_eq_instance defaultLimit 99 isOutside_loaded known (by decide) arity ground rfl
      (by decide +kernel) invokes with
    ⟨failure, -, failed, -⟩ | ⟨same, others, sameSucceeded, otherSucceeded, alike, -⟩
  · rw [succeeded] at failed
    cases failed
  · rw [succeeded] at sameSucceeded
    cases sameSucceeded
    exact ⟨results, others, succeeded, otherSucceeded, texts, alike⟩

/-- A local label that an operand refers to is another one inside a macro that defines it. -/
theorem invocation_instance_capture :
    let operands := [Node.localReference .nowhere here]
    loaded.IsOutside ∧ loaded.findMacro? (.text "leave") = some leave ∧
      (∀ operand ∈ operands, operand.IsGround) ∧ leave.body.localLabels = [] ∧
      (leave.body.Throughout fun part => part.isConstant = false ∧ part.isConditional = false ∧
        part.isTemplateLabel = false) ∧
      (leave.body.instantiate (.ofParameters leave.parameters operands)).Throughout KeepsRules ∧
      invoked "leave" operands = .ok ["_f__here:", "\tjmp .here"] ∧
      instantiated leave operands = .ok ["_f__here:", "\tjmp _f__here"] := by
  intro operands
  refine ⟨isOutside_loaded, rfl, ?_, rfl, ?_, ?_, by decide +kernel, by decide +kernel⟩
  · rw [List.forall_mem_singleton]
    constructor <;> first | rfl | (unfold Throughout; decide)
  · unfold Throughout
    decide
  · unfold Throughout
    decide +kernel

end MacroAssembler
