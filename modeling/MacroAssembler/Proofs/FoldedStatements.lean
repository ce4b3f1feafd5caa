/-
This module expands statements side by side, as they are written and as they are folded.

Expanded as it is written, a conditional is expanded with both of its branches, and folding then
keeps what the live branch has become. Folded first, only the live branch is there to be expanded.
The two runs go side by side: each statement is expanded in the one, and what it was folded to in the
other, and what comes out corresponds. Only a discarded branch is expanded on one side alone, and as
long as it binds nothing it leaves nothing behind but entries in the symbol table.
-/
import MacroAssembler.Proofs.FoldedBindings

namespace MacroAssembler

open Action Expander Folding List Node

variable {config : Configuration}

/-! ### Invocations -/

variable {parameters operands : List Node} {result body other : Node} {origin : Origin}
  {name : Value}

namespace Folding

theorem foldsTo_definition
    (folds : FoldsTo config (.definition origin name parameters body) result) :
    ∃ newParameters newBody, result = .definition origin name newParameters newBody ∧
      List.Forall₂ (FoldsTo config) parameters newParameters ∧ FoldsTo config body newBody := by
  obtain ⟨counts, after, folds⟩ := folds
  simp only [fold, foldAll_eq_mapM, perform_bind_ok, pure_ok] at folds
  obtain ⟨newParameters, _, foldsParameters, newBody, _, foldsBody, rfl, -⟩ := folds
  obtain ⟨-, related⟩ := perform_mapM_ok (fun _ => True) (FoldsTo config)
    (fun _ _ _ _ _ _ folds => ⟨trivial, _, _, folds⟩) trivial foldsParameters
  exact ⟨newParameters, newBody, rfl, related, _, _, foldsBody⟩

theorem foldsTo_constant {binding : Variable} {value : Node}
    (folds : FoldsTo config (.constant origin binding value) result) :
    ∃ newValue, result = .constant origin binding newValue ∧ FoldsTo config value newValue := by
  obtain ⟨counts, after, folds⟩ := folds
  simp only [fold, perform_bind_ok, pure_ok] at folds
  obtain ⟨newValue, _, foldsValue, rfl, -⟩ := folds
  exact ⟨newValue, rfl, _, _, foldsValue⟩

theorem foldsInto_constant (origin : Origin) (binding : Variable) {value : Node}
    (folds : FoldsInto config value other) :
    FoldsInto config (.constant origin binding value) (.constant origin binding other) := by
  intro folded foldsAll
  obtain ⟨newValue, rfl, foldsValue⟩ := foldsTo_constant foldsAll
  rw [unlocated, unlocated, folds newValue foldsValue]

theorem foldsInto_instruction (origin : Origin) (opcode : String) (comment : Value)
    {others : List Node} (related : List.Forall₂ (FoldsInto config) operands others) :
    FoldsInto config (.instruction origin opcode operands comment)
      (.instruction origin opcode others comment) := by
  have built : (Node.instruction origin opcode operands comment).rebuild others =
      .ok (.instruction origin opcode others comment) := rfl
  exact foldsInto_rebuild rfl rfl rfl (rebuild_children trivial) built rfl related

theorem localLabelsOf_spliced (items : List Node) :
    localLabelsOf (items.foldr splice []) = localLabelsOf items := by
  induction items with
  | nil => rfl
  | cons item rest ih =>
    rw [foldr_cons, splice_eq_append, localLabelsOf_append, ih, localLabelsOf]
    cases item <;> simp [splice, localLabelsOf, localLabels]

theorem localLabels_folded (node : Node) : ∀ folded, FoldsTo config node folded →
    node.localLabels = [] → folded.localLabels = [] := by
  induction node with
  | step node ih =>
    intro folded folds unlabelled
    by_cases condition : node.isCondition
    · obtain ⟨_, -, rfl⟩ := foldsTo_condition condition folds
      rfl
    rw [Bool.not_eq_true] at condition
    cases node with
    | conditional origin predicate thenCase elseCase =>
      obtain ⟨value, evaluates⟩ := evaluate_of_foldsTo folds
      obtain ⟨thenUnlabelled, elseUnlabelled⟩ := append_eq_nil_iff.mp unlabelled
      have live := foldsTo_conditional evaluates folds
      cases value with
      | true => exact ih thenCase (by simp [children]) _ live thenUnlabelled
      | false => exact ih elseCase (by simp [children]) _ live elseUnlabelled
    | sequence origin items =>
      obtain ⟨folded, related, rfl⟩ := foldsTo_sequence folds
      rw [localLabels, localLabelsOf_eq_nil] at unlabelled
      rw [localLabels, localLabelsOf_spliced, localLabelsOf_eq_nil]
      intro result mem
      obtain ⟨item, itemMem, folds⟩ := exists_left_of_forall₂ related result mem
      exact ih item itemMem result folds (unlabelled item itemMem)
    | localLabel => cases unlabelled
    | label =>
      obtain ⟨_, _, folds⟩ := folds
      cases folds
      rfl
    | _ =>
      obtain ⟨related, built⟩ := foldsTo_parts condition rfl rfl folds
      obtain ⟨-, -, same⟩ := rebuild_ok built related.length_eq.symm
      cases folded with
      | localLabel => cases same.label
      | sequence => cases same.sequence
      | conditional => cases same.conditional
      | _ => rfl

end Folding

variable {invocation : Invocation}

namespace Expander

variable {table : SymbolTable} {folded : Node} {others : List Node}

theorem boundName?_folded {parameter : Node} {name : Option String}
    (named : parameterName table parameter = .ok name) (unset : parameter.isSetting = false)
    (folds : FoldsTo config parameter folded) : boundName? folded = boundName? parameter := by
  cases parameter with
  | setting => cases unset
  | call origin name operands comment writtenName =>
    obtain ⟨-, built⟩ := foldsTo_parts rfl rfl rfl folds
    obtain ⟨-, same⟩ := makeCall_ok.mp built
    rw [same]
    rfl
  | definition =>
    obtain ⟨_, _, rfl, -, -⟩ := foldsTo_definition folds
    rfl
  | immediate | register | var | label | labelReference | localLabel | localReference =>
    obtain ⟨_, _, folds⟩ := folds
    cases folds
    rfl
  | _ => cases named

theorem named_of_bindParameters {pairs : List (Node × Bound)} {bindings : List (String × Bound)}
    (bound : bindParameters table pairs = .ok bindings) :
    ∀ pair ∈ pairs, ∃ name, parameterName table pair.1 = .ok name := by
  induction pairs generalizing bindings with
  | nil => simp
  | cons pair rest ih =>
    simp only [bindParameters, Checked.bind_ok] at bound
    obtain ⟨name, named, others, boundOthers, -⟩ := bound
    exact forall_mem_cons.mpr ⟨⟨name, named⟩, ih boundOthers⟩

theorem argument?_folded {arguments otherArguments : List Bound} (name : String)
    (folds : List.Forall₂ (FoldsTo config) parameters others)
    (given : List.Forall₂ (Bound.Corresponds config) arguments otherArguments)
    (unset : ∀ parameter ∈ parameters, parameter.isSetting = false)
    (named : ∀ pair ∈ parameters.zip arguments, ∃ name, parameterName table pair.1 = .ok name) :
    Option.Rel (Bound.Corresponds config) (argument? (parameters.zip arguments) name)
      (argument? (others.zip otherArguments) name) := by
  induction folds generalizing arguments otherArguments with
  | nil => exact .none
  | @cons parameter other parameters others foldsFirst _ ih =>
    cases given with
    | nil => exact .none
    | @cons argument otherArgument arguments otherArguments first rest =>
      rw [zip_cons_cons, forall_mem_cons] at named
      obtain ⟨⟨_, ownName⟩, namedRest⟩ := named
      obtain ⟨unsetFirst, unsetRest⟩ := forall_mem_cons.mp unset
      rw [zip_cons_cons, zip_cons_cons, argument?_cons, argument?_cons,
        boundName?_folded ownName unsetFirst foldsFirst]
      have later := ih rest unsetRest namedRest
      generalize argument? (parameters.zip arguments) name = found at later
      generalize argument? (others.zip otherArguments) name = otherFound at later
      cases later with
      | some later => exact .some later
      | none =>
        dsimp only [Option.none_or]
        split
        · exact .some first
        · exact .none

structure Invocation.Corresponds (config : Configuration) (first second : Invocation) :
    Prop where
  name : first.name = second.name
  operands : List.Forall₂ (FoldsTo config) first.operands second.operands
  kinds : ∀ operand ∈ first.operands, operand.isExpression ∨ operand.isDefinition
  stable : ∀ operand ∈ first.operands, operand.Throughout fun part => part.isStable

/-- A macro among the statements or operands corresponds to what it is folded to. -/
theorem corresponds_definition {otherBody : Node}
    (stable : (Node.definition origin name parameters body).Throughout fun part => part.isStable)
    (foldsParameters : List.Forall₂ (FoldsTo config) parameters others)
    (foldsBody : FoldsTo config body otherBody) :
    Definition.Corresponds config ⟨origin, name, parameters, body⟩
      ⟨origin, name, others, otherBody⟩ := by
  have here := stable.here
  simp only [isStable, Bool.and_eq_true, List.isEmpty_iff, all_eq_true, Bool.not_eq_true'] at here
  exact ⟨foldsBody, foldsParameters, stable.below (by simp [children]), here.2.1, here.2.2⟩

theorem relates_evaluateOperand {node : Node} (kind : node.isExpression ∨ node.isDefinition)
    (stable : node.Throughout fun part => part.isStable) (folds : FoldsTo config node folded) :
    Relates (Expander.Corresponds config) (Bound.Corresponds config)
      (evaluateOperand node) (evaluateOperand folded) := by
  rcases kind with expression | isMacro
  · by_cases isVariable : node.isVariable
    · cases node with
      | var binding =>
        obtain ⟨_, _, folds⟩ := folds
        cases folds
        refine Relates.get.bind fun state other corresponds => ?_
        have meaning := corresponds.meaning? binding.name not_mem_nil
        generalize state.meaning? binding.name = bound at meaning
        generalize other.meaning? binding.name = otherBound at meaning
        cases meaning with
        | none => exact .pure (.operand ⟨expression, FoldsTo.foldsInto ⟨{}, {}, rfl⟩⟩)
        | some meaning => exact .pure meaning
      | _ => cases isVariable
    rw [Bool.not_eq_true] at isVariable
    obtain ⟨notConditional, single, -, notDefinition⟩ := kind_of_isExpression expression
    have kept : folded.isVariable = false ∧ folded.isDefinition = false := by
      by_cases condition : node.isCondition
      · obtain ⟨_, -, rfl⟩ := foldsTo_condition condition folds
        exact ⟨rfl, rfl⟩
      · rw [Bool.not_eq_true] at condition
        obtain ⟨related, built⟩ := foldsTo_parts condition notConditional single folds
        obtain ⟨-, -, same⟩ := rebuild_ok built related.length_eq.symm
        exact ⟨same.isVariable.trans isVariable, same.definition.trans notDefinition⟩
    rw [evaluateOperand_eq isVariable notDefinition, evaluateOperand_eq kept.1 kept.2]
    refine (relates_substitute node folded expression folds).bind fun _ _ corresponds => ?_
    exact .pure (.operand corresponds)
  · cases node with
    | definition origin name parameters body =>
      obtain ⟨others, otherBody, rfl, foldsParameters, foldsBody⟩ := foldsTo_definition folds
      refine Relates.get.bind fun state other corresponds => ?_
      exact .pure (.closure (corresponds_definition stable foldsParameters foldsBody)
        corresponds.frame)
    | _ => cases isMacro

theorem relates_openScope {definition other : Definition} {otherInvocation : Invocation}
    (definitions : definition.Corresponds config other)
    (invocations : invocation.Corresponds config otherInvocation) :
    Relates (Expander.Corresponds config) (Scope.Corresponds config)
      (openScope definition invocation) (openScope other otherInvocation) := by
  have otherUnlabelled := localLabels_folded _ _ definitions.body definitions.unlabelled
  unfold openScope
  rw [definitions.unlabelled, otherUnlabelled]
  refine Relates.bind (.mapM invocations.operands fun operand mem _ folds =>
    relates_evaluateOperand (invocations.kinds operand mem) (invocations.stable operand mem)
      folds) ?_
  rintro arguments otherArguments ⟨given, -⟩
  refine Relates.get.bind fun state otherState _ => ?_
  have bound : ∀ bindings otherBindings,
      bindParameters state.table (definition.parameters.zip arguments) = .ok bindings →
      bindParameters otherState.table (other.parameters.zip otherArguments) = .ok otherBindings →
        ∀ name, Option.Rel (Bound.Corresponds config) (Association.get? bindings name)
          (Association.get? otherBindings name) := by
    intro bindings otherBindings bound otherBound name
    rw [get?_bindParameters bound, get?_bindParameters otherBound]
    exact argument?_folded name definitions.parameters given definitions.unset
      (named_of_bindParameters bound)
  refine (Relates.lift bound).bind fun bindings otherBindings corresponds => ?_
  rw [renameLabels, renameLabels, pure_bind, pure_bind]
  exact .pure (.intro (fun _ => .none) corresponds)

end Expander

/-! ### Statements -/

/-- Whether the statements that some results are folded to are other ones, up to locations. -/
def Gathers (config : Configuration) (results others : List Node) : Prop :=
  ∀ folded, List.Forall₂ (FoldsTo config) results folded →
    (folded.foldr splice []).map unlocated = others.map unlocated

namespace Gathers

variable {results others : List Node}

theorem nil : Gathers config [] [] := by
  intro folded folds
  cases folds
  rfl

theorem append {moreResults moreOthers : List Node} (first : Gathers config results others)
    (second : Gathers config moreResults moreOthers) :
    Gathers config (results ++ moreResults) (others ++ moreOthers) := by
  intro folded folds
  obtain ⟨front, back, foldsFront, foldsBack, rfl⟩ :
      ∃ front back, List.Forall₂ (FoldsTo config) results front ∧
        List.Forall₂ (FoldsTo config) moreResults back ∧ folded = front ++ back := by
    exact ⟨folded.take results.length, folded.drop results.length,
      (forall₂_take_append _ _ _ folds.flip).flip,
      (forall₂_drop_append _ _ _ folds.flip).flip, (take_append_drop _ _).symm⟩
  rw [foldr_splice_append, map_append, map_append, first front foldsFront, second back foldsBack]

theorem single (folds : FoldsInto config result other)
    (isSingle : ∀ folded, FoldsTo config result folded →
      folded.isSequence = false ∧ folded.isSkip = false) : Gathers config [result] [other] := by
  intro folded related
  cases related with
  | cons foldsFirst rest =>
    cases rest
    obtain ⟨single, effective⟩ := isSingle _ foldsFirst
    rw [foldr_cons, foldr_nil, splice_of_single single effective, List.map_singleton,
      List.map_singleton, folds _ foldsFirst]

theorem statement (folds : FoldsInto config result other)
    (isSingle : other.isSequence = false) (effective : other.isSkip = false) :
    Gathers config [result] [other] := by
  refine single folds fun folded foldsFirst => ?_
  have same : folded.unlocated.SameClasses other := by
    rw [folds folded foldsFirst]
    exact sameClasses_unlocated other
  have own := sameClasses_unlocated folded
  exact ⟨own.sequence.symm.trans (same.sequence.trans isSingle),
    own.skip.symm.trans (same.skip.trans effective)⟩

theorem operand (corresponds : result.Corresponds config other) :
    Gathers config [result] [other] := by
  refine single corresponds.folds fun folded folds => ?_
  obtain ⟨_, _, folds⟩ := folds
  have expression := fold_isExpression result _ _ _ folds corresponds.expression
  obtain ⟨-, single, effective, -⟩ := kind_of_isExpression expression
  exact ⟨single, effective⟩

/-- Of an expanded conditional the live branch is kept. -/
theorem conditional {value : Bool} {predicate : Node} {thenItems elseItems : List Node}
    (origin thenOrigin elseOrigin : Origin) (evaluates : predicate.evaluate config = .ok value)
    (live : Gathers config (if value then thenItems else elseItems) others) :
    Gathers config [.conditional origin predicate (.sequence thenOrigin thenItems)
      (.sequence elseOrigin elseItems)] others := by
  intro folded related
  cases related with
  | cons folds rest =>
    cases rest
    have foldsLive := foldsTo_conditional evaluates folds
    cases value with
    | true | false =>
      obtain ⟨items, foldsItems, rfl⟩ := foldsTo_sequence foldsLive
      rw [foldr_cons, foldr_nil, splice, append_nil, live items foldsItems]

end Gathers

namespace Expander

section Statements

variable {invoke otherInvoke : Invocation → Expand (List Node)}

theorem expandItems_append (first second : List Node) :
    expandItems invoke (first ++ second) = do
      let results ← expandItems invoke first
      let others ← expandItems invoke second
      return results ++ others := by
  induction first with
  | nil => simp [expandItems]
  | cons item rest ih =>
    simp only [cons_append, expandItems, ih, bind_assoc, pure_bind, append_assoc]

/-- Statements that are put together are expanded one after the other. -/
theorem expandItems_splice (item : Node) (rest : List Node) :
    expandItems invoke (splice item rest) = do
      let results ← expandNode invoke item
      let others ← expandItems invoke rest
      return results ++ others := by
  cases item with
  | sequence origin items => rw [splice, expandItems_append, expandNode]
  | skip => simp [splice, expandNode]
  | _ => rfl

theorem expandItems_spliced (items : List Node) :
    expandItems invoke (items.foldr splice []) = expandItems invoke items := by
  induction items with
  | nil => rfl
  | cons item rest ih =>
    rw [foldr_cons, expandItems_splice, ih, expandItems]

variable {items others : List Node}

theorem declaredNamesOf_eq_nil (each : ∀ item ∈ items, item.declaredNames = []) :
    declaredNamesOf items = [] := by
  induction items with
  | nil => rfl
  | cons item rest ih =>
    obtain ⟨first, others⟩ := forall_mem_cons.mp each
    rw [declaredNamesOf, first, ih others, nil_append]

theorem declaredNames_eq_nil (node : Node) :
    (node.Throughout fun part => part.isConstant = false) → node.declaredNames = [] := by
  induction node with
  | step node ih =>
    intro undeclared
    have below : ∀ child ∈ node.children, child.declaredNames = [] := fun child mem =>
      ih child mem (undeclared.below mem)
    cases node with
    | constant => cases undeclared.here
    | sequence => exact declaredNamesOf_eq_nil below
    | conditional => simp_all [declaredNames, children]
    | _ => rfl

theorem relates_substituteAll
    (kinds : ∀ operand ∈ operands, operand.isExpression ∨ operand.isDefinition)
    (related : List.Forall₂ (FoldsTo config) operands others) :
    Relates (Expander.Corresponds config)
      (List.Forall₂ (Node.Corresponds config)) (substituteAll operands) (substituteAll others) := by
  rw [substituteAll_eq_mapM, substituteAll_eq_mapM]
  refine (Relates.mapM related fun operand mem other folds => ?_).mono fun _ _ kept => kept.1
  rcases kinds operand mem with expression | isMacro
  · exact relates_substitute operand other expression folds
  · cases operand with
    | definition =>
      intro _ _ _ _ _ _ _ ran _
      simp [substitute, perform_bind_ok, report] at ran
    | _ => cases isMacro

theorem relates_bind (name : String) {bound other : Bound}
    (corresponds : bound.Corresponds config other) :
    Relates (Expander.Corresponds config) (fun _ _ => True) (bind name bound) (bind name other) :=
  .modify fun _ _ states => states.withBinding corresponds name

theorem relates_expandLabel (mark : Label) : Relates (Expander.Corresponds config)
      (fun result other => Gathers config [result] [other]) (expandLabel mark)
      (expandLabel mark) := by
  have labels : ∀ first second : Label, first.name = second.name →
      Gathers config [.label first] [.label second] := by
    intro first second same
    refine .statement (fun folded folds => ?_) rfl rfl
    have kept : FoldsTo config (.label first) (.label first) := ⟨{}, {}, rfl⟩
    rw [folds.unique kept, unlocated, unlocated, same]
  unfold expandLabel
  split
  · refine Relates.get.bind fun state other corresponds => ?_
    refine Relates.bind (.lift fun _ _ => interpolate_corresponds corresponds) ?_
    rintro name _ rfl
    refine Relates.bind (relates_onTable fun table otherTable => ?_) fun _ _ same =>
      .pure (labels _ _ same)
    show ((table.label name mark.origin).1).name = ((otherTable.label name mark.origin).1).name
    rw [SymbolTable.label_name, SymbolTable.label_name]
  · exact .pure (labels mark mark rfl)

theorem relates_expandItems (related : List.Forall₂ (FoldsTo config) items others)
    (each : ∀ item ∈ items, ∀ other, FoldsTo config item other →
      Relates (Expander.Corresponds config) (Gathers config)
        (expandNode invoke item) (expandNode otherInvoke other)) :
    Relates (Expander.Corresponds config) (Gathers config)
      (expandItems invoke items) (expandItems otherInvoke others) := by
  induction related with
  | nil => exact .pure .nil
  | @cons item other items others folds _ ih =>
    obtain ⟨first, rest⟩ := forall_mem_cons.mp each
    refine (first other folds).bind fun _ _ gathersFirst => ?_
    exact (ih rest).bind fun _ _ gathersRest =>
      .pure (gathersFirst.append gathersRest)

theorem expandNode_definition_ok {results : List Node} {state after : Expander}
    (ran : (expandNode invoke (.definition origin name parameters body)).perform state =
      (.ok results, after)) : results = [] ∧ after = state := by
  simp only [expandNode, perform_bind_ok, perform_get, Prod.mk.injEq, Except.ok.injEq] at ran
  obtain ⟨_, _, ⟨rfl, rfl⟩, decided⟩ := ran
  split at decided
  · cases decided
    exact ⟨rfl, rfl⟩
  · simp [perform_bind_ok, report] at decided

theorem relates_expandNode (follows : ∀ invocation state results after,
      (invoke invocation).perform state = (.ok results, after) →
        ∃ trace, Expands state (.invocation invocation) results trace after)
    (invokes : ∀ invocation other, invocation.Corresponds config other →
      Relates (Expander.Corresponds config) (Gathers config)
        (invoke invocation) (otherInvoke other))
    (node : Node) : ∀ folded, (node.Throughout fun part => part.isStable) →
      FoldsTo config node folded → Relates (Expander.Corresponds config) (Gathers config)
          (expandNode invoke node) (expandNode otherInvoke folded) := by
  induction node with
  | step node ih =>
    intro folded stable folds
    have placed := isPlaced_of_isStable stable.here
    by_cases isOperand : node.isOperand
    · have expression := isExpression_of_isOperand isOperand placed
      have foldedOperand : folded.isOperand := by
        by_cases condition : node.isCondition
        · obtain ⟨_, -, rfl⟩ := foldsTo_condition condition folds
          rfl
        · rw [Bool.not_eq_true] at condition
          obtain ⟨notConditional, single, -, -⟩ := kind_of_isExpression expression
          obtain ⟨related, built⟩ := foldsTo_parts condition notConditional single folds
          obtain ⟨-, -, same⟩ := rebuild_ok built related.length_eq.symm
          exact same.operand.trans isOperand
      rw [expandNode_eq_substitute isOperand, expandNode_eq_substitute foldedOperand]
      exact (relates_substitute node folded expression folds).bind fun _ _ corresponds =>
        .pure (.operand corresponds)
    cases node with
    | sequence origin items =>
      obtain ⟨folded, related, rfl⟩ := foldsTo_sequence folds
      rw [expandNode, expandNode, expandItems_spliced]
      exact relates_expandItems related fun item mem other folds =>
        ih item mem other (stable.below mem) folds
    | call origin name operands comment writtenName =>
      obtain ⟨related, built⟩ := foldsTo_parts rfl rfl rfl folds
      obtain ⟨-, same⟩ := makeCall_ok.mp built
      rw [same, expandNode, expandNode]
      exact invokes _ _ ⟨rfl, related,
        fun operand mem => isExpression_or_isDefinition placed rfl rfl rfl mem,
        fun operand mem => stable.below mem⟩
    | instruction origin opcode operands comment =>
      obtain ⟨related, built⟩ := foldsTo_parts rfl rfl rfl folds
      have same : folded = .instruction origin opcode folded.children comment :=
        (Except.ok.inj built).symm
      generalize folded.children = others at related same
      subst same
      have kinds : ∀ operand ∈ operands, operand.isExpression ∨ operand.isDefinition :=
        fun operand mem => isExpression_or_isDefinition placed rfl rfl rfl mem
      rw [expandNode, expandNode]
      refine Relates.get.bind fun state other corresponds => ?_
      rw [corresponds.isSome_callee? opcode not_mem_nil]
      split
      · exact invokes _ _ ⟨rfl, related, kinds, fun operand mem => stable.below mem⟩
      · refine (relates_substituteAll kinds related).bind fun results otherResults alike => ?_
        have folds : List.Forall₂ (FoldsInto config) results otherResults :=
          alike.imp fun _ _ corresponds => corresponds.folds
        exact .pure (.statement (foldsInto_instruction origin opcode comment folds) rfl rfl)
    | label mark =>
      obtain ⟨_, _, folds⟩ := folds
      cases folds
      rw [expandNode, expandNode]
      exact (relates_expandLabel mark).bind fun _ _ gathers => .pure gathers
    | localLabel mark =>
      obtain ⟨_, _, folds⟩ := folds
      cases folds
      rw [expandNode, expandNode]
      refine Relates.get.bind fun state other corresponds => ?_
      obtain ⟨here, otherHere⟩ := corresponds.renamed? mark.name
      rw [here, otherHere]
      exact .pure (.statement (FoldsTo.foldsInto ⟨{}, {}, rfl⟩) rfl rfl)
    | constant origin binding value =>
      obtain ⟨newValue, rfl, foldsValue⟩ := foldsTo_constant folds
      have mem : value ∈ (Node.constant origin binding value).children := by simp [children]
      have expression := isExpression_of_isPlaced placed (.inr rfl) mem
      rw [expandNode, expandNode]
      refine (relates_substitute value newValue expression foldsValue).bind
        fun result other corresponds => ?_
      refine (relates_bind binding.name (.operand corresponds)).bind fun _ _ _ => ?_
      exact .pure (.statement (foldsInto_constant origin binding corresponds.folds) rfl rfl)
    | definition origin name parameters body =>
      obtain ⟨others, otherBody, rfl, -, -⟩ := foldsTo_definition folds
      intro state other after otherAfter results otherResults corresponds ran otherRan
      obtain ⟨rfl, rfl⟩ := expandNode_definition_ok ran
      obtain ⟨rfl, rfl⟩ := expandNode_definition_ok otherRan
      exact ⟨.nil, corresponds⟩
    | conditional origin predicate thenCase elseCase =>
      obtain ⟨value, evaluates⟩ := evaluate_of_foldsTo folds
      have live := foldsTo_conditional evaluates folds
      have thenMem : thenCase ∈ (Node.conditional origin predicate thenCase elseCase).children :=
        by simp [children]
      have elseMem : elseCase ∈ (Node.conditional origin predicate thenCase elseCase).children :=
        by simp [children]
      have undeclared : (Node.conditional origin predicate thenCase elseCase).Throughout
          fun part => part.isConstant = false := by
        have here := stable.here
        simp only [isStable, Bool.and_eq_true, all_eq_true, Bool.not_eq_true'] at here
        exact fun part mem => (here.2 part mem).1
      have binds : ∀ branch state after results, branch.declaredNames = [] →
          (expandNode invoke branch).perform state = (.ok results, after) →
            state.Binds [] after := by
        intro branch state after results none expanded
        obtain ⟨_, expands⟩ := expandNode_ok follows branch _ _ _ expanded
        have binds := expands.binds
        rw [Task.declaredNames, none] at binds
        exact binds
      intro state other after otherAfter results otherResults corresponds ran otherRan
      simp only [expandNode, perform_bind_ok, pure_ok] at ran
      obtain ⟨thenItems, middle, expandsThen, elseItems, _, expandsElse, rfl, rfl⟩ := ran
      have thenBinds := binds _ _ _ _ (declaredNames_eq_nil _ (undeclared.below thenMem))
        expandsThen
      have elseBinds := binds _ _ _ _ (declaredNames_eq_nil _ (undeclared.below elseMem))
        expandsElse
      cases value with
      | true =>
        obtain ⟨gathers, kept⟩ := (ih thenCase thenMem _
          (stable.below thenMem) live).ok corresponds expandsThen otherRan
        exact ⟨.conditional _ _ _ evaluates gathers, kept.ofBinds elseBinds⟩
      | false =>
        obtain ⟨gathers, kept⟩ := (ih elseCase elseMem _
          (stable.below elseMem) live).ok (corresponds.ofBinds thenBinds) expandsElse otherRan
        exact ⟨.conditional _ _ _ evaluates gathers, kept⟩
    | skip origin =>
      obtain ⟨_, _, folds⟩ := folds
      cases folds
      exact .pure .nil
    | trap origin =>
      obtain ⟨_, _, folds⟩ := folds
      cases folds
      exact .pure (.statement (FoldsTo.foldsInto ⟨{}, {}, rfl⟩) rfl rfl)
    | _ => exact absurd rfl isOperand

end Statements

theorem relates_calleeOf {other : Invocation} (invocations : invocation.Corresponds config other) :
    Relates (Expander.Corresponds config)
      (fun callee otherCallee => callee.1.Corresponds config otherCallee.1 ∧
        List.Forall₂ (Scope.Corresponds config) callee.2 otherCallee.2)
      (calleeOf invocation) (calleeOf other) := by
  intro state otherState _ _ callee otherCallee corresponds found otherFound
  obtain ⟨rfl, known, -⟩ := calleeOf_ok found
  obtain ⟨rfl, otherKnown, -⟩ := calleeOf_ok otherFound
  have callees := corresponds.callee? invocation.name not_mem_nil
  rw [known, invocations.name, otherKnown] at callees
  cases callees with
  | some callees => exact ⟨callees, corresponds⟩

theorem relates_inFrame {α β : Type} {alike : α → β → Prop} {frame otherFrame : Frame}
    {step : Expand α} {otherStep : Expand β}
    (frames : List.Forall₂ (Scope.Corresponds config) frame otherFrame)
    (steps : Relates (Expander.Corresponds config) alike step otherStep) :
    Relates (Expander.Corresponds config) alike (inFrame frame step)
      (inFrame otherFrame otherStep) := by
  intro state other _ _ result otherResult corresponds ran otherRan
  obtain ⟨inside, performed, rfl⟩ := inFrame_ok ran
  obtain ⟨otherInside, otherPerformed, rfl⟩ := inFrame_ok otherRan
  have entered : Expander.Corresponds config { state with frame := frame }
      { other with frame := otherFrame } :=
    ⟨frames, corresponds.root, corresponds.constants, corresponds.macros⟩
  obtain ⟨related, left⟩ := steps.ok entered performed otherPerformed
  exact ⟨related, corresponds.frame, left.root, left.constants, left.macros⟩

theorem relates_invoke (limit : Int) (depth : Nat) : ∀ invocation other,
    invocation.Corresponds config other → Relates (Expander.Corresponds config) (Gathers config)
        (invoke limit depth invocation) (invoke limit depth other) := by
  induction depth with
  | zero =>
    intro invocation other _ _ _ _ _ _ _ _ ran _
    simp [Expander.invoke, perform_bind_ok, report] at ran
  | succ depth ih =>
    intro invocation other invocations
    refine (relates_calleeOf invocations).bind ?_
    rintro ⟨definition, captured⟩ ⟨otherDefinition, otherCaptured⟩ ⟨definitions, frames⟩
    refine (relates_openScope definitions invocations).bind fun scope otherScope scopes => ?_
    have counts : Relates (Expander.Corresponds config) (fun _ _ => True)
        (countExpansion invocation) (countExpansion other) :=
      Relates.bind (.modify fun _ _ corresponds => corresponds.ofRest rfl rfl) fun _ _ _ =>
        .modify fun _ _ corresponds => corresponds.ofRest rfl rfl
    refine counts.bind fun _ _ _ => relates_inFrame (.cons scopes frames) ?_
    exact relates_expandNode (invoke_ok limit depth) ih _ _ definitions.stable definitions.body

end Expander

end MacroAssembler
