/-
This module says what the opcode macros of the prelude expand to.

The entry points of an opcode come one after the other, from the narrow one to the widest one. Each
is the label of its width, the expanded prologue, the expanded body for the width and what folding
left of the trailer. The body is a macro that is invoked with the selector of the width, and the
selector invokes what it is given for the width, so in between lie up to five invocations, through
macros that were passed on and are expanded in the scopes they were written in.
-/
import MacroAssembler.Proofs.FoldedPrelude
import MacroAssembler.Proofs.SubstitutedBody
import MacroAssembler.Proofs.UnitStates

namespace MacroAssembler

open Action List

namespace SymbolTable

def IsDefined (table : SymbolTable) (name : String) : Prop :=
  (table.flagsOf name).isDefined = true ∧ (table.flagsOf name).isExternal = false

theorem isDefined_defineLabel {table : SymbolTable} {name other : String} (origin : Origin) :
    (table.defineLabel name origin).2.IsDefined other ↔ table.IsDefined other ∨ other = name := by
  unfold IsDefined
  rw [flagsOf_defineLabel]
  by_cases same : name = other
  · simp [same]
  · simp [same, Ne.symm same]

end SymbolTable

variable {origin : Origin} {opcode : String} {definition : Definition} {captured : Frame}
  {scope : Scope Bound} {operands : List Node}

namespace Expander

variable {α : Type} {limit : Int} {depth : Nat} {names : Expander} {wanted : List Node → Prop}

/-! ### Small bodies -/

variable {first rest results : List Node} {item : Node} {state after : Expander}
  {invocation : Invocation}

section

variable {invoke : Invocation → Expand (List Node)}

theorem yields_cons {others : List Node}
    (ofItem : names.Yields (expandNode invoke item) (.ok first))
    (ofRest : names.Yields (expandItems invoke rest) (.ok others)) :
    names.Yields (expandItems invoke (item :: rest)) (.ok (first ++ others)) := by
  rw [expandItems]
  exact ofItem.bind (ofRest.bind (.pure _))

theorem yields_nil : names.Yields (expandItems invoke []) (.ok []) := by
  rw [expandItems]
  exact .pure []

theorem gives_single {statement : Node} (origin : Origin)
    (gives : names.Gives (expandNode invoke statement) wanted) :
    names.Gives (expandNode invoke (.sequence origin [statement])) wanted := by
  obtain ⟨outcome, yields, holds⟩ := gives
  refine ⟨outcome, ?_, holds⟩
  rw [expandNode]
  cases outcome with
  | error failure =>
    rw [expandItems]
    exact yields.bind_error
  | ok results =>
    have whole := yields_cons yields yields_nil
    rwa [append_nil] at whole

theorem gives_bareInvocation (known : (names.callee? opcode).isSome)
    (gives : names.Gives (invoke ⟨opcode, .text opcode, [], .instruction origin opcode [] .null⟩)
      wanted) : names.Gives (expandNode invoke (.instruction origin opcode [] .null)) wanted := by
  obtain ⟨outcome, yields, holds⟩ := gives
  refine ⟨outcome, ?_, holds⟩
  rw [expandNode]
  refine .get (fun state has => by rw [has.callee?]) ?_
  rw [if_pos known]
  exact yields

theorem yields_bareInstruction (unknown : names.callee? opcode = none) :
    names.Yields (expandNode invoke (.instruction origin opcode [] .null))
      (.ok [.instruction origin opcode [] .null]) := by
  rw [expandNode]
  refine .get (fun state has => by rw [has.callee?]) ?_
  rw [unknown, substituteAll]
  exact .pure _

theorem expandItems_cons_ok
    (ran : (expandItems invoke (item :: rest)).perform state = (.ok results, after)) :
    ∃ first middle others, (expandNode invoke item).perform state = (.ok first, middle) ∧
      (expandItems invoke rest).perform middle = (.ok others, after) ∧ results = first ++ others := by
  simp only [expandItems, perform_bind_ok, pure_ok] at ran
  obtain ⟨first, middle, expandsFirst, others, _, expandsRest, rfl, rfl⟩ := ran
  exact ⟨first, middle, others, expandsFirst, expandsRest, rfl⟩

theorem expandItems_append_ok {second : List Node}
    (ran : (expandItems invoke (first ++ second)).perform state = (.ok results, after)) :
    ∃ early middle late, (expandItems invoke first).perform state = (.ok early, middle) ∧
      (expandItems invoke second).perform middle = (.ok late, after) ∧ results = early ++ late := by
  simp only [expandItems_append, perform_bind_ok, pure_ok] at ran
  obtain ⟨early, middle, expandsFirst, late, _, expandsRest, rfl, rfl⟩ := ran
  exact ⟨early, middle, late, expandsFirst, expandsRest, rfl⟩

end

/-- What an invocation that succeeded did: it expanded the body of its macro one level further
down, in the scope that it opened. -/
theorem invoke_inside (has : state.HasNames names)
    (callee : names.callee? invocation.name = some (definition, captured))
    (opens : names.Yields (openScope definition invocation) (.ok scope))
    (ran : (invoke limit depth invocation).perform state = (.ok results, after)) :
    ∃ less entered inside, depth = less + 1 ∧
      entered.HasNames { names with frame := scope :: captured } ∧
      (expandNode (invoke limit less) definition.body).perform entered = (.ok results, inside) ∧
      after.table = inside.table := by
  cases depth with
  | zero =>
    simp only [invoke, perform_bind_ok, perform_lift, report, Prod.mk.injEq,
      reduceCtorEq, false_and, and_false, exists_false] at ran
  | succ less =>
    simp only [invoke, perform_bind_ok, perform_countExpansion, Prod.mk.injEq, true_and] at ran
    obtain ⟨⟨found, foundCaptured⟩, before, finds, opened, middle, opensHere, _, _, rfl, expanded⟩ :=
      ran
    obtain ⟨rfl, calleeHere, -⟩ := calleeOf_ok finds
    rw [has.callee?, callee] at calleeHere
    cases calleeHere
    obtain ⟨sameScope, hasMiddle, -⟩ := opens.ok has opensHere
    cases sameScope
    obtain ⟨inside, expandedInside, rfl⟩ := inFrame_ok expanded
    refine ⟨less, _, inside, rfl, ?_, expandedInside, rfl⟩
    exact ⟨hasMiddle.macros, hasMiddle.constants, hasMiddle.root, rfl⟩

end Expander

namespace Specialization

open Expander Node

variable {config configuration : Configuration} {table : SymbolTable} {unit : Node} {limit : Int}
  {depth : Nat} {names : Expander} {wanted : List Node → Prop}

/-! ### The prelude in a unit -/

/-- Whether a state knows a folded unit with the macros of the prelude, in which the traps and the
selectors mean what the prelude means by them. -/
structure KnowsPrelude (table : SymbolTable) (config : Configuration) (unit : Node)
    (state : Expander) : Prop extends state.KnowsUnit unit where
  selector : ∀ width : Width,
    state.findMacro? (.text width.selector) = some (selectorOf table width)
  common : state.findMacro? (.text "commonOp") = some (commonOf table config)
  narrow : state.findMacro? (.text "op") = some (narrowOf table)
  noTrap : ¬ unit.DefinesMacro "break"
  noConstant : ∀ width : Width, ¬ unit.DeclaresConstant width.selector

theorem KnowsPrelude.inFrame {state : Expander} (knows : KnowsPrelude table config unit state)
    (frame : Frame) : KnowsPrelude table config unit { state with frame := frame } :=
  ⟨knows.toKnowsUnit.inFrame frame, knows.selector, knows.common, knows.narrow, knows.noTrap,
    knows.noConstant⟩

variable {parameters : List String} {arguments : List Bound}

/-- The names of the prelude are bound one to one to what is given for them. -/
theorem bindParameters_nameIn (anyTable : SymbolTable) (distinct : parameters.Nodup) :
    ∀ {arguments : List Bound}, arguments.length = parameters.length →
      bindParameters anyTable ((parameters.map (nameIn table)).zip arguments) =
        .ok (parameters.zip arguments) := by
  induction parameters with
  | nil => intro _ _; rfl
  | cons parameter rest ih =>
    intro arguments sameNumber
    obtain _ | ⟨argument, arguments⟩ := arguments
    · cases sameNumber
    obtain ⟨fresh, restDistinct⟩ := nodup_cons.mp distinct
    have ownName : parameterName anyTable (nameIn table parameter) = .ok (some parameter) :=
      congrArg (fun name => Except.ok (some name)) (table.variableOf_name parameter)
    have unbound : Association.holds (rest.zip arguments) parameter = false := by
      rw [Association.holds, any_eq_false]
      rintro ⟨name, argument⟩ mem same
      exact fresh (of_decide_eq_true same ▸ (of_mem_zip mem).1)
    rw [map_cons, zip_cons_cons, bindParameters, ownName, ih restDistinct (Nat.succ.inj sameNumber)]
    show (if Association.holds (rest.zip arguments) parameter then _ else _) = _
    rw [unbound]
    rfl

/-- An invocation of a macro of the prelude opens a scope that binds its parameters. -/
theorem yields_openNamed {invocation : Invocation}
    (named : definition.parameters = parameters.map (nameIn table)) (distinct : parameters.Nodup)
    (evaluated : names.Yields (invocation.operands.mapM evaluateOperand) (.ok arguments))
    (sameNumber : arguments.length = parameters.length)
    (unlabelled : definition.body.localLabels = []) :
    names.Yields (openScope definition invocation) (.ok ⟨parameters.zip arguments, []⟩) := by
  refine yields_openScope evaluated ?_ unlabelled
  rw [named]
  exact bindParameters_nameIn names.table distinct sameNumber

/-- An invocation of a macro of the prelude gives what the body gives in the scope that binds its
parameters. -/
theorem gives_named (parameters : List String) {invocation : Invocation}
    (callee : names.callee? invocation.name = some (definition, captured))
    (number : invocation.operands.length = parameters.length)
    (named : definition.parameters = parameters.map (nameIn table)) (distinct : parameters.Nodup)
    (evaluated : names.Yields (invocation.operands.mapM evaluateOperand) (.ok arguments))
    (sameNumber : arguments.length = parameters.length)
    (unlabelled : definition.body.localLabels = []) (inside : ∀ less, depth = less + 1 →
      { names with frame := ⟨parameters.zip arguments, []⟩ :: captured }.Gives
        (expandNode (invoke limit less) definition.body) wanted) :
    names.Gives (invoke limit depth invocation) wanted := by
  refine gives_invoke callee ?_ (yields_openNamed named distinct evaluated sameNumber unlabelled)
    inside
  rw [named, length_map, number]

theorem yields_evaluateName (table : SymbolTable) {name : String} {bound : Bound}
    (meaning : names.meaning? name = some bound) :
    names.Yields (evaluateOperand (nameIn table name)) (.ok bound) := by
  have yields := names.yields_evaluateVariable (table.variableOf name)
  rw [table.variableOf_name, meaning] at yields
  exact yields

theorem yields_evaluateNothing (none : operands = []) :
    names.Yields (operands.mapM evaluateOperand) (.ok []) := by
  rw [none]
  exact .mapM_nil

/-! ### The body of an opcode whose wide forms trap -/

section Select

variable {function : Definition} {outer frame : Frame} {width : Width} {invocation : Invocation}
  (knows : KnowsPrelude table config unit names) (unbound : Frame.binding? frame "break" = none)

include knows unbound

theorem gives_trapMacro (callee : names.callee? invocation.name = some (trapMacro, frame))
    (operands : invocation.operands = []) :
    names.Gives (invoke limit depth invocation) (· = [trap]) := by
  have bound : bindParameters names.table (trapMacro.parameters.zip []) = .ok [] := rfl
  refine gives_invoke callee (by rw [operands]; rfl)
    (yields_openScope (yields_evaluateNothing operands) bound rfl)
    fun less _ => gives_single _ ⟨.ok [trap], yields_bareInstruction ?_, ?_⟩
  · exact (knows.inFrame _).callee?_eq_none unbound knows.noTrap
  · rintro results ⟨⟩
    rfl

def chosenFor (function : Definition) (outer frame : Frame) : Width → Definition × Frame
  | .narrow => (function, outer)
  | .wide16 | .wide32 => (trapMacro, frame)

/-- What a width gives if the wide forms trap: what the macro for the narrow form expands to, or a
trap. -/
def WantedFor (limit : Int) (names : Expander) (function : Definition) (outer : Frame)
    (width : Width) (results : List Node) : Prop :=
  if width = .narrow then names.MacroExpands limit function outer [] results else results = [trap]

variable (parameterless : function.parameters = []) (plain : names.IsPlainMacro function outer [])
  (within : depth ≤ limit.toNat)

include parameterless plain within

theorem gives_chosen
    (callee : names.callee? invocation.name = some (chosenFor function outer frame width))
    (operands : invocation.operands = []) :
    names.Gives (invoke limit depth invocation) (WantedFor limit names function outer width) := by
  cases width with
  | narrow =>
    exact gives_plainMacro callee (by rw [operands, parameterless]) (yields_evaluateNothing operands)
      plain within
  | wide16 | wide32 => exact gives_trapMacro knows unbound callee operands

/-- The macro that invokes its parameter gives what is chosen for the width. -/
theorem gives_generate (callee : names.callee? invocation.name = some (generateOf table, frame))
    (number : invocation.operands.length = 1)
    (evaluated : names.Yields (invocation.operands.mapM evaluateOperand)
      (.ok [.closure (chosenFor function outer frame width).1
        (chosenFor function outer frame width).2])) :
    names.Gives (invoke limit depth invocation) (WantedFor limit names function outer width) := by
  refine gives_named ["gen"] callee number rfl (by decide) evaluated rfl rfl fun less deeper =>
    gives_single _ ?_
  have within : less ≤ limit.toNat := by omega
  have inside := knows.inFrame (⟨["gen"].zip [.closure (chosenFor function outer frame width).1
    (chosenFor function outer frame width).2], []⟩ :: frame)
  have chosen := inside.callee?_of_bound (show Frame.binding? _ "gen" = some _ from rfl)
  refine gives_bareInvocation (by rw [chosen]; rfl) ?_
  exact gives_chosen inside unbound parameterless plain within chosen rfl

/-- What the selector of a width is given, if the wide forms trap. -/
def choices (table : SymbolTable) (function : Definition) (outer frame : Frame) : List Bound :=
  Width.all.map (fun width => .closure (chosenFor function outer frame width).1
    (chosenFor function outer frame width).2) ++ [.closure (generateOf table) frame]

theorem gives_selector (callee : names.callee? invocation.name = some (selectorOf table width, []))
    (number : invocation.operands.length = 4)
    (evaluated : names.Yields (invocation.operands.mapM evaluateOperand)
      (.ok (choices table function outer frame))) :
    names.Gives (invoke limit depth invocation) (WantedFor limit names function outer width) := by
  refine gives_named (Width.all.map chosen ++ ["k"]) callee number rfl (by decide) evaluated rfl rfl
    fun less deeper => gives_single _ ?_
  have within : less ≤ limit.toNat := by omega
  have inside := knows.inFrame [⟨(Width.all.map chosen ++ ["k"]).zip
    (choices table function outer frame), []⟩]
  rw [Specialization.invocation, expandNode]
  refine gives_generate inside unbound parameterless plain within ?_ rfl ?_
  · exact inside.callee?_of_bound rfl
  · refine .mapM_cons (yields_evaluateName table ?_) .mapM_nil
    exact inside.meaning?_of_bound (by cases width <;> rfl)

/-- The body of an opcode whose wide forms trap gives what the macro for the narrow form expands to,
or a trap. -/
theorem gives_select (callee : names.callee? invocation.name = some (selectOf table, frame))
    (number : invocation.operands.length = 1)
    (evaluated : names.Yields (invocation.operands.mapM evaluateOperand)
      (.ok [.closure (selectorOf table width) []]))
    (bound : Frame.binding? frame "fn" = some (.closure function outer)) :
    names.Gives (invoke limit depth invocation) (WantedFor limit names function outer width) := by
  refine gives_named ["size"] callee number rfl (by decide) evaluated rfl rfl
    fun less deeper => gives_single _ ?_
  have within : less ≤ limit.toNat := by omega
  let scope : Scope Bound := ⟨["size"].zip [.closure (selectorOf table width) []], []⟩
  have inside := knows.inFrame (scope :: frame)
  have unbound : Frame.binding? (scope :: frame) "break" = none := unbound
  rw [Specialization.invocation, expandNode]
  refine gives_selector inside unbound parameterless plain within ?_ rfl ?_
  · exact inside.callee?_of_bound rfl
  · refine .mapM_cons (yields_evaluateName table (inside.meaning?_of_bound bound)) ?_
    refine .mapM_cons (yields_evaluateMacro _ _ _ _) (.mapM_cons (yields_evaluateMacro _ _ _ _) ?_)
    exact .mapM_cons (yields_evaluateMacro _ _ _ _) .mapM_nil

end Select

/-! ### The entry points of an opcode -/

/-- Whether some statements are the entry points of an opcode for some widths, and their labels are
defined in a table. -/
def LaysOut (config : Configuration) (opcode : String) (widths : List Width)
    (prologue : List Node) (bodies : Width → List Node) (results : List Node)
    (table : SymbolTable) : Prop :=
  ∃ marks : List Label,
    marks.map (·.name) = widths.map (fun width => width.labelName ("_" ++ opcode)) ∧
      results = (widths.zip marks).flatMap (fun entry =>
        .label entry.2 :: (prologue ++ (bodies entry.1 ++ foldedTrailer config))) ∧
      ∀ mark ∈ marks, table.IsDefined mark.name

section Entries

variable {name : Variable} {state : Expander}

theorem joinTexts_texts (texts : List String) :
    joinTexts "" (texts.map .text) = .ok ("".intercalate texts) := by
  have whole : ∀ position, textsFrom position (texts.map .text) = .ok texts := by
    induction texts with
    | nil => exact fun _ => rfl
    | cons text rest ih =>
      intro position
      rw [map_cons, textsFrom, ih]
      rfl
  rw [joinTexts, whole]
  rfl

theorem interpolate_entry (meaning : state.meaning? "label" = some (.operand (.var name)))
    (node : Node) (width : Width) : state.interpolate node (width.labelName commonLabel) =
      .ok (width.labelName ("_" ++ name.name)) := by
  let suffixes : List String := if width = .narrow then [] else [width.suffix]
  have pieces : Template.pieces (width.labelName commonLabel) =
      .literal "_" :: .parameter "label" :: suffixes.map .literal := by
    cases width <;> decide
  have values : (Template.pieces (width.labelName commonLabel)).mapM (state.pieceValue node) =
      .ok ((["_", name.name] ++ suffixes).map .text) := by
    have parameter : state.pieceValue node (.parameter "label") = .ok (.text name.name) := by
      rw [pieceValue, meaning]
      rfl
    have literal : ∀ text, state.pieceValue node (.literal text) = .ok (.text text) := fun _ => rfl
    rw [pieces, mapM_cons, mapM_cons, parameter, literal]
    cases width <;> rfl
  rw [interpolate, values]
  refine (joinTexts_texts _).trans ?_
  cases width <;> simp [suffixes, Width.labelName, Width.suffix, String.append_assoc]

theorem expandNode_entryLabel {invoke : Invocation → Expand (List Node)}
    (meaning : state.meaning? "label" = some (.operand (.var name))) (width : Width) :
    ∃ origin, (expandNode invoke (.label (table.labelOf (width.labelName commonLabel)))).perform
        state =
      (.ok [.label (state.table.defineLabel (width.labelName ("_" ++ name.name)) origin).1],
        { state with
          table := (state.table.defineLabel (width.labelName ("_" ++ name.name)) origin).2 }) := by
  refine ⟨(table.labelOf (width.labelName commonLabel)).origin, ?_⟩
  rw [expandNode, expandLabel, SymbolTable.labelOf]
  dsimp only
  rw [if_pos (isTemplate_entry width)]
  simp only [perform_bind, perform_get, interpolate_entry meaning, perform_lift]
  rfl

theorem yields_trailer {invoke : Invocation → Expand (List Node)}
    (noTrap : names.callee? "break" = none) :
    names.Yields (expandItems invoke (foldedTrailer config)) (.ok (foldedTrailer config)) := by
  have traps : names.Yields (expandNode invoke trap) (.ok [trap]) := yields_bareInstruction noTrap
  unfold foldedTrailer
  split
  · exact yields_cons traps (yields_cons traps yields_nil)
  · exact yields_nil

def contents (outcome : Checked (List Node)) : List Node := outcome.toOption.getD []

/-- Expanding the entry points one after the other lays them out: what comes in between the labels
depends on names only, and the labels are the only thing that is added to the table. -/
theorem entries_ok {prologue : Checked (List Node)} {bodies : Width → Checked (List Node)}
    (meaning : names.meaning? "label" = some (.operand (.var name)))
    (noTrap : names.callee? "break" = none) (ofPrologue : names.Yields
      (expandNode (invoke limit depth) (bareInstruction preludePlace "prologue")) prologue)
    (ofBodies : ∀ width : Width, names.Yields (expandNode (invoke limit depth)
      (invocation preludePlace "fn" [nameIn table width.selector])) (bodies width))
    (widths : List Width) : ∀ {state results after}, state.HasNames names →
      (expandItems (invoke limit depth) (widths.flatMap (foldedEntry table config))).perform
        state = (.ok results, after) →
      LaysOut config name.name widths (contents prologue) (contents <| bodies ·) results
          after.table ∧ (∀ width ∈ widths, prologue = .ok (contents prologue) ∧
          bodies width = .ok (contents (bodies width))) ∧
        ∀ label, state.table.IsDefined label → after.table.IsDefined label := by
  induction widths with
  | nil =>
    intro state results after has ran
    cases ran
    exact ⟨⟨[], rfl, rfl, by simp⟩, by simp, fun _ kept => kept⟩
  | cons width rest ih =>
    intro state results after has ran
    rw [flatMap_cons, foldedEntry, cons_append, cons_append, cons_append] at ran
    obtain ⟨_, labelled, _, expandsLabel, afterLabel, rfl⟩ := expandItems_cons_ok ran
    obtain ⟨_, prepared, _, expandsPrologue, afterPrologue, rfl⟩ := expandItems_cons_ok afterLabel
    obtain ⟨_, done, _, expandsBody, afterBody, rfl⟩ := expandItems_cons_ok afterPrologue
    obtain ⟨_, trailed, others, expandsTrailer, expandsRest, rfl⟩ := expandItems_append_ok afterBody
    obtain ⟨origin, defines⟩ := expandNode_entryLabel (has.meaning? ▸ meaning) width
    rw [defines] at expandsLabel
    cases expandsLabel
    generalize defining : state.table.defineLabel (width.labelName ("_" ++ name.name)) origin =
      definition at *
    have hasLabelled : Expander.HasNames { state with table := definition.2 } names :=
      ⟨has.macros, has.constants, has.root, has.frame⟩
    obtain ⟨rfl, hasPrepared, samePrepared⟩ := ofPrologue.ok hasLabelled expandsPrologue
    obtain ⟨bodyIs, hasDone, sameDone⟩ := (ofBodies width).ok hasPrepared expandsBody
    obtain ⟨trailerIs, hasTrailed, sameTrailed⟩ := (yields_trailer noTrap).ok hasDone expandsTrailer
    cases trailerIs
    obtain ⟨⟨marks, marksNamed, rfl, defined⟩, succeed, kept⟩ :=
      ih hasTrailed expandsRest
    have sameTable : trailed.table = definition.2 :=
      sameTrailed.trans (sameDone.trans samePrepared)
    have named : definition.1.name = width.labelName ("_" ++ name.name) := by
      rw [← defining, SymbolTable.defineLabel_name]
    have definedAfter : ∀ label, state.table.IsDefined label ∨ label = definition.1.name →
        after.table.IsDefined label := by
      intro label known
      refine kept label ?_
      rw [sameTable, ← defining, SymbolTable.isDefined_defineLabel]
      rwa [named] at known
    refine ⟨⟨definition.1 :: marks, ?_, ?_, ?_⟩, ?_,
      fun label known => definedAfter label (.inl known)⟩
    · rw [map_cons, map_cons, marksNamed, named]
    · simp only [zip_cons_cons, flatMap_cons, bodyIs, cons_append, append_assoc]
      rfl
    · rw [forall_mem_cons]
      exact ⟨definedAfter _ (.inr rfl), defined⟩
    · rw [forall_mem_cons]
      exact ⟨⟨rfl, by rw [bodyIs]; rfl⟩, succeed⟩

end Entries

theorem localLabels_commonOf : (commonOf table config).body.localLabels = [] := by
  rw [commonOf, Node.localLabels, Node.localLabelsOf_eq_nil]
  intro item mem
  obtain ⟨width, -, inEntry⟩ := mem_flatMap.mp mem
  simp only [foldedEntry, foldedTrailer, mem_cons] at inEntry
  rcases inEntry with rfl | rfl | rfl | inTrailer
  · rfl
  · rfl
  · rfl
  · split at inTrailer
    · rcases mem_pair.mp inTrailer with rfl | rfl <;> rfl
    · cases inTrailer

def commonScope (name : Variable) (prologue body : Bound) : Scope Bound :=
  ⟨["label", "prologue", "fn"].zip [.operand (.var name), prologue, body], []⟩

/-- The macro that lays out the entry points of an opcode expands to them, if what is invoked for
the prologue and for the widths depends on names only. -/
theorem common_ok (wantedPrologue : List Node → Prop) (wantedBody : Width → List Node → Prop)
    {name : Variable} {state after : Expander} {invocation : Invocation}
    {prologue body : Definition} {prologueFrame bodyFrame : Frame} {results : List Node}
    (knows : KnowsPrelude table config unit names) (has : state.HasNames names)
    (callee : names.callee? invocation.name = some (commonOf table config, []))
    (evaluated : names.Yields (invocation.operands.mapM evaluateOperand)
      (.ok [.operand (.var name), .closure prologue prologueFrame, .closure body bodyFrame]))
    (givesPrologue : ∀ frame, ∀ less ≤ limit.toNat, ∀ invoked : Invocation,
      { names with frame := frame }.callee? invoked.name = some (prologue, prologueFrame) →
      invoked.operands = [] →
        { names with frame := frame }.Gives (invoke limit less invoked) wantedPrologue)
    (givesBody : ∀ frame, ∀ width, ∀ less ≤ limit.toNat, ∀ invoked : Invocation,
      { names with frame := frame }.callee? invoked.name = some (body, bodyFrame) →
      invoked.operands.length = 1 →
      { names with frame := frame }.Yields (invoked.operands.mapM evaluateOperand)
        (.ok [.closure (selectorOf table width) []]) →
        { names with frame := frame }.Gives (invoke limit less invoked) (wantedBody width))
    (within : depth ≤ limit.toNat)
    (ran : (invoke limit depth invocation).perform state = (.ok results, after)) :
    ∃ prologue bodies, wantedPrologue prologue ∧ (∀ width, wantedBody width (bodies width)) ∧
      LaysOut config name.name Width.all prologue bodies results after.table := by
  let scope := commonScope name (.closure prologue prologueFrame) (.closure body bodyFrame)
  have opens : names.Yields (openScope (commonOf table config) invocation) (.ok scope) :=
    yields_openNamed rfl (by decide) evaluated rfl localLabels_commonOf
  obtain ⟨less, entered, inside, rfl, hasEntered, expanded, sameTable⟩ :=
    invoke_inside has callee opens ran
  have within : less ≤ limit.toNat := by omega
  have knowsInside := knows.inFrame [scope]
  have isPrologue := knowsInside.callee?_of_bound (show Frame.binding? _ "prologue" = some _ from rfl)
  have isBody := knowsInside.callee?_of_bound (show Frame.binding? _ "fn" = some _ from rfl)
  have noTrap := knowsInside.callee?_eq_none (show Frame.binding? _ "break" = none from rfl)
    knows.noTrap
  obtain ⟨first, ofPrologue, prologueHolds⟩ := gives_bareInvocation (by rw [isPrologue]; rfl)
    (givesPrologue [scope] less within
      ⟨"prologue", .text "prologue", [], bareInstruction preludePlace "prologue"⟩ isPrologue rfl)
  have ofBody : ∀ width, Expander.Gives { names with frame := [scope] }
      (expandNode (invoke limit less) (Specialization.invocation preludePlace "fn"
        [nameIn table width.selector])) (wantedBody width) := by
    intro width
    rw [Specialization.invocation, expandNode]
    refine givesBody [scope] width less within _ isBody rfl
      (.mapM_cons (yields_evaluateName table ?_) .mapM_nil)
    exact knowsInside.meaning?_of_macro (by cases width <;> rfl) (knows.selector width)
      (knows.noConstant width)
  choose bodies ofBodies bodiesHold using ofBody
  rw [commonOf, expandNode] at expanded
  obtain ⟨laysOut, succeed, -⟩ := entries_ok (knowsInside.meaning?_of_bound rfl) noTrap ofPrologue
    ofBodies Width.all hasEntered expanded
  rw [sameTable]
  refine ⟨contents first, (contents <| bodies ·), ?_, fun width => ?_, laysOut⟩
  · exact prologueHolds _ (succeed .narrow (by decide)).1
  · exact bodiesHold width _ (succeed width (by cases width <;> decide)).2

theorem gives_emptyMacro {invocation : Invocation} {frame : Frame}
    (callee : names.callee? invocation.name = some (emptyMacro, frame))
    (operands : invocation.operands = []) :
    names.Gives (invoke limit depth invocation) (· = []) := by
  have bound : bindParameters names.table (emptyMacro.parameters.zip []) = .ok [] := rfl
  refine gives_invoke callee (by rw [operands]; rfl)
    (yields_openScope (yields_evaluateNothing operands) bound rfl) fun less _ => ⟨.ok [], ?_, ?_⟩
  · rw [emptyMacro, expandNode]
    exact yields_nil
  · rintro results ⟨⟩
    rfl

theorem narrow_ok {name : Variable} {state after : Expander} {invocation : Invocation}
    {function : Definition} {outer : Frame} {results : List Node}
    (knows : KnowsPrelude table config unit names) (has : state.HasNames names)
    (callee : names.callee? invocation.name = some (narrowOf table, []))
    (evaluated : names.Yields (invocation.operands.mapM evaluateOperand)
      (.ok [.operand (.var name), .closure function outer]))
    (parameterless : function.parameters = []) (plain : names.IsPlainMacro function outer [])
    (within : depth ≤ limit.toNat)
    (ran : (invoke limit depth invocation).perform state = (.ok results, after)) :
    ∃ items, names.MacroExpands limit function outer [] items ∧
      LaysOut config name.name Width.all []
        (fun width => if width = .narrow then items else [trap]) results after.table := by
  let scope : Scope Bound := ⟨["l", "fn"].zip [.operand (.var name), .closure function outer], []⟩
  have opens : names.Yields (openScope (narrowOf table) invocation) (.ok scope) :=
    yields_openNamed rfl (by decide) evaluated rfl rfl
  obtain ⟨less, entered, inside, rfl, hasEntered, expanded, sameTable⟩ :=
    invoke_inside has callee opens ran
  have within : less ≤ limit.toNat := by omega
  have knowsInside := knows.inFrame [scope]
  rw [narrowOf, expandNode] at expanded
  obtain ⟨laidOut, _, _, lays, ends, rfl⟩ := expandItems_cons_ok expanded
  cases ends
  rw [append_nil, sameTable]
  have isCommon := knowsInside.callee?_of_macro (show Frame.binding? _ "commonOp" = none from rfl)
    knows.common
  -- The two macros that are passed on are written in the scope of this one.
  have passed := (yields_evaluateName table (knowsInside.meaning?_of_bound
    (show Frame.binding? _ "l" = some _ from rfl))).mapM_cons
      ((yields_evaluateMacro preludePlace .null [] emptyMacro.body).mapM_cons
        ((yields_evaluateMacro preludePlace .null (selectOf table).parameters
          (selectOf table).body).mapM_cons .mapM_nil))
  obtain ⟨prologue, bodies, rfl, bodiesHold, laysOut⟩ := common_ok (· = [])
    (WantedFor limit names function outer) knowsInside hasEntered isCommon passed
    (fun _ _ _ _ isEmpty operands => gives_emptyMacro isEmpty operands)
    (fun frame width _ within _ isSelect number evaluated =>
      gives_select (knows.inFrame frame) rfl parameterless plain within isSelect number evaluated rfl)
    within lays
  refine ⟨bodies .narrow, bodiesHold .narrow, ?_⟩
  have same : bodies = fun width => if width = .narrow then bodies .narrow else [trap] := by
    funext width
    cases width with
    | narrow => rfl
    | wide16 => exact bodiesHold .wide16
    | wide32 => exact bodiesHold .wide32
  rwa [same] at laysOut

/-! ### The opcode macros of a unit -/

section Units

variable {tree statement : Node} {counts : FoldCounts} {start : SymbolTable}
  {before after : Expander} {results : List Node}

theorem knowsPrelude_of_part (defined : ∀ definition ∈ macrosIn table, definition ∈ tree.statements)
    (folds : tree.foldedWith config = .ok (unit, counts)) (noTrap : ¬ unit.DefinesMacro "break")
    (noConstant : ∀ width : Width, ¬ unit.DeclaresConstant width.selector)
    (part : ExpandsPart limit { table := start } unit statement before results after) :
    before.frame = [] ∧ KnowsPrelude table config unit before := by
  have folds := foldedWith_ok.mp folds
  obtain ⟨outside, knows⟩ := part.knowsUnit (Folding.settled_fold tree _ _ _ folds)
  obtain ⟨selectors, common, narrow⟩ := mem_folded_prelude ⟨_, _, folds⟩ defined
  exact ⟨outside, knows, fun width => knows.collected _ _ rfl (selectors width),
    knows.collected _ _ rfl common, knows.collected _ _ rfl narrow, noTrap, noConstant⟩

theorem invoked_of_part {name : String}
    (part : ExpandsPart limit { table := start } unit statement before results after)
    (outside : before.frame = []) (knows : before.KnowsUnit unit)
    (found : before.findMacro? (.text name) = some definition)
    (invokes : statement.Invokes name operands) :
    before.callee? name = some (definition, []) ∧ ∃ shown,
      (invoke limit limit.toNat ⟨name, shown, operands, statement⟩).perform before =
        (.ok results, after) := by
  have callee := knows.callee?_of_macro (by rw [outside]; rfl) found
  obtain ⟨-, -, -, expands⟩ := part
  obtain ⟨shown, same⟩ := expandNode_invokes invokes (by rw [callee]; rfl)
  exact ⟨callee, shown, same.symm.trans expands⟩

/-- The macros of the prelude lay out the entry points of an opcode. In a unit with the prelude, in
which `break` is no macro and the selectors are no constants, let a name be neither a macro nor a
constant. With this name, a macro without parameters and a macro with one parameter, `commonOp`
expands to the three entry points with what the first macro expands to as the prologue and with
what the second one expands to for the selector of the width. With this name and a macro without
parameters, `op` expands to entry points without a prologue, of which the narrow one has what the
macro expands to and each of the others has a trap. -/
theorem prelude_entryPoints {name : Variable}
    (defined : ∀ definition ∈ macrosIn table, definition ∈ tree.statements)
    (folds : tree.foldedWith configuration = .ok (unit, counts))
    (noTrap : ¬ unit.DefinesMacro "break")
    (noConstant : ∀ width : Width, ¬ unit.DeclaresConstant width.selector)
    (undefined : ¬ unit.DefinesMacro name.name) (undeclared : ¬ unit.DeclaresConstant name.name)
    (part : ExpandsPart limit { table := start } unit statement before results after) :
    (∀ first second prologue body,
      statement.Invokes "commonOp" [.var name, first, second] →
      unit.GivesMacro first prologue → unit.GivesMacro second body →
      prologue.parameters = [] → body.parameters.length = 1 →
      before.IsPlainMacro prologue [] [] →
      (∀ width, before.IsPlainMacro body [] [.closure (selectorOf table width) []]) →
      ∃ items bodies, before.MacroExpands limit prologue [] [] items ∧
        (∀ width, before.MacroExpands limit body [] [.closure (selectorOf table width) []]
          (bodies width)) ∧
        LaysOut configuration name.name Width.all items bodies results after.table) ∧
    (∀ operand function,
      statement.Invokes "op" [.var name, operand] → unit.GivesMacro operand function →
      function.parameters = [] → before.IsPlainMacro function [] [] →
      ∃ items, before.MacroExpands limit function [] [] items ∧
        LaysOut configuration name.name Width.all []
          (fun width => if width = .narrow then items else [trap]) results after.table) := by
  obtain ⟨outside, knows⟩ := knowsPrelude_of_part defined folds noTrap noConstant part
  have evaluatesName : before.Yields (evaluateOperand (.var name)) (.ok (.operand (.var name))) := by
    have yields := before.yields_evaluateVariable name
    rwa [knows.meaning?_eq_none (by rw [outside]; rfl) undefined undeclared] at yields
  constructor
  · intro first second prologue body invokes ofFirst ofSecond noParameters oneParameter plainPrologue
      plainBody
    obtain ⟨callee, shown, succeeded⟩ := invoked_of_part part outside knows.toKnowsUnit knows.common
      invokes
    have evaluated := evaluatesName.mapM_cons ((knows.yields_of_givesMacro outside ofFirst).mapM_cons
      ((knows.yields_of_givesMacro outside ofSecond).mapM_cons .mapM_nil))
    refine common_ok _ _ knows (.refl before) callee evaluated ?_ ?_ le_rfl succeeded
    · intro frame less within invoked isPrologue operands
      exact gives_plainMacro isPrologue (by rw [operands, noParameters])
        (yields_evaluateNothing operands) plainPrologue within
    · intro frame width less within invoked isBody number evaluated
      exact gives_plainMacro isBody (number.trans oneParameter.symm) evaluated (plainBody width) within
  · intro operand function invokes gives noParameters plain
    obtain ⟨callee, shown, succeeded⟩ := invoked_of_part part outside knows.toKnowsUnit knows.narrow
      invokes
    have evaluated := evaluatesName.mapM_cons
      ((knows.yields_of_givesMacro outside gives).mapM_cons .mapM_nil)
    exact narrow_ok knows (.refl before) callee evaluated noParameters plain le_rfl succeeded

end Units

end Specialization

/-! ### Two opcodes -/

namespace Expander

variable {state : Expander}

theorem StaysPlain.of_invocation {statement : Node} {invocation : Invocation}
    (plain : statement.IsPlain) (makes : ∀ other, statement.Makes other → other = invocation)
    (callee : state.callee? invocation.name = some (definition, captured))
    (opens : state.Yields (openScope definition invocation) (.ok scope))
    (inside : { state with frame := scope :: captured }.StaysPlain definition.body) :
    state.StaysPlain (.sequence origin [statement]) := by
  have only : ∀ other, (Node.sequence origin [statement]).Makes other → other = invocation := by
    rintro other ⟨⟩
    rename_i item mem within
    obtain rfl := mem_singleton.mp mem
    exact makes other within
  refine ⟨.sequence (forall_mem_singleton.mpr plain), fun reached reaches => ?_⟩
  cases reaches with
  | here makesOther calleeOther =>
    rw [only _ makesOther, callee] at calleeOther
    cases calleeOther
    exact inside.own
  | inside makesOther calleeOther opensOther reaches =>
    obtain rfl := only _ makesOther
    rw [callee] at calleeOther
    cases calleeOther
    obtain ⟨same, -, -⟩ := opens.ok (.refl state) opensOther
    cases same
    exact inside.reached _ reaches

theorem StaysPlain.of_instruction {place : Origin} {comment : Value}
    (plain : (Node.instruction origin opcode operands comment).IsPlain)
    (unknown : state.callee? opcode = none) :
    state.StaysPlain (.sequence place [.instruction origin opcode operands comment]) := by
  have only : ∀ other, (Node.sequence place [.instruction origin opcode operands comment]).Makes
      other → state.callee? other.name = none := by
    rintro other ⟨⟩
    rename_i item mem within
    obtain rfl := mem_singleton.mp mem
    cases within
    exact unknown
  refine ⟨.sequence (forall_mem_singleton.mpr plain), fun reached reaches => ?_⟩
  cases reaches with
  | here makes callee | inside makes callee =>
    rw [only _ makes] at callee
    cases callee

end Expander

namespace Laying

open Action Expander Folding Node Specialization

def table : SymbolTable := ((prelude none).perform .empty).2

def moves (source : String) : Definition :=
  ⟨.nowhere, .null, [], .sequence .nowhere [.instruction .nowhere "move"
    [Finishing.register source, Finishing.register "t0"] .null]⟩

def register : Width → String
  | .narrow => "t1"
  | .wide16 => "t2"
  | .wide32 => "t3"

def enter : Definition :=
  ⟨.nowhere, .text "enter", [], .sequence .nowhere [bareInstruction .nowhere "nop"]⟩

def generate : Definition :=
  ⟨.nowhere, .null, [Finishing.named "g"], .sequence .nowhere [bareInstruction .nowhere "g"]⟩

def alternatives : List Node :=
  Width.all.map (fun width => (moves (register width)).node) ++ [generate.node]

def byWidth : Definition :=
  ⟨.nowhere, .null, [Finishing.named "size"],
    .sequence .nowhere [invocation .nowhere "size" alternatives]⟩

def add : Variable := ⟨.nowhere, "add", .null⟩

def ret : Variable := ⟨.nowhere, "ret", .null⟩

def addStatement : Node :=
  invocation .nowhere "commonOp" [.var add, Finishing.named "enter", byWidth.node]

def retStatement : Node := invocation .nowhere "op" [.var ret, (moves "t4").node]

def configuration : Configuration := ⟨.arm64, [("ASSERT_ENABLED", true)], [], []⟩

def tree (table : SymbolTable) : Node :=
  .sequence .nowhere (macrosIn table ++ [enter.node, addStatement, retStatement])

def unit (table : SymbolTable) : Node :=
  .sequence .nowhere (Width.all.map (selectorIn table) ++
    [(commonOf table configuration).node, narrowIn table, enter.node, addStatement, retStatement])

def shown : Checked (List String) := do
  let result ← ((expand defaultLimit (unit table)).perform { table := table }).1
  result.statements.mapM dump

def laidOut : List String := [
  "_add:", "\tnop", "\tmove t1, t0", "\tbreak", "\tbreak",
  "_add_wide16:", "\tnop", "\tmove t2, t0", "\tbreak", "\tbreak",
  "_add_wide32:", "\tnop", "\tmove t3, t0", "\tbreak", "\tbreak",
  "_ret:", "\tmove t4, t0", "\tbreak", "\tbreak",
  "_ret_wide16:", "\tbreak", "\tbreak", "\tbreak",
  "_ret_wide32:", "\tbreak", "\tbreak", "\tbreak"]

-- Only the macro that lays out the entry points holds a condition, so the items are folded apart.
theorem folds (table : SymbolTable) :
    (tree table).foldedWith configuration = .ok (unit table, ⟨3, 0⟩) := by
  have common : (fold configuration (commonIn table)).perform {} =
      (.ok (commonOf table configuration).node, ⟨3, 0⟩) := by
    obtain ⟨origin, setting⟩ := table.exists_settingOf "ASSERT_ENABLED"
    unfold commonIn entryIn trailerIn
    rw [setting]
    rfl
  have selector : ∀ width, (fold configuration (selectorIn table width)).perform {} =
      (.ok (selectorIn table width), {}) := fun _ => rfl
  have others : ∀ stmt ∈ [narrowIn table, enter.node, addStatement, retStatement],
      (fold configuration stmt).perform ⟨3, 0⟩ = (.ok stmt, ⟨3, 0⟩) := by
    simp only [forall_mem_cons]
    exact ⟨rfl, rfl, rfl, rfl, forall_mem_nil _⟩
  have all := perform_mapM_cons_ok.mpr ⟨_, _, _, selector .narrow, perform_mapM_cons_ok.mpr
    ⟨_, _, _, selector .wide16, perform_mapM_cons_ok.mpr ⟨_, _, _, selector .wide32,
      perform_mapM_cons_ok.mpr ⟨_, _, _, common, perform_mapM_self others, rfl⟩, rfl⟩, rfl⟩, rfl⟩
  rw [foldedWith_ok, tree, fold, foldItems_eq_mapM]
  exact perform_bind_ok.mpr ⟨_, _, perform_bind_ok.mpr ⟨_, _, all, rfl⟩, rfl⟩

def macroNames (statements : List Node) : List Value :=
  statements.filterMap fun
    | .definition _ name _ _ => some name
    | _ => none

variable {name : String}

theorem undefined_unit (other : name ∉ ["narrow", "wide16", "wide32", "commonOp", "op", "enter"]) :
    ¬ (unit table).DefinesMacro name := by
  rintro ⟨origin, parameters, body, mem⟩
  have named : Value.text name ∈ macroNames (unit table).statements :=
    mem_filterMap.mpr ⟨_, mem, rfl⟩
  have names : macroNames (unit table).statements =
      ["narrow", "wide16", "wide32", "commonOp", "op", "enter"].map .text := rfl
  rw [names] at named
  obtain ⟨_, known, same⟩ := mem_map.mp named
  cases same
  exact other known

theorem undeclared_unit (name : String) : ¬ (unit table).DeclaresConstant name := by
  rintro ⟨origin, binding, value, mem, -⟩
  have none : (unit table).statements.filter isConstant = [] := rfl
  have constant : .constant origin binding value ∈ (unit table).statements.filter isConstant :=
    mem_filter.mpr ⟨mem, rfl⟩
  rw [none] at constant
  cases constant

theorem not_usesTemplate_definition (definition : Definition) : ¬ definition.node.UsesTemplate := by
  intro uses
  cases uses with
  | part outside => cases outside

theorem not_usesTemplate_leaf {node : Node} (leaf : node.children = [])
    (other : node.isReference = false) : ¬ node.UsesTemplate := by
  intro uses
  cases uses with
  | reference => cases other
  | part _ mem =>
    rw [leaf] at mem
    cases mem

theorem isPlain_instruction (free : ∀ operand ∈ operands, ¬ operand.UsesTemplate) :
    (Node.instruction .nowhere opcode operands .null).IsPlain := by
  refine .single rfl rfl rfl fun uses => ?_
  cases uses with
  | part _ mem uses => exact free _ mem uses

theorem isPlain_invocation (free : ∀ operand ∈ operands, ¬ operand.UsesTemplate) :
    (invocation origin name operands).IsPlain := by
  refine .single rfl rfl rfl fun uses => ?_
  cases uses with
  | part _ mem uses => exact free _ mem uses

theorem makes_invocation : ∀ other, (invocation origin name operands).Makes other →
      other = ⟨name, .text name, operands, invocation origin name operands⟩ := by
  rintro other ⟨⟩
  rfl

theorem makes_bareInstruction : ∀ other, (bareInstruction origin opcode).Makes other →
      other = ⟨opcode, .text opcode, [], bareInstruction origin opcode⟩ := by
  rintro other ⟨⟩
  rfl

section Plain

variable {before : Expander}

theorem staysPlain_moves {frame : Frame} (knows : before.KnowsUnit (unit table)) (source : String)
    (unbound : Frame.binding? frame "move" = none) :
    { before with frame := frame }.StaysPlain (moves source).body := by
  refine .of_instruction (isPlain_instruction fun operand mem => ?_)
    ((knows.inFrame frame).callee?_eq_none unbound (undefined_unit (by decide)))
  rcases mem_pair.mp mem with rfl | rfl <;> exact not_usesTemplate_leaf rfl rfl

theorem isPlainMacro_moves (knows : before.KnowsUnit (unit table)) (source : String) :
    before.IsPlainMacro (moves source) [] [] := by
  rintro bindings ⟨⟩
  exact staysPlain_moves knows source rfl

theorem isPlainMacro_enter (knows : before.KnowsUnit (unit table)) :
    before.IsPlainMacro enter [] [] := by
  rintro bindings ⟨⟩
  exact .of_instruction (isPlain_instruction (by simp))
    ((knows.inFrame _).callee?_eq_none rfl (undefined_unit (by decide)))

-- The selector is opened first, then the macro that invokes what was selected, then that.
theorem isPlainMacro_byWidth (knows : before.KnowsUnit (unit table)) (width : Width) :
    before.IsPlainMacro byWidth [] [.closure (selectorOf table width) []] := by
  rintro bindings ⟨⟩
  let outer : Frame := [⟨[("size", .closure (selectorOf table width) [])], []⟩]
  let choices : List Bound :=
    Width.all.map (fun width => .closure (moves (register width)) outer) ++ [.closure generate outer]
  let selecting : Frame := [⟨(Width.all.map chosen ++ ["k"]).zip choices, []⟩]
  let generating : Frame := ⟨["g"].zip [.closure (moves (register width)) outer], []⟩ :: outer
  have inSelecting := knows.inFrame selecting
  have passes : Yields { before with frame := outer } (alternatives.mapM evaluateOperand)
      (.ok choices) :=
    .mapM_cons (yields_evaluateMacro _ _ _ _) <| .mapM_cons (yields_evaluateMacro _ _ _ _) <|
      .mapM_cons (yields_evaluateMacro _ _ _ _) <|
        .mapM_cons (yields_evaluateMacro _ _ _ _) .mapM_nil
  have selects : Yields { before with frame := selecting }
      ([nameIn table (chosen width)].mapM evaluateOperand)
      (.ok [.closure (moves (register width)) outer]) :=
    .mapM_cons (yields_evaluateName table (inSelecting.meaning?_of_bound (by cases width <;> rfl)))
      .mapM_nil
  have free : ∀ operand ∈ alternatives, ¬ operand.UsesTemplate := by
    simp [alternatives, Width.all, not_usesTemplate_definition]
  refine .of_invocation (isPlain_invocation free) makes_invocation
    ((knows.inFrame outer).callee?_of_bound rfl)
    (yields_openNamed (show _ = (Width.all.map chosen ++ ["k"]).map (nameIn table) from rfl)
      (by decide) passes rfl rfl) ?_
  refine .of_invocation
    (isPlain_invocation (forall_mem_singleton.mpr (not_usesTemplate_leaf rfl rfl)))
    makes_invocation (inSelecting.callee?_of_bound rfl)
    (yields_openNamed (show _ = ["g"].map (nameIn .empty) from rfl) (by decide) selects rfl rfl) ?_
  refine .of_invocation (isPlain_instruction (by simp)) makes_bareInstruction
    ((knows.inFrame generating).callee?_of_bound rfl)
    (yields_openScope (yields_evaluateNothing rfl) rfl rfl) ?_
  exact staysPlain_moves knows _ rfl

end Plain

end Laying

namespace Specialization

open Expander Laying Node

/-- The two opcodes are laid out with their entry points. -/
theorem prelude_entryPoints_opcodes :
    (tree table).foldedWith configuration = .ok (unit table, ⟨3, 0⟩) ∧ shown = .ok laidOut ∧
      (∃ before results after items bodies,
        ExpandsPart defaultLimit { table := table } (unit table) addStatement before results after ∧
        before.MacroExpands defaultLimit enter [] [] items ∧
        (∀ width, before.MacroExpands defaultLimit byWidth [] [.closure (selectorOf table width) []]
          (bodies width)) ∧
        LaysOut configuration "add" Width.all items bodies results after.table) ∧
      ∃ before results after items,
        ExpandsPart defaultLimit { table := table } (unit table) retStatement before results after ∧
        before.MacroExpands defaultLimit (moves "t4") [] [] items ∧
        LaysOut configuration "ret" Width.all []
          (fun width => if width = .narrow then items else [trap]) results after.table := by
  have defined : ∀ definition ∈ macrosIn table, definition ∈ (tree table).statements :=
    fun definition member => List.mem_append_left [enter.node, addStatement, retStatement] member
  have stands : ∀ statement ∈ [enter.node, addStatement, retStatement],
      statement ∈ (unit table).statements :=
    fun statement member => List.mem_append_right (Width.all.map (selectorIn table) ++
      [(commonOf table configuration).node, narrowIn table]) member
  have noTrap : ¬ (unit table).DefinesMacro "break" := undefined_unit (by decide)
  have noConstant : ∀ width : Width, ¬ (unit table).DeclaresConstant width.selector :=
    fun width => undeclared_unit width.selector
  have texts : shown = .ok laidOut := by decide +kernel
  refine ⟨folds table, texts, ?_⟩
  simp only [shown, Checked.bind_ok] at texts
  obtain ⟨result, succeeded, -⟩ := texts
  constructor
  · obtain ⟨before, results, after, _, _, part, -⟩ := exists_expandsPart
      (Action.perform_of_fst succeeded) (stands addStatement (by simp)) rfl
    obtain ⟨-, knows⟩ := knowsPrelude_of_part defined (folds table) noTrap noConstant part
    obtain ⟨common, -⟩ := prelude_entryPoints defined (folds table) noTrap noConstant
      (show ¬ (unit table).DefinesMacro add.name from undefined_unit (by decide))
      (undeclared_unit _) part
    obtain ⟨items, bodies, expands⟩ := common _ _ enter byWidth (.call _ _ _)
      (.global (stands _ List.mem_cons_self) rfl (undeclared_unit _)) (.anonymous byWidth) rfl rfl
      (isPlainMacro_enter knows.toKnowsUnit) (isPlainMacro_byWidth knows.toKnowsUnit)
    exact ⟨before, results, after, items, bodies, part, expands⟩
  · obtain ⟨before, results, after, _, _, part, -⟩ := exists_expandsPart
      (Action.perform_of_fst succeeded) (stands retStatement (by simp)) rfl
    obtain ⟨-, knows⟩ := knowsPrelude_of_part defined (folds table) noTrap noConstant part
    obtain ⟨-, narrow⟩ := prelude_entryPoints defined (folds table) noTrap noConstant
      (show ¬ (unit table).DefinesMacro ret.name from undefined_unit (by decide))
      (undeclared_unit _) part
    obtain ⟨items, expands⟩ := narrow _ (moves "t4") (.call _ _ _) (.anonymous _) rfl
      (isPlainMacro_moves knows.toKnowsUnit "t4")
    exact ⟨before, results, after, items, part, expands⟩

end Specialization

end MacroAssembler
