/-
This module proves that macro expansion depends neither on locations nor on macros for which a unit
never asks.

Expansion looks names up in four places: a variable, the opcode of an instruction, the name of an
invocation, and the parameters of a label template. An operand that was resolved is never looked at
again, and a macro that is bound has its body as it was written, so wherever expansion has come to,
it asks only for names that stand somewhere in the unit.

A run is compared with what is left of it when locations are forgotten, and with them the macros of
some hidden names that the unit spares. How much is forgotten about traps and about the symbol table
is left open, and so is which failures count as alike. Every look-up then finds in the one run what
is left of what it finds in the other one, and so every step gives what is left of the result.
-/
import MacroAssembler.Proofs.DeclaredNames
import MacroAssembler.Proofs.PlacelessFolding
import MacroAssembler.Proofs.RelatedScopes
import MacroAssembler.Proofs.TableIndependence

namespace MacroAssembler

open List Node

/-! ### Names that are looked up -/

def TemplatePiece.parameter? : TemplatePiece → Option String
  | .parameter name => some name
  | .literal _ => none

namespace Node

/-- The names that are looked up at a node: the name of a variable, an opcode, the name that is
invoked, and the parameters of a label template. -/
def lookups : Node → List String
  | .var binding => [binding.name]
  | .instruction _ opcode _ _ => [opcode]
  | .call _ name _ _ _ => [name]
  | .label mark | .labelReference _ mark _ =>
    (Template.pieces mark.name).filterMap TemplatePiece.parameter?
  | _ => []

def LooksUp (tree : Node) (name : String) : Prop := ∃ part ∈ tree.flatten, name ∈ part.lookups

instance (tree : Node) (name : String) : Decidable (tree.LooksUp name) :=
  inferInstanceAs (Decidable (∃ part ∈ tree.flatten, name ∈ part.lookups))

/-- Whether none of some names is looked up anywhere in a tree. -/
def Spares (names : List String) (tree : Node) : Prop :=
  tree.Throughout fun part => ∀ name ∈ part.lookups, name ∉ names

theorem spares_iff {names : List String} {tree : Node} :
    tree.Spares names ↔ ∀ name ∈ names, ¬ tree.LooksUp name := by
  constructor
  · rintro spares name mem ⟨part, inside, lookedUp⟩
    exact spares part inside name lookedUp mem
  · intro never part inside name lookedUp mem
    exact never name mem ⟨part, inside, lookedUp⟩

end Node

/-! ### What is left -/

def Definition.stripped (traps : Origin → Origin) (definition : Definition) : Definition :=
  ⟨.nowhere, definition.name, definition.parameters.map (Node.stripped traps),
    definition.body.stripped traps⟩

def Scope.placelessLabel (entry : Name × LocalLabel) : Name × LocalLabel :=
  (entry.1, entry.2.placeless)

/-- What is forgotten about a run: which failures count as alike, what is left of a symbol table,
where traps are taken to stand, and the names of the macros that are hidden. -/
structure Forgetting where
  fails : Failure → Failure → Prop
  tables : SymbolTable → SymbolTable → Prop
  traps : Origin → Origin
  hidden : List String

/-- Whether expansion gets along with what is left. Requests to what is left of a table give what is
left of the answers. Where macros are hidden it is not said in which way an unknown one is
refused. -/
class Forgetting.Lawful (forgetting : Forgetting) : Prop extends Tolerant forgetting.fails where
  labelReference : ∀ table other, forgetting.tables table other → ∀ name origin offset,
    (other.labelReference name .nowhere offset).1 =
        (table.labelReference name origin offset).1.stripped forgetting.traps ∧
      forgetting.tables (table.labelReference name origin offset).2
        (other.labelReference name .nowhere offset).2
  defineLabel : ∀ table other, forgetting.tables table other → ∀ name origin,
    (other.defineLabel name .nowhere).1 = (table.defineLabel name origin).1.placeless ∧
      forgetting.tables (table.defineLabel name origin).2 (other.defineLabel name .nowhere).2
  freshLocalLabel : ∀ table other, forgetting.tables table other → ∀ comment origin,
    (other.freshLocalLabel comment .nowhere).1 =
        (table.freshLocalLabel comment origin).1.placeless ∧
      forgetting.tables (table.freshLocalLabel comment origin).2
        (other.freshLocalLabel comment .nowhere).2
  hides : forgetting.hidden ≠ [] → ∀ failure other, forgetting.fails failure other

/-- How what is known compares with what is left of it. -/
abbrev Forgetting.comparison (forgetting : Forgetting) : Comparison where
  operands := Becomes (Node.stripped forgetting.traps)
  definitions definition other := other = definition.stripped forgetting.traps ∧
    definition.body.Spares forgetting.hidden
  marks := Becomes LocalLabel.placeless
  hidden := forgetting.hidden

/-- Whether a state is what is left of another one. -/
structure Expander.Forgets (forgetting : Forgetting) (state other : Expander) : Prop extends
    state.Related forgetting.comparison other where
  table : forgetting.tables state.table other.table
  known : forgetting.hidden = [] → other.macros.map (·.1) = state.macros.map (·.1)

namespace Expander

variable {α β : Type} {forgetting : Forgetting} {state other : Expander}

theorem Forgets.initial {table otherTable : SymbolTable}
    (tables : forgetting.tables table otherTable) :
    Forgets forgetting { table := table } { table := otherTable } :=
  ⟨.initial, tables, fun _ => rfl⟩

theorem Forgets.renamed?_eq (forgets : state.Forgets forgetting other) (name : Name) :
    other.renamed? name = (state.renamed? name).map LocalLabel.placeless := by
  have related := forgets.renamed? name
  generalize state.renamed? name = renamed at related
  generalize other.renamed? name = otherRenamed at related
  cases related with
  | none => rfl
  | some related => exact congrArg some related

theorem labelIn?_placeless (labels : List (Name × LocalLabel)) (name : Name) :
    Frame.labelIn? (labels.map Scope.placelessLabel) name =
      (Frame.labelIn? labels name).map LocalLabel.placeless := by
  unfold Frame.labelIn?
  rw [find?_map, Option.map_map, Option.map_map]
  rfl

/-! ### Steps -/

/-- Whether two steps, from a state and from what is left of it, have results that compare and leave
a state and what is left of it. -/
abbrev Parallels (forgetting : Forgetting) (results : α → β → Prop) (first : Expand α)
    (second : Expand β) : Prop :=
  Action.Corresponds forgetting.fails (Expander.Forgets forgetting) results first second

theorem parallels_onTable {results : α → β → Prop} {change : SymbolTable → α × SymbolTable}
    {otherChange : SymbolTable → β × SymbolTable}
    (kept : ∀ table other, forgetting.tables table other →
      results (change table).1 (otherChange other).1 ∧
        forgetting.tables (change table).2 (otherChange other).2) :
    Parallels forgetting results (onTable change) (onTable otherChange) := by
  intro state other forgets
  obtain ⟨related, tables⟩ := kept _ _ forgets.table
  exact .ok ⟨related, forgets.ofRest rfl rfl, tables, forgets.known⟩

theorem parallels_note (notice other : Notice) :
    Parallels forgetting (fun _ _ => True) (note notice) (note other) :=
  .modify fun _ _ forgets => ⟨forgets.ofRest rfl rfl, forgets.table, forgets.known⟩

theorem parallels_bind (name : String) {bound other : Bound}
    (related : bound.Related forgetting.comparison other) :
    Parallels forgetting (fun _ _ => True) (bind name bound) (bind name other) := by
  refine .modify fun state otherState forgets => ?_
  refine ⟨forgets.withBinding related name, ?_, fun shown => ?_⟩
  · have tables := forgets.table
    obtain ⟨_, _, _, _, _, frame, _⟩ := state
    obtain ⟨_, _, _, _, _, otherFrame, _⟩ := otherState
    cases frame <;> cases otherFrame <;> exact tables
  · have known := forgets.known shown
    obtain ⟨_, _, _, _, _, frame, _⟩ := state
    obtain ⟨_, _, _, _, _, otherFrame, _⟩ := otherState
    cases frame <;> cases otherFrame <;> exact known

theorem parallels_inFrame {results : α → β → Prop} {frame otherFrame : Frame} {step : Expand α}
    {other : Expand β}
    (frames : List.Forall₂ (Scope.Related forgetting.comparison) frame otherFrame)
    (parallels : Parallels forgetting results step other) :
    Parallels forgetting results (inFrame frame step) (inFrame otherFrame other) := by
  refine .get fun state otherState outside => ?_
  refine .bind (.modify fun _ _ inside => { inside with frame := frames }) fun _ _ _ => ?_
  refine parallels.bind fun result otherResult related => ?_
  exact .bind
    (.modify fun _ _ inside => { inside with frame := outside.frame }) fun _ _ _ => .pure related

/-! ### Label templates -/

variable [forgetting.Lawful]

omit [forgetting.Lawful] in
theorem contribution?_related {bound other : Bound}
    (related : bound.Related forgetting.comparison other) :
    contribution? other = contribution? bound := by
  cases related with
  | closure => rfl
  | @operand node _ related =>
    obtain rfl : _ = node.stripped forgetting.traps := related
    cases node with
    | register origin kind name => cases kind <;> rfl
    | _ => rfl

theorem corresponds_pieceValue (forgets : state.Forgets forgetting other) (node : Node)
    {piece : TemplatePiece} (spared : ∀ name, piece.parameter? = some name →
      name ∉ forgetting.hidden) :
    Checked.Corresponds forgetting.fails Eq (state.pieceValue node piece)
      (other.pieceValue (node.stripped forgetting.traps) piece) := by
  cases piece with
  | literal content => exact .ok rfl
  | parameter name =>
    have meaning := forgets.meaning? name (spared name rfl)
    unfold pieceValue
    dsimp only
    generalize state.meaning? name = bound at meaning
    generalize other.meaning? name = otherBound at meaning
    cases meaning with
    | none => exact corresponds_reportConstruct node rfl rfl
    | some related =>
      dsimp only
      rw [contribution?_related related]
      split
      · exact corresponds_reportConstruct node rfl rfl
      · exact corresponds_reportConstruct node rfl rfl
      · exact .ok rfl

theorem corresponds_interpolate (forgets : state.Forgets forgetting other) (node : Node)
    {template : String}
    (spared : ∀ name ∈ (Template.pieces template).filterMap TemplatePiece.parameter?,
      name ∉ forgetting.hidden) :
    Checked.Corresponds forgetting.fails Eq (state.interpolate node template)
      (other.interpolate (node.stripped forgetting.traps) template) := by
  refine (Checked.Corresponds.mapM fun piece mem => corresponds_pieceValue forgets node
    fun name named => spared name (mem_filterMap.mpr ⟨piece, mem, named⟩)).bind ?_
  rintro parts _ rfl
  exact .same (silent_joinTexts "" parts)

/-! ### Operands -/

theorem parallels_substituteVariable {binding : Variable}
    (spared : binding.name ∉ forgetting.hidden) :
    Parallels forgetting (Becomes (stripped forgetting.traps)) (substituteVariable binding)
      (substituteVariable binding.placeless) := by
  refine .get fun state other forgets => ?_
  have meaning := forgets.meaning? binding.name spared
  rw [Variable.name_placeless]
  generalize state.meaning? binding.name = bound at meaning
  generalize other.meaning? binding.name = otherBound at meaning
  cases meaning with
  | none => exact .pure rfl
  | some meaning =>
    cases meaning with
    | operand related => exact .pure related
    | closure =>
      exact @corresponds_reject _ _ _ _ _ _ _ _ _ _ forgetting.traps (.var binding) _ _ rfl rfl

theorem parallels_substituteReference {origin : Origin} {mark : Label} {offset : Int}
    (spared : ∀ name ∈ (Node.labelReference origin mark offset).lookups, name ∉ forgetting.hidden) :
    Parallels forgetting (Becomes (stripped forgetting.traps))
      (substituteReference origin mark offset)
      (substituteReference .nowhere mark.placeless offset) := by
  unfold substituteReference
  dsimp only
  rw [Label.name_placeless]
  split
  · refine .get fun state other forgets => ?_
    refine .bind
      (.lift (corresponds_interpolate forgets (.labelReference origin mark offset) spared)) ?_
    rintro name _ rfl
    exact parallels_onTable fun table otherTable tables =>
      Forgetting.Lawful.labelReference table otherTable tables name origin offset
  · exact .pure rfl

omit [forgetting.Lawful] in
theorem parallels_substituteLocal (origin : Origin) (mark : LocalLabel) :
    Parallels forgetting (Becomes (stripped forgetting.traps)) (substituteLocal origin mark)
      (substituteLocal .nowhere mark.placeless) := by
  refine .get fun state other forgets => .pure ?_
  rw [LocalLabel.name_placeless, forgets.renamed?_eq]
  cases state.renamed? mark.name <;> rfl

/-- What is left of an operand that spares the hidden names is resolved to what is left of the
result. -/
theorem parallels_substitute {node : Node} (spares : node.Spares forgetting.hidden) :
    Parallels forgetting (Becomes (stripped forgetting.traps)) (substitute node)
      (substitute (node.stripped forgetting.traps)) := by
  induction node with
  | step node ih =>
    by_cases ordinary : node.isVariable = false ∧ node.isReference = false ∧
        node.isDefinition = false
    · obtain ⟨notVariable, notReference, notDefinition⟩ := ordinary
      have same := @sameClasses_stripped forgetting.traps node
      rw [substitute_eq_mapChildren notVariable notReference notDefinition,
        substitute_eq_mapChildren (same.isVariable.trans notVariable)
          (same.reference.trans notReference) (same.definition.trans notDefinition)]
      exact corresponds_mapChildren fun child mem =>
        ih child mem (spares.below mem)
    · cases node with
      | var binding =>
        simp only [substitute, stripped]
        exact parallels_substituteVariable (spares.here binding.name (mem_singleton_self _))
      | labelReference origin mark offset =>
        simp only [substitute, stripped]
        exact parallels_substituteReference spares.here
      | localReference origin mark =>
        simp only [substitute, stripped]
        exact parallels_substituteLocal origin mark
      | definition origin name parameters body =>
        rw [substitute]
        exact corresponds_reject _ rfl rfl
      | _ => exact absurd ⟨rfl, rfl, rfl⟩ ordinary

theorem parallels_evaluateOperand {operand : Node} (spares : operand.Spares forgetting.hidden) :
    Parallels forgetting (Bound.Related forgetting.comparison) (evaluateOperand operand)
      (evaluateOperand (operand.stripped forgetting.traps)) := by
  cases operand with
  | definition origin name parameters body =>
    refine .get fun state other forgets => .pure (.closure ⟨?_, ?_⟩ forgets.frame)
    · simp [Definition.stripped]
    · exact spares.below (by simp [children])
  | var binding =>
    refine .get fun state other forgets => ?_
    have meaning := forgets.meaning? binding.name (spares.here binding.name (mem_singleton_self _))
    rw [Variable.name_placeless]
    generalize state.meaning? binding.name = bound at meaning
    generalize other.meaning? binding.name = otherBound at meaning
    cases meaning with
    | none => exact .pure (.operand rfl)
    | some meaning => exact .pure meaning
  | _ =>
    exact (parallels_substitute spares).bind fun _ _ related => .pure (.operand related)

/-! ### Invocations -/

def Invocation.stripped (traps : Origin → Origin) (invocation : Invocation) : Invocation :=
  ⟨invocation.name, invocation.shown, invocation.operands.map (Node.stripped traps),
    invocation.statement.stripped traps⟩

structure Invocation.Spares (names : List String) (invocation : Invocation) : Prop where
  name : invocation.name ∉ names
  operands : ∀ operand ∈ invocation.operands, operand.Spares names

theorem silent_similarMacro? (known : List Name) (shown : Value) :
    (similarMacro? known shown).IsSilent := by
  unfold similarMacro?
  dsimp only
  split
  · exact .fault _
  · exact .fault _
  · split
    · exact .pure _
    · split
      · exact .pure _
      · exact .fault _

theorem corresponds_refuseInvocation {results : α → β → Prop}
    (forgets : state.Forgets forgetting other) (invocation : Invocation) :
    Checked.Corresponds forgetting.fails results (state.refuseInvocation invocation)
      (other.refuseInvocation (invocation.stripped forgetting.traps)) := by
  by_cases shown : forgetting.hidden = []
  · have bound := forgets.binding? invocation.name
    have isSome : (other.binding? invocation.name).isSome =
        (state.binding? invocation.name).isSome := by
      generalize state.binding? invocation.name = found at bound
      generalize other.binding? invocation.name = otherFound at bound
      cases bound <;> rfl
    simp only [refuseInvocation, Invocation.stripped, construct_stripped, isSome,
      forgets.known shown]
    refine (corresponds_construct _).bind_eq fun construct => ?_
    split
    · exact .report rfl rfl
    · refine .bind (.same (silent_similarMacro? _ _)) fun _ _ _ => ?_
      exact .report rfl rfl
  · have any : forgetting.fails = Failure.Any := funext fun _ => funext fun _ =>
      eq_true (Forgetting.Lawful.hides shown _ _)
    rw [any]
    exact .bothFail (fun _ => refuseInvocation_ne_ok _) fun _ => refuseInvocation_ne_ok _

theorem parallels_calleeOf {invocation : Invocation}
    (spared : invocation.name ∉ forgetting.hidden) :
    Parallels forgetting (fun callee other => forgetting.comparison.definitions callee.1 other.1 ∧
        List.Forall₂ (Scope.Related forgetting.comparison) callee.2 other.2)
      (calleeOf invocation) (calleeOf (invocation.stripped forgetting.traps)) := by
  refine .get fun state other forgets => ?_
  have callee := forgets.callee? invocation.name spared
  have sameName : (invocation.stripped forgetting.traps).name = invocation.name := rfl
  rw [sameName]
  generalize state.callee? invocation.name = found at callee
  generalize other.callee? invocation.name = otherFound at callee
  cases callee with
  | none => exact .lift (corresponds_refuseInvocation forgets invocation)
  | @some callee otherCallee related =>
    obtain ⟨definition, frame⟩ := callee
    obtain ⟨_, otherFrame⟩ := otherCallee
    obtain ⟨⟨rfl, spares⟩, frames⟩ := related
    simp only [Invocation.stripped, Definition.stripped, length_map]
    split
    · exact .pure ⟨⟨rfl, spares⟩, frames⟩
    · exact corresponds_reject invocation.statement rfl rfl

/-- The name that a parameter binds depends neither on locations nor on the table. -/
theorem parameterName_stripped {traps : Origin → Origin} (table other : SymbolTable)
    (parameter : Node) :
    parameterName other (parameter.stripped traps) = parameterName table parameter := by
  unfold parameterName
  have names : (parameter.stripped traps).property other .name =
      parameter.property table .name := by
    cases parameter with
    | plain origin value =>
      cases value with
      | truth value => cases value <;> rfl
      | _ => rfl
    | truth value => cases value <;> rfl
    | _ => rfl
  rw [names]

theorem silent_parameterName (table : SymbolTable) (parameter : Node) :
    (parameterName table parameter).IsSilent := by
  have names : (parameter.property table .name).IsSilent := by
    cases parameter <;> first
      | exact .pure _
      | exact .fault _
  refine names.bind fun answer => ?_
  cases answer with
  | node => exact .pure _
  | value value =>
    refine (silent_toName value).bind fun name => ?_
    cases name <;> exact .pure _

theorem corresponds_bindParameters (table other : SymbolTable) (parameters : List Node) :
    ∀ {arguments others : List Bound},
      List.Forall₂ (Bound.Related forgetting.comparison) arguments others →
      Checked.Corresponds forgetting.fails (fun bindings otherBindings =>
          ∀ name, Option.Rel (Bound.Related forgetting.comparison)
            (Association.get? bindings name) (Association.get? otherBindings name))
        (bindParameters table (parameters.zip arguments))
        (bindParameters other ((parameters.map (stripped forgetting.traps)).zip others)) := by
  induction parameters with
  | nil => exact fun _ => .ok fun _ => .none
  | cons parameter rest ih =>
    intro arguments others given
    cases given with
    | nil => exact .ok fun _ => .none
    | cons first others =>
      rw [map_cons, zip_cons_cons, zip_cons_cons, bindParameters, bindParameters,
        parameterName_stripped table other]
      refine .bind_eq (.same (silent_parameterName _ _)) fun name => ?_
      refine (ih others).bind fun bindings otherBindings related => ?_
      cases name with
      | none => exact .ok related
      | some name =>
        have sameHeld : Association.holds otherBindings name = Association.holds bindings name := by
          have here := related name
          rw [Association.holds_eq_isSome, Association.holds_eq_isSome]
          generalize Association.get? bindings name = found at here
          generalize Association.get? otherBindings name = otherFound at here
          cases here <;> rfl
        dsimp only
        rw [sameHeld]
        split
        · exact .ok related
        · refine .ok fun key => ?_
          rw [Association.get?_cons, Association.get?_cons]
          dsimp only
          split
          · exact .some first
          · exact related key

theorem parallels_renameLabels (name : String) (renamed : List (Name × LocalLabel))
    (marks : List LocalLabel) :
    Parallels forgetting (Becomes (List.map Scope.placelessLabel)) (renameLabels name renamed marks)
      (renameLabels name (renamed.map Scope.placelessLabel) (marks.map LocalLabel.placeless)) := by
  induction marks generalizing renamed with
  | nil => exact .pure rfl
  | cons mark rest ih =>
    rw [map_cons, renameLabels, renameLabels, labelIn?_placeless, Option.isSome_map,
      LocalLabel.name_placeless]
    split
    · exact ih renamed
    · have cleans : mark.cleanName.IsSilent := by
        unfold LocalLabel.cleanName
        split
        · split <;> exact .pure _
        · exact .fault _
      refine .bind_eq (.lift (.same cleans)) fun clean => ?_
      have draws : Parallels forgetting (Becomes LocalLabel.placeless)
          (onTable (·.freshLocalLabel (name ++ "_" ++ clean) mark.origin))
          (onTable (·.freshLocalLabel (name ++ "_" ++ clean) .nowhere)) :=
        parallels_onTable fun table other tables =>
          Forgetting.Lawful.freshLocalLabel table other tables _ _
      refine draws.bind ?_
      rintro fresh _ rfl
      have extended := ih (renamed ++ [(mark.name, fresh)])
      rw [map_append] at extended
      exact extended

theorem parallels_openScope (definition : Definition) {invocation : Invocation}
    (spares : invocation.Spares forgetting.hidden) :
    Parallels forgetting (Scope.Related forgetting.comparison) (openScope definition invocation)
      (openScope (definition.stripped forgetting.traps)
        (invocation.stripped forgetting.traps)) := by
  refine .bind (Action.Corresponds.mapM_map fun operand mem =>
    parallels_evaluateOperand (spares.operands operand mem))
    fun arguments others ⟨given, _⟩ => ?_
  refine .get fun state other forgets => ?_
  refine .bind (.lift (corresponds_bindParameters _ _ _ given))
    fun bindings otherBindings related => ?_
  have labels : (definition.stripped forgetting.traps).body.localLabels =
      definition.body.localLabels.map LocalLabel.placeless := localLabels_stripped _
  rw [labels]
  refine .bind (parallels_renameLabels _ [] _) ?_
  rintro labels _ rfl
  refine .pure (.intro (fun name => ?_) related)
  rw [labelIn?_placeless]
  cases Frame.labelIn? labels name with
  | none => exact .none
  | some mark => exact .some rfl

omit [forgetting.Lawful] in
theorem parallels_countExpansion (invocation : Invocation) :
    Parallels forgetting (fun _ _ => True) (countExpansion invocation)
      (countExpansion (invocation.stripped forgetting.traps)) :=
  Action.Corresponds.bind
    (.modify fun _ _ forgets => ⟨forgets.ofRest rfl rfl, forgets.table, forgets.known⟩)
    fun _ _ _ => parallels_note _ _

/-! ### Statements -/

/-- Whether some statements are what is left of other ones. A sequence that is made of a trap shows
where that stood, so the location of a sequence is not compared. -/
def Leaves (forgetting : Forgetting) (results others : List Node) : Prop :=
  others.map (stripped id) = results.map (stripped forgetting.traps)

namespace Leaves

omit [forgetting.Lawful]

theorem single (result : Node) : Leaves forgetting [result] [result.stripped forgetting.traps] :=
  congrArg (fun node => [node]) (stripped_stripped _ _ result)

theorem append {results others more otherMore : List Node}
    (first : Leaves forgetting results others) (second : Leaves forgetting more otherMore) :
    Leaves forgetting (results ++ more) (others ++ otherMore) := by
  rw [Leaves, map_append, map_append, first, second]

end Leaves

theorem parallels_expandLabel {mark : Label}
    (spared : ∀ name ∈ (Node.label mark).lookups, name ∉ forgetting.hidden) :
    Parallels forgetting (Becomes (stripped forgetting.traps)) (expandLabel mark)
      (expandLabel mark.placeless) := by
  unfold expandLabel
  rw [Label.name_placeless]
  split
  · refine .get fun state other forgets => ?_
    refine .bind_eq (.lift (corresponds_interpolate forgets (.label mark) spared)) fun name => ?_
    have defines : Parallels forgetting (Becomes Label.placeless)
        (onTable (·.defineLabel name mark.origin)) (onTable (·.defineLabel name .nowhere)) :=
      parallels_onTable fun table other tables =>
        Forgetting.Lawful.defineLabel table other tables _ _
    refine defines.bind ?_
    rintro defined _ rfl
    exact .pure rfl
  · exact .pure rfl

omit [forgetting.Lawful] in
theorem parallels_expandItems {invoke otherInvoke : Invocation → Expand (List Node)}
    {items : List Node} (each : ∀ item ∈ items, Parallels forgetting (Leaves forgetting)
      (expandNode invoke item) (expandNode otherInvoke (item.stripped forgetting.traps))) :
    Parallels forgetting (Leaves forgetting) (expandItems invoke items)
      (expandItems otherInvoke (items.map (stripped forgetting.traps))) := by
  induction items with
  | nil => exact .pure rfl
  | cons item rest ih =>
    obtain ⟨first, others⟩ := forall_mem_cons.mp each
    rw [map_cons, expandItems, expandItems]
    refine first.bind fun _ _ leaves => ?_
    exact (ih others).bind fun _ _ more => .pure (leaves.append more)

theorem parallels_expandNode {invoke otherInvoke : Invocation → Expand (List Node)}
    (invokes : ∀ invocation, invocation.Spares forgetting.hidden →
      Parallels forgetting (Leaves forgetting) (invoke invocation)
        (otherInvoke (invocation.stripped forgetting.traps)))
    {node : Node} (spares : node.Spares forgetting.hidden) :
    Parallels forgetting (Leaves forgetting) (expandNode invoke node)
      (expandNode otherInvoke (node.stripped forgetting.traps)) := by
  induction node with
  | step node ih =>
    have part : ∀ child ∈ node.children, Parallels forgetting (Leaves forgetting)
          (expandNode invoke child) (expandNode otherInvoke (child.stripped forgetting.traps)) :=
      fun child mem => ih child mem (spares.below mem)
    by_cases isOperand : node.isOperand
    · rw [expandNode_eq_substitute isOperand,
        expandNode_eq_substitute ((sameClasses_stripped node).operand.trans isOperand)]
      refine (parallels_substitute spares).bind ?_
      rintro result _ rfl
      exact .pure (.single result)
    cases node with
    | sequence origin items =>
      simp only [stripped, expandNode, strippedAll_eq_map]
      exact parallels_expandItems part
    | call origin name operands comment writtenName =>
      have made := invokes ⟨name, writtenName.orElse (.text name), operands,
        .call origin name operands comment writtenName⟩
        ⟨spares.here name (mem_singleton_self _), fun operand mem => spares.below mem⟩
      simpa only [stripped, expandNode, Invocation.stripped, strippedAll_eq_map] using made
    | instruction origin opcode operands comment =>
      have spared := spares.here opcode (mem_singleton_self _)
      have made := invokes ⟨opcode, .text opcode, operands,
        .instruction origin opcode operands comment⟩ ⟨spared, fun _ mem => spares.below mem⟩
      simp only [stripped, expandNode, strippedAll_eq_map]
      refine .get fun state other forgets => ?_
      rw [forgets.isSome_callee? opcode spared]
      split
      · simpa only [stripped, Invocation.stripped, strippedAll_eq_map] using made
      · rw [substituteAll_eq_mapM, substituteAll_eq_mapM]
        refine .bind (Action.Corresponds.mapM_becomes fun operand mem =>
          parallels_substitute (spares.below mem)) ?_
        rintro results _ ⟨rfl, -⟩
        have left := @Leaves.single forgetting (.instruction origin opcode results comment)
        simp only [stripped, strippedAll_eq_map] at left
        exact .pure left
    | label mark =>
      simp only [stripped, expandNode]
      refine (parallels_expandLabel spares.here).bind ?_
      rintro result _ rfl
      exact .pure (.single result)
    | localLabel mark =>
      simp only [stripped, expandNode]
      refine .get fun state other forgets => .pure ?_
      rw [LocalLabel.name_placeless, forgets.renamed?_eq]
      cases state.renamed? mark.name <;> rfl
    | constant origin binding value =>
      simp only [stripped, expandNode]
      refine (parallels_substitute (spares.below (by simp [children]))).bind ?_
      rintro result _ rfl
      exact (parallels_bind binding.name (.operand rfl)).bind fun _ _ _ =>
        .pure (.single (.constant origin binding result))
    | definition origin name parameters body =>
      simp only [stripped, expandNode]
      refine .get fun state other forgets => ?_
      have empty : other.frame.isEmpty = state.frame.isEmpty := by
        have frames := forgets.frame
        generalize state.frame = frame at frames
        generalize other.frame = otherFrame at frames
        cases frames <;> rfl
      rw [empty]
      split
      · exact .pure rfl
      · exact corresponds_reject (.definition origin name parameters body) rfl rfl
    | conditional origin predicate thenCase elseCase =>
      simp only [stripped, expandNode]
      refine (part thenCase (by simp [children])).bind fun thenItems _ leavesThen => ?_
      refine (part elseCase (by simp [children])).bind fun elseItems _ leavesElse => .pure ?_
      have samePredicate := stripped_stripped forgetting.traps id predicate
      unfold Leaves at leavesThen leavesElse ⊢
      simp only [map_cons, List.map_nil, stripped, strippedAll_eq_map, leavesThen, leavesElse,
        samePredicate, id]
    | skip | trap =>
      simp only [stripped, expandNode]
      exact .pure rfl
    | _ => exact absurd rfl isOperand

theorem parallels_invoke (limit : Int) (depth : Nat) {invocation : Invocation}
    (spares : invocation.Spares forgetting.hidden) : Parallels forgetting (Leaves forgetting)
      (invoke limit depth invocation)
      (invoke limit depth (invocation.stripped forgetting.traps)) := by
  induction depth generalizing invocation with
  | zero =>
    rw [invoke, invoke]
    refine (parallels_calleeOf spares.name).bind fun _ _ _ => ?_
    exact corresponds_reject invocation.statement rfl rfl
  | succ depth ih =>
    rw [invoke, invoke]
    refine (parallels_calleeOf spares.name).bind ?_
    rintro ⟨definition, frame⟩ ⟨_, otherFrame⟩ ⟨⟨rfl, bodySpares⟩, frames⟩
    refine (parallels_openScope definition spares).bind fun scope otherScope scopes => ?_
    refine (parallels_countExpansion invocation).bind fun _ _ _ => ?_
    exact parallels_inFrame (.cons scopes frames)
      (parallels_expandNode (fun _ spared => ih spared) bodySpares)

/-! ### Units -/

theorem parallels_collectMacros {statements : List Node}
    (apart : ∀ entry ∈ statements.filterMap collected?, entry.2.body.Spares forgetting.hidden ∧
      ∀ name ∈ forgetting.hidden, entry.1 ≠ .text name) :
    Parallels forgetting (fun _ _ => True) (collectMacros statements)
      (collectMacros (statements.map (stripped forgetting.traps))) := by
  induction statements with
  | nil => exact .pure trivial
  | cons stmt rest ih =>
    cases stmt with
    | definition origin name parameters body =>
      cases name with
      | null => exact ih apart
      | _ =>
        simp only [map_cons, stripped, strippedAll_eq_map, collectMacros]
        refine .bind (.lift (Checked.Corresponds.same (silent_toName _)).known) ?_
        rintro key _ ⟨rfl, spelled, -⟩
        rw [filterMap_cons_some (by simp [collected?, Value.isNull, toName_ok.mp spelled]; rfl)]
          at apart
        obtain ⟨⟨spares, shown⟩, others⟩ := forall_mem_cons.mp apart
        refine .get fun state other forgets => ?_
        have known := forgets.macros key shown
        generalize state.findMacro? key = found at known
        generalize other.findMacro? key = otherFound at known
        cases known with
        | some => exact .lift (.report rfl rfl)
        | none =>
          refine .bind (.modify fun before otherBefore states => ?_) fun _ _ _ => ih others
          refine ⟨states.withMacros (.cons ⟨rfl, rfl, spares⟩ .nil), states.table, fun shown => ?_⟩
          rw [map_append, map_append, states.known shown]
          rfl
    | _ => exact ih apart

theorem parallels_noteConstant (origin : Origin) (name : String) (previous value : Node) :
    Parallels forgetting (fun _ _ => True) (noteConstant origin name previous value)
      (noteConstant .nowhere name (previous.stripped forgetting.traps)
        (value.stripped forgetting.traps)) := by
  have spells : ∀ node : Node, Checked.Corresponds forgetting.fails Eq node.spelling
      node.spelling :=
    fun node => .same (silent_spelling node)
  unfold noteConstant
  rw [spelling_stripped, spelling_stripped]
  refine .bind_eq (.lift (spells previous)) fun before => ?_
  refine .bind_eq (.lift (spells value)) fun after => ?_
  split <;> exact parallels_note _ _

def strippedPart (traps : Origin → Origin) : Node ⊕ Node → Node ⊕ Node :=
  Sum.map (stripped traps) (stripped traps)

theorem parallels_resolveConstants {statements : List Node}
    (spares : ∀ stmt ∈ statements, stmt.Spares forgetting.hidden) : Parallels forgetting
      (fun parts others => others = parts.map (strippedPart forgetting.traps) ∧
        ∀ item, .inr item ∈ parts → item.Spares forgetting.hidden) (resolveConstants statements)
      (resolveConstants (statements.map (stripped forgetting.traps))) := by
  induction statements with
  | nil => exact .pure ⟨rfl, by simp⟩
  | cons stmt rest ih =>
    obtain ⟨own, others⟩ := forall_mem_cons.mp spares
    cases stmt with
    | constant origin binding value =>
      simp only [map_cons, stripped, resolveConstants]
      refine (parallels_substitute (own.below (by simp [children]))).bind ?_
      rintro result _ rfl
      have declare : Parallels forgetting
          (fun parts others => others = parts.map (strippedPart forgetting.traps) ∧
            ∀ item, .inr item ∈ parts → item.Spares forgetting.hidden) (do
          modify fun state : Expander => { state with
            constants := Association.set state.constants binding.name result }
          let others ← resolveConstants rest
          return .inl (.constant origin binding result) :: others) (do
          modify fun state : Expander => { state with
            constants := Association.set state.constants binding.name
              (result.stripped forgetting.traps) }
          let others ← resolveConstants (rest.map (stripped forgetting.traps))
          return .inl (.constant .nowhere binding.placeless (result.stripped forgetting.traps)) ::
            others) := by
        refine .bind (.modify fun state other forgets => ?_) fun _ _ _ => ?_
        · exact ⟨forgets.withConstant rfl binding.name, forgets.table, forgets.known⟩
        · refine (ih others).bind ?_
          rintro parts _ ⟨rfl, sparing⟩
          exact .pure ⟨rfl, by simpa using sparing⟩
      refine .get fun state other forgets => ?_
      have constants := forgets.constants binding.name
      rw [Variable.name_placeless]
      generalize Association.get? state.constants binding.name = known at constants
      generalize Association.get? other.constants binding.name = otherKnown at constants
      cases constants with
      | @some previous _ same =>
        obtain rfl : _ = previous.stripped forgetting.traps := same
        exact (parallels_noteConstant origin binding.name previous result).bind fun _ _ _ => declare
      | none => exact declare
    | _ =>
      refine (ih others).bind ?_
      rintro parts _ ⟨rfl, sparing⟩
      refine .pure ⟨rfl, fun item mem => ?_⟩
      rcases mem_cons.mp mem with same | mem
      · rw [Sum.inr.inj same]
        exact own
      · exact sparing item mem

theorem parallels_expandUnit (limit : Int) (depth : Nat) {parts : List (Node ⊕ Node)}
    (spares : ∀ item, .inr item ∈ parts → item.Spares forgetting.hidden) :
    Parallels forgetting (Leaves forgetting) (expandUnit (invoke limit depth) parts)
      (expandUnit (invoke limit depth) (parts.map (strippedPart forgetting.traps))) := by
  induction parts with
  | nil => exact .pure rfl
  | cons part rest ih =>
    have others := ih fun item mem => spares item (mem_cons_of_mem _ mem)
    cases part with
    | inl declaration =>
      exact others.bind fun _ _ leaves =>
        .pure (Leaves.append (.single declaration) leaves)
    | inr item =>
      refine .bind (parallels_expandNode (fun _ => parallels_invoke limit depth)
        (spares item mem_cons_self)) fun _ _ first => ?_
      exact others.bind fun _ _ leaves => .pure (first.append leaves)

/-- What is left of a unit is expanded to what is left of the expanded unit. -/
theorem parallels_expand (limit : Int) {tree : Node}
    (spares : ∀ stmt ∈ tree.statements, stmt.Spares forgetting.hidden)
    (apart : ∀ entry ∈ tree.statements.filterMap collected?,
      entry.2.body.Spares forgetting.hidden ∧ ∀ name ∈ forgetting.hidden, entry.1 ≠ .text name) :
    Parallels forgetting (fun result other => other.stripped id = result.stripped forgetting.traps)
      (expand limit tree) (expand limit (tree.stripped forgetting.traps)) := by
  unfold expand
  rw [statements_stripped]
  refine .bind (.modify fun _ _ forgets => { forgets with frame := .nil }) fun _ _ _ => ?_
  refine .bind (parallels_collectMacros apart) fun _ _ _ => ?_
  refine .bind (parallels_resolveConstants spares) ?_
  rintro parts _ ⟨rfl, sparing⟩
  refine .bind (parallels_expandUnit limit _ sparing) fun _ _ leaves => ?_
  refine .get fun state other forgets => ?_
  refine .bind (parallels_note _ _) fun _ _ _ => .pure ?_
  simp only [stripped, strippedAll_eq_map]
  rw [leaves]

end Expander

/-! ### Locations -/

abbrev Forgetting.ofPlaces (fails : Failure → Failure → Prop) : Forgetting where
  fails := fails
  tables := Becomes SymbolTable.placeless
  traps _ := .nowhere
  hidden := []

instance {fails : Failure → Failure → Prop} [Tolerant fails] :
    (Forgetting.ofPlaces fails).Lawful where
  tolerates := Tolerant.tolerates
  labelReference := by
    rintro table _ rfl name origin offset
    rw [table.labelReference_placeless name origin offset]
    exact ⟨rfl, rfl⟩
  defineLabel := by
    rintro table _ rfl name origin
    rw [table.defineLabel_placeless name origin]
    exact ⟨rfl, rfl⟩
  freshLocalLabel := by
    rintro table _ rfl comment origin
    rw [table.freshLocalLabel_placeless origin comment]
    exact ⟨rfl, rfl⟩
  hides some := absurd rfl some

/-- A unit without its locations is expanded to the expanded unit without its locations. -/
theorem Expander.parallels_expand_placeless {fails : Failure → Failure → Prop} [Tolerant fails]
    (limit : Int) (tree : Node) :
    Parallels (.ofPlaces fails) (fun result other => other.placeless = result.placeless)
      (expand limit tree) (expand limit tree.placeless) := by
  have spares : ∀ node : Node, node.Spares [] := fun _ _ _ _ _ => not_mem_nil
  refine Action.Corresponds.mono (fun result other same => ?_)
    (@parallels_expand (.ofPlaces fails) _ limit tree (fun _ _ => spares _)
      fun _ _ => ⟨spares _, nofun⟩)
  have again := congrArg Node.placeless same
  rwa [Node.placeless, stripped_stripped, Node.placeless, stripped_stripped] at again

end MacroAssembler
