/-
This module proves that macro expansion keeps local labels apart.

The labels that an expanded unit defines are those that stand outside all macros, under the names
they were written with, and the labels that were minted for the invocations on the way. A minted
label has a name that no label had when the invocation was met, so all of these differ. A reference
is resolved in the scopes around it: one that is written in a macro body means the label that was
minted for the body's own invocation, or for the invocation of a body around it, and one that is
passed as an operand keeps the meaning it had for the caller.
-/
import MacroAssembler.Proofs.DeclaredNames

namespace MacroAssembler

open Expander SymbolTable

variable {before after : Expander}
open scoped List

/-! ### Orderly trees -/

/-- Whether a node has operands and macros where operands belong and, if it is a macro, defines no
local label twice. -/
def Node.Orderly : Node → Prop
  | .instruction _ _ operands _ | .call _ _ operands _ _ =>
    ∀ operand ∈ operands, operand.isOperand ∨ operand.isDefinition
  | .constant _ _ value => value.isOperand
  | .definition _ _ _ body => (body.localLabels.map (·.name.key)).Nodup
  | _ => True

def Definition.node (definition : Definition) : Node :=
  .definition definition.origin definition.name definition.parameters definition.body

def Task.Orderly : Task → Prop
  | .statement node => node.Throughout Node.Orderly
  | .statements items => ∀ item ∈ items, item.Throughout Node.Orderly
  | .invocation made => ∀ operand ∈ made.operands,
    (operand.isOperand ∨ operand.isDefinition) ∧ operand.Throughout Node.Orderly

/-- Whether a state knows only operands that are no statements, and only orderly macros. -/
abbrev Expander.Orderly : Expander → Prop :=
  Expander.Holds (fun node => node.isOperand) fun definition _ =>
    definition.node.Throughout Node.Orderly

theorem Resolves.isOperand {meaning? : String → Option Bound} {renamed? : Name → Option LocalLabel}
    (bound : ∀ name node, meaning? name = some (.operand node) → node.isOperand)
    {node result : Node} (resolves : Resolves meaning? renamed? node result)
    (isOperand : node.isOperand) : result.isOperand := by
  cases resolves with
  | bound meaning => exact bound _ _ meaning
  | free | localReference | labelReference => rfl
  | parts _ _ _ built resolved =>
    obtain ⟨-, -, same⟩ := Node.rebuild_ok built resolved.length_eq.symm
    exact same.operand.trans isOperand

variable {state : Expander} {argument : Bound} {operand : Node} {names : List String} {task : Task}

theorem Expander.Orderly.bound (orderly : state.Orderly) (name : String) (node : Node)
    (meaning : state.meaning? name = some (.operand node)) : node.isOperand := by
  cases orderly.meaning? meaning with
  | operand isOperand => exact isOperand

theorem Expander.Orderly.evaluates (orderly : state.Orderly)
    (evaluates : state.Evaluates operand argument)
    (isOperand : operand.isOperand ∨ operand.isDefinition)
    (everywhere : operand.Throughout Node.Orderly) :
    argument.Holds (fun node => node.isOperand) fun definition _ =>
      definition.node.Throughout Node.Orderly := by
  cases evaluates with
  | closure => exact .closure everywhere orderly.frame
  | bound meaning => exact orderly.meaning? meaning
  | operand resolves =>
    refine .operand (resolves.isOperand orderly.bound (isOperand.resolve_right fun isMacro => ?_))
    cases operand with
    | definition => cases resolves with | parts _ _ notDefinition => cases notDefinition
    | _ => cases isMacro

/-! ### Labels that are defined -/

def Expander.meantLabel (state : Expander) (mark : LocalLabel) : LocalLabel :=
  (state.renamed? mark.name).getD mark

theorem Expander.Binds.meantLabel (binds : before.Binds names after) :
    after.meantLabel = before.meantLabel := by
  unfold Expander.meantLabel
  rw [binds.renamed?]

def Opening.minted (opening : Opening) : List LocalLabel := opening.scope.labels.map (·.2)

def Trace.minted (trace : Trace) : List LocalLabel := trace.openings.flatMap Opening.minted

def Task.localLabels : Task → List LocalLabel
  | .statement node => node.localLabels
  | .statements items => Node.localLabelsOf items
  | .invocation _ => []

theorem Trace.minted_append (first second : Trace) :
    (first.append second).minted = first.minted ++ second.minted :=
  List.flatMap_append

theorem Node.localLabelsOf_append (first second : List Node) :
    localLabelsOf (first ++ second) = localLabelsOf first ++ localLabelsOf second := by
  induction first with
  | nil => rfl
  | cons item rest ih =>
    rw [List.cons_append, localLabelsOf, localLabelsOf, ih, List.append_assoc]

theorem Node.localLabelsOf_singleton (node : Node) : localLabelsOf [node] = node.localLabels := by
  rw [localLabelsOf, localLabelsOf, List.append_nil]

theorem Node.localLabels_of_isOperand {node : Node} (isOperand : node.isOperand) :
    node.localLabels = [] := by
  cases node <;> first | rfl | cases isOperand

theorem Expander.Opens.map_meantLabel {opened : Expander} {definition : Definition}
    {invocation : Invocation} {arguments : List Bound} {scope : Scope Bound}
    (opens : before.Opens definition invocation arguments scope opened) (captured : Frame)
    (distinct : (definition.body.localLabels.map (·.name.key)).Nodup) :
    definition.body.localLabels.map (opened.entered invocation (scope :: captured)).meantLabel =
      scope.labels.map (·.2) := by
  have names := opens.labels distinct
  have keys : scope.labels.map (·.1.key) = definition.body.localLabels.map (·.name.key) := by
    simpa [Function.comp_def] using congrArg (List.map Name.key) names
  have distinctKeys : (scope.labels.map (·.1.key)).Nodup := keys ▸ distinct
  -- Both sides are compared as results of looking names up in the labels of the scope.
  refine (List.map_inj_right fun _ _ => Option.some.inj).mp ?_
  calc
    _ = definition.body.localLabels.map fun mark => Frame.labelIn? scope.labels mark.name := by
      rw [List.map_map]
      refine List.map_congr_left fun mark mem => ?_
      obtain ⟨label, found⟩ := Option.isSome_iff_exists.mp (opens.covers mark mem)
      simp [meantLabel, Expander.renamed?, Frame.label?, entered, found]
    _ = (scope.labels.map (·.1)).map (Frame.labelIn? scope.labels) := by
      rw [names, List.map_map]
      rfl
    _ = (scope.labels.map (·.2)).map some := by
      rw [List.map_map, List.map_map]
      exact List.map_congr_left fun entry mem => Frame.labelIn?_of_mem distinctKeys mem rfl

theorem perm_append_append {α : Type} {first second own others minted later : List α}
    (permFirst : first.Perm (own ++ minted)) (permSecond : second.Perm (others ++ later)) :
    (first ++ second).Perm ((own ++ others) ++ (minted ++ later)) := by
  calc
    first ++ second ~ (own ++ minted) ++ (others ++ later) := permFirst.append permSecond
    _ = own ++ (minted ++ (others ++ later)) := List.append_assoc ..
    _ ~ own ++ (others ++ (minted ++ later)) := (List.perm_append_comm_assoc ..).append_left own
    _ = (own ++ others) ++ (minted ++ later) := (List.append_assoc ..).symm

theorem Expands.localLabels {results : List Node} {trace : Trace}
    (expands : Expands before task results trace after) (orderly : before.Orderly)
    (taskOrderly : task.Orderly) : after.Orderly ∧
      Node.localLabelsOf results ~ task.localLabels.map before.meantLabel ++ trace.minted := by
  induction expands with
  | nothing | literalLabel | definition | skip | trap => exact ⟨orderly, .nil⟩
  | @statements before middle _ item rest _ _ _ _ first _ firstIh restIh =>
    obtain ⟨itemOrderly, restOrderly⟩ := List.forall_mem_cons.mp taskOrderly
    obtain ⟨middleOrderly, firstPerm⟩ := firstIh orderly itemOrderly
    obtain ⟨afterOrderly, restPerm⟩ := restIh middleOrderly restOrderly
    rw [first.binds.meantLabel] at restPerm
    refine ⟨afterOrderly, ?_⟩
    rw [Node.localLabelsOf_append, Trace.minted_append, Task.localLabels, Node.localLabelsOf,
      List.map_append]
    exact perm_append_append firstPerm restPerm
  | sequence _ _ ih => exact ih orderly fun _ => taskOrderly.below
  | call _ ih | macroInstruction _ ih =>
    exact ih orderly fun operand mem =>
      ⟨taskOrderly.here operand mem, taskOrderly.below mem⟩
  | instruction _ _ _ uses => exact ⟨orderly.ofRest uses.rest, .nil⟩
  | templateLabel => exact ⟨orderly.ofRest rfl, .nil⟩
  | localLabel state mark => exact ⟨orderly, .refl _⟩
  | constant origin binding uses resolves =>
    have value := resolves.isOperand orderly.bound taskOrderly.here
    exact ⟨(orderly.ofRest uses.rest).withBinding (.operand value), .nil⟩
  | conditional origin predicate first _ firstIh secondHypothesis =>
    obtain ⟨middleOrderly, firstPerm⟩ :=
      firstIh orderly (taskOrderly.below (by simp [Node.children]))
    obtain ⟨afterOrderly, secondPerm⟩ :=
      secondHypothesis middleOrderly (taskOrderly.below (by simp [Node.children]))
    rw [first.binds.meantLabel] at secondPerm
    refine ⟨afterOrderly, ?_⟩
    rw [Node.localLabelsOf_singleton, Node.localLabels, Node.localLabels, Node.localLabels,
      Trace.minted_append, Task.localLabels, Node.localLabels, List.map_append]
    exact perm_append_append firstPerm secondPerm
  | operand isOperand uses resolves =>
    refine ⟨orderly.ofRest uses.rest, ?_⟩
    rw [Node.localLabelsOf_singleton, Task.localLabels, Node.localLabels_of_isOperand isOperand,
      Node.localLabels_of_isOperand (resolves.isOperand orderly.bound isOperand)]
    exact .nil
  | invocation callee arity opens expands ih =>
    have entered := orderly.entered callee opens fun operand mem _ evaluates => by
      obtain ⟨isOperand, everywhere⟩ := taskOrderly operand mem
      exact orderly.evaluates evaluates isOperand everywhere
    cases orderly.callee? callee with
    | closure everywhere =>
      obtain ⟨inside, perm⟩ := ih entered
        (everywhere.below (by simp [Definition.node, Node.children]))
      refine ⟨inside.left orderly, ?_⟩
      rw [Task.localLabels, opens.map_meantLabel _ everywhere.here] at perm
      exact perm

theorem symbols_defineLabel (table : SymbolTable) (name : String) (origin : Origin) :
    (table.defineLabel name origin).2.symbols = table.symbols :=
  (uses_label table name origin).symbols

/-- The labels that are minted in a run are new, and they are the only new ones. -/
theorem Expands.gains {results : List Node} {trace : Trace}
    (expands : Expands before task results trace after) :
    before.table.Gains after.table trace.minted := by
  induction expands with
  | nothing | literalLabel | localLabel | definition | skip | trap => exact .ofSymbols rfl
  | statements _ _ first rest =>
    rw [Trace.minted_append]
    exact first.append rest
  | conditional _ _ _ _ first second =>
    rw [Trace.minted_append]
    exact first.append second
  | sequence _ _ ih => exact ih
  | call _ ih => exact ih
  | macroInstruction _ ih => exact ih
  | instruction _ _ _ uses => exact .ofSymbols uses.table.symbols
  | operand _ uses => exact .ofSymbols uses.table.symbols
  | constant _ _ uses =>
    rw [withBinding_table]
    exact .ofSymbols uses.table.symbols
  | templateLabel => exact .ofSymbols (symbols_defineLabel ..)
  | invocation _ _ opens _ ih =>
    exact opens.mints.toGains.append ih

/-! ### What references mean -/

def Opening.operand? (opening : Opening) (name : String) : Option Node :=
  argument? (opening.definition.parameters.zip opening.invocation.operands) name

/-- Whether a macro is expanded in a frame that belongs to it: the empty one, or one with the labels
of an invocation in whose body it is written. -/
def Definition.EnclosedBy (openings : List Opening) (definition : Definition) (frame : Frame) :
    Prop :=
  frame = [] ∨ ∃ outer ∈ openings, definition.node ∈ outer.definition.body.flatten ∧
    frame.map (·.labels) = outer.scope.labels :: outer.captured.map (·.labels)

/-- Whether an invocation keeps its labels apart, among all invocations of a run.

The labels that are minted for it are new where it is met. Each label that its body defines means
one of them in the body, and each operand of the body is resolved with that meaning of labels, where
labels that the body does not define mean what they mean around the macro. A reference that is
passed as an operand means the label that it means for the caller. -/
structure Opening.IsHygienic (openings : List Opening) (opening : Opening) : Prop where
  fresh : ∀ mark ∈ opening.minted, ¬ opening.before.table.IsInterned mark.name
  covers : ∀ mark ∈ opening.definition.body.localLabels, ∃ minted ∈ opening.minted,
    Frame.label? (opening.scope :: opening.captured) mark.name = some minted
  resolves : ∀ resolution ∈ opening.resolutions,
    Resolves resolution.state.meaning? (Frame.label? (opening.scope :: opening.captured))
      resolution.written resolution.result
  operands : ∀ name origin mark, opening.operand? name = some (.localReference origin mark) →
    name ∉ opening.definition.body.declaredNames → ∀ resolution ∈ opening.resolutions,
      resolution.state.meaning? name =
        some (.operand (.localReference origin (opening.before.meantLabel mark)))
  enclosed : opening.definition.EnclosedBy openings opening.captured

theorem Frame.label?_append_root {frame : Frame} {root : Scope Bound}
    (unlabelled : root.labels = []) : label? (frame ++ [root]) = label? frame := by
  funext name
  simp [label?, List.findSome?_append, unlabelled, labelIn?_nil]

theorem Expander.Binds.rootLabels (binds : before.Binds names after) :
    after.root.labels = before.root.labels := by
  cases same : before.frame with
  | nil => exact (binds.outermost same).2.labels
  | cons scope outer => rw [(binds.nested scope outer same).1]

theorem Expander.Binds.frameLabels (binds : before.Binds names after) :
    after.frame.map (·.labels) = before.frame.map (·.labels) := by
  cases same : before.frame with
  | nil => rw [(binds.outermost same).1]
  | cons scope outer =>
    obtain ⟨-, inner, afterSame, binds⟩ := binds.nested scope outer same
    rw [afterSame, List.map_cons, List.map_cons, binds.labels]

section Opened

variable {before opened after : Expander} {definition : Definition} {invocation : Invocation}
  {captured : Frame} {arguments : List Bound} {scope : Scope Bound} {results : List Node}
  {trace : Trace} {openings : List Opening}

theorem Expander.Opens.meaning?_parameter
    (opens : before.Opens definition invocation arguments scope opened) {name : String}
    {origin : Origin} {mark : LocalLabel}
    (given : argument? (definition.parameters.zip invocation.operands) name =
      some (.localReference origin mark)) :
    (opened.entered invocation (scope :: captured)).meaning? name =
      some (.operand (.localReference origin (before.meantLabel mark))) := by
  have related := argument?_related opens.evaluated name definition.parameters
  rw [given, ← opens.bindings] at related
  cases found : Association.get? scope.bindings name with
  | none =>
    rw [found] at related
    cases related
  | some argument =>
    rw [found] at related
    cases related with
    | some evaluates =>
      cases evaluates with
      | operand resolves =>
        cases resolves with
        | localReference =>
          simp [Expander.meaning?, Expander.binding?, Frame.binding?, entered, found, meantLabel]
        | parts _ notReference => cases notReference

theorem Expander.Opens.isHygienic
    (opens : before.Opens definition invocation arguments scope opened)
    (expands : Expands (opened.entered invocation (scope :: captured))
      (.statement definition.body) results trace after)
    (unlabelled : before.root.labels = []) (enclosed : definition.EnclosedBy openings captured) :
    Opening.IsHygienic openings
      ⟨before, invocation, definition, captured, arguments, scope, trace.resolutions⟩ := by
  have root : opened.root = before.root := by rw [opens.rest]
  have renamed : (opened.entered invocation (scope :: captured)).renamed? =
      Frame.label? (scope :: captured) :=
    Frame.label?_append_root (root ▸ unlabelled)
  refine ⟨opens.mints.fresh, ?_, ?_, ?_, enclosed⟩
  · intro mark mem
    obtain ⟨minted, found⟩ := Option.isSome_iff_exists.mp (opens.covers mark mem)
    refine ⟨minted, ?_, by simp [Frame.label?, found]⟩
    obtain ⟨entry, chosen, rfl⟩ := Option.map_eq_some_iff.mp found
    exact List.mem_map_of_mem (List.mem_of_find?_eq_some chosen)
  · intro resolution mem
    have comes := expands.resolved resolution mem
    rw [← renamed, ← comes.binds.renamed?]
    exact comes.resolves
  · intro name origin mark given kept resolution mem
    rw [(expands.resolved resolution mem).binds.meaning? kept]
    exact opens.meaning?_parameter given

end Opened

/-! ### Runs -/

def Task.Throughout (property : Node → Prop) : Task → Prop
  | .statement node => node.Throughout property
  | .statements items => ∀ item ∈ items, item.Throughout property
  | .invocation made => ∀ operand ∈ made.operands, operand.Throughout property

/-- Whether a task is expanded in a frame that belongs to it, as for macros. -/
def Task.EnclosedBy (openings : List Opening) (task : Task) (frame : Frame) : Prop :=
  frame = [] ∨ ∃ outer ∈ openings, task.Throughout (· ∈ outer.definition.body.flatten) ∧
    frame.map (·.labels) = outer.scope.labels :: outer.captured.map (·.labels)

/-- Whether every macro that a state knows has a frame that belongs to it. -/
abbrev Expander.Enclosed (openings : List Opening) : Expander → Prop :=
  Expander.Holds (fun _ => True) (Definition.EnclosedBy openings)

section Enclosed

variable {openings : List Opening} {frame : Frame}

theorem Task.EnclosedBy.part {part : Task} (enclosed : task.EnclosedBy openings frame)
    (inside : ∀ property, task.Throughout property → part.Throughout property) :
    part.EnclosedBy openings frame :=
  enclosed.imp_right fun ⟨outer, mem, everywhere, labels⟩ =>
    ⟨outer, mem, inside _ everywhere, labels⟩

variable {before after : Expander}

theorem Task.EnclosedBy.later (enclosed : task.EnclosedBy openings before.frame)
    (binds : before.Binds names after) : task.EnclosedBy openings after.frame := by
  rcases enclosed with empty | ⟨outer, mem, everywhere, labels⟩
  · exact .inl (binds.outermost empty).1
  · exact .inr ⟨outer, mem, everywhere, binds.frameLabels.trans labels⟩

theorem Expander.Enclosed.evaluates (enclosed : state.Enclosed openings) {made : Invocation}
    (taskEnclosed : Task.EnclosedBy openings (.invocation made) state.frame)
    (mem : operand ∈ made.operands) (evaluates : state.Evaluates operand argument) :
    argument.Holds (fun _ => True) (Definition.EnclosedBy openings) := by
  cases evaluates with
  | closure =>
    refine .closure ?_ enclosed.frame
    refine taskEnclosed.imp_right fun ⟨outer, outerMem, everywhere, labels⟩ => ?_
    exact ⟨outer, outerMem, (everywhere _ mem).here, labels⟩
  | bound meaning => exact enclosed.meaning? meaning
  | operand => exact .operand trivial

/-- Every invocation of a run keeps its labels apart, if all that is known at its start is enclosed
by what it is written in. -/
theorem Expands.hygienic {results : List Node} {trace : Trace}
    (expands : Expands before task results trace after) (among : trace.openings ⊆ openings)
    (unlabelled : before.root.labels = []) (enclosed : before.Enclosed openings)
    (taskEnclosed : task.EnclosedBy openings before.frame) :
    after.Enclosed openings ∧ ∀ opening ∈ trace.openings, opening.IsHygienic openings := by
  induction expands with
  | nothing | literalLabel | localLabel | definition | skip | trap => exact ⟨enclosed, nofun⟩
  | templateLabel => exact ⟨enclosed.ofRest rfl, nofun⟩
  | instruction _ _ _ uses => exact ⟨enclosed.ofRest uses.rest, nofun⟩
  | operand _ uses => exact ⟨enclosed.ofRest uses.rest, nofun⟩
  | constant _ _ uses =>
    exact ⟨(enclosed.ofRest uses.rest).withBinding (.operand trivial), nofun⟩
  | statements first _ firstIh restIh =>
    obtain ⟨amongFirst, amongRest⟩ := List.append_subset.mp among
    obtain ⟨middle, firstHygienic⟩ := firstIh amongFirst unlabelled enclosed
      (taskEnclosed.part fun _ everywhere => everywhere _ List.mem_cons_self)
    obtain ⟨after, restHygienic⟩ := restIh amongRest
      (first.binds.rootLabels.trans unlabelled) middle <| Task.EnclosedBy.later
        (taskEnclosed.part fun _ everywhere item mem =>
          everywhere item (List.mem_cons_of_mem _ mem)) first.binds
    exact ⟨after, List.forall_mem_append.mpr ⟨firstHygienic, restHygienic⟩⟩
  | conditional _ _ first _ firstIh secondHypothesis =>
    obtain ⟨amongFirst, amongSecond⟩ := List.append_subset.mp among
    obtain ⟨middle, firstHygienic⟩ := firstIh amongFirst unlabelled enclosed
      (taskEnclosed.part fun _ everywhere => everywhere.below (by simp [Node.children]))
    obtain ⟨after, secondHygienic⟩ := secondHypothesis amongSecond
      (first.binds.rootLabels.trans unlabelled) middle <| Task.EnclosedBy.later
        (taskEnclosed.part fun _ everywhere => everywhere.below (by simp [Node.children]))
        first.binds
    exact ⟨after, List.forall_mem_append.mpr ⟨firstHygienic, secondHygienic⟩⟩
  | sequence _ _ ih | call _ ih | macroInstruction _ ih =>
    exact ih among unlabelled enclosed (taskEnclosed.part fun _ everywhere _ => everywhere.below)
  | invocation callee arity opens expands ih =>
    obtain ⟨amongThis, amongInside⟩ := List.cons_subset.mp among
    have entered := enclosed.entered callee opens fun _ mem _ evaluates =>
      enclosed.evaluates taskEnclosed mem evaluates
    have root : _ = _ := congrArg Expander.root opens.rest
    obtain ⟨inside, hygienic⟩ := ih amongInside (root ▸ unlabelled) entered
      (.inr ⟨_, amongThis, fun _ => id, rfl⟩)
    cases enclosed.callee? callee with
    | closure definitionEnclosed =>
      refine ⟨inside.left enclosed, List.forall_mem_cons.mpr ⟨?_, hygienic⟩⟩
      exact opens.isHygienic expands unlabelled definitionEnclosed

end Enclosed

/-! ### Units -/

theorem Node.localLabelsOf_statements (tree : Node) :
    localLabelsOf tree.statements = tree.localLabels := by
  induction tree with
  | step node ih =>
    cases node with
    | sequence origin items =>
      rw [statements, localLabels]
      change ∀ item ∈ items, _ at ih
      induction items with
      | nil => rfl
      | cons item rest restIh =>
        obtain ⟨first, others⟩ := List.forall_mem_cons.mp ih
        rw [statementsOf, localLabelsOf_append, first, restIh others, localLabelsOf]
    | _ => exact localLabelsOf_singleton _

/-- The local labels of the statements of a unit that are still to be expanded. -/
def partLabels (parts : List (Node ⊕ Node)) : List LocalLabel :=
  parts.flatMap (Sum.elim (fun _ => []) Node.localLabels)

section Units

variable {before after : Expander} {items results : List Node} {parts : List (Node ⊕ Node)}
  {trace : Trace}

theorem Expander.Declares.localLabels (declares : before.Declares items parts after)
    (orderly : before.Orderly) (itemsOrderly : ∀ item ∈ items, item.Throughout Node.Orderly) :
    after.Orderly ∧ partLabels parts = Node.localLabelsOf items ∧
      ∀ part ∈ parts, part.elim (·.localLabels = []) (·.Throughout Node.Orderly) := by
  induction declares with
  | nothing => exact ⟨orderly, rfl, by simp⟩
  | constant origin binding notices uses resolves _ ih =>
    obtain ⟨itemOrderly, restOrderly⟩ := List.forall_mem_cons.mp itemsOrderly
    have value := resolves.isOperand orderly.bound itemOrderly.here
    obtain ⟨afterOrderly, labels, others⟩ :=
      ih ((orderly.ofRest uses.rest).withConstant value notices) restOrderly
    exact ⟨afterOrderly, labels, List.forall_mem_cons.mpr ⟨rfl, others⟩⟩
  | other notConstant _ ih =>
    obtain ⟨itemOrderly, restOrderly⟩ := List.forall_mem_cons.mp itemsOrderly
    obtain ⟨afterOrderly, labels, others⟩ := ih orderly restOrderly
    refine ⟨afterOrderly, ?_, List.forall_mem_cons.mpr ⟨itemOrderly, others⟩⟩
    rw [Node.localLabelsOf, ← labels]
    rfl

variable {openings : List Opening}

theorem Expander.Declares.enclosed (declares : before.Declares items parts after)
    (enclosed : before.Enclosed openings) : after.Enclosed openings := by
  induction declares with
  | nothing => exact enclosed
  | constant _ _ notices uses _ _ ih =>
    exact ih ((enclosed.ofRest uses.rest).withConstant trivial notices)
  | other _ _ ih => exact ih enclosed

theorem Expander.ExpandsUnit.gains (expands : before.ExpandsUnit parts results trace after) :
    before.table.Gains after.table trace.minted := by
  induction expands with
  | nothing => exact .ofSymbols rfl
  | resolved _ _ ih => exact ih
  | statement first _ ih =>
    rw [Trace.minted_append]
    exact first.gains.append ih

theorem Expander.ExpandsUnit.localLabels (expands : before.ExpandsUnit parts results trace after)
    (orderly : before.Orderly)
    (partsOrderly : ∀ part ∈ parts, part.elim (·.localLabels = []) (·.Throughout Node.Orderly)) :
    Node.localLabelsOf results ~ (partLabels parts).map before.meantLabel ++ trace.minted := by
  induction expands with
  | nothing => exact .nil
  | resolved declaration _ ih =>
    obtain ⟨noLabels, others⟩ := List.forall_mem_cons.mp partsOrderly
    have perm := ih orderly others
    rw [Node.localLabelsOf, show declaration.localLabels = [] from noLabels]
    exact perm
  | @statement before middle _ item parts _ _ _ _ first _ ih =>
    obtain ⟨itemOrderly, others⟩ := List.forall_mem_cons.mp partsOrderly
    obtain ⟨middleOrderly, firstPerm⟩ := first.localLabels orderly itemOrderly
    have restPerm := ih middleOrderly others
    rw [first.binds.meantLabel] at restPerm
    rw [Node.localLabelsOf_append, Trace.minted_append]
    change _ ~ (item.localLabels ++ partLabels parts).map before.meantLabel ++ _
    rw [List.map_append]
    exact perm_append_append firstPerm restPerm

theorem Expander.ExpandsUnit.hygienic (expands : before.ExpandsUnit parts results trace after)
    (among : trace.openings ⊆ openings) (unlabelled : before.root.labels = [])
    (enclosed : before.Enclosed openings) (outermost : before.frame = []) :
    ∀ opening ∈ trace.openings, opening.IsHygienic openings := by
  induction expands with
  | nothing => exact nofun
  | resolved _ _ ih =>
    exact ih among unlabelled enclosed outermost
  | statement first _ ih =>
    obtain ⟨amongFirst, amongRest⟩ := List.append_subset.mp among
    obtain ⟨middle, firstHygienic⟩ :=
      first.hygienic amongFirst unlabelled enclosed (.inl outermost)
    refine List.forall_mem_append.mpr ⟨firstHygienic, ?_⟩
    exact ih amongRest (first.binds.rootLabels.trans unlabelled) middle
      (first.binds.outermost outermost).1

end Units

/-- Expansion keeps local labels apart. In a tree that has statements only where they belong, and
whose top level and macros define no local label twice, no two labels of the expanded unit share a
name: they are the labels of the top level, which the table has to know beforehand, and the labels
that are minted for invocations. And every invocation keeps its labels apart from those of
others. -/
theorem Expander.expand_hygienic {table : SymbolTable} {limit : Int} {tree result : Node}
    {after : Expander} (orderly : tree.Throughout Node.Orderly)
    (distinct : (tree.localLabels.map (·.name.key)).Nodup)
    (interned : ∀ mark ∈ tree.localLabels, table.IsInterned mark.name)
    (succeeded : (expand limit tree).perform { table := table } = (.ok result, after)) :
    ∃ results trace final, result = .sequence tree.origin results ∧
      ExpandsTree { table := table } tree results trace final ∧
      ((Node.localLabelsOf results).map (·.name.key)).Nodup ∧
      Node.localLabelsOf results ~ tree.localLabels ++ trace.minted ∧
      ∀ opening ∈ trace.openings, opening.IsHygienic trace.openings := by
  obtain ⟨results, trace, final, rfl, -, expandsTree⟩ := expand_ok succeeded
  obtain ⟨declares, expands⟩ := id expandsTree
  obtain ⟨frame, root, -, symbols⟩ := declares.rest
  have fresh : (readied { table := table } tree).Orderly :=
    holds_readied fun _ _ _ _ member => orderly.statement member
  obtain ⟨declaredOrderly, labels, partsOrderly⟩ :=
    declares.localLabels fresh fun _ member => orderly.statement member
  -- Outside macros no label is renamed.
  have perm := expands.localLabels declaredOrderly partsOrderly
  rename_i parts declared
  have unchanged : declared.meantLabel = id := by
    funext mark
    rw [meantLabel, Expander.renamed?, frame, root]
    rfl
  rw [unchanged, List.map_id, labels, Node.localLabelsOf_statements] at perm
  have gains := (Gains.ofSymbols symbols).append expands.gains
  refine ⟨results, trace, final, rfl, expandsTree, ?_, perm, ?_⟩
  · refine (perm.map _).nodup_iff.mpr ?_
    rw [List.map_append, List.nodup_append']
    refine ⟨distinct, gains.distinct, fun key own minted => ?_⟩
    obtain ⟨mark, member, rfl⟩ := List.mem_map.mp own
    obtain ⟨other, otherMember, same⟩ := List.mem_map.mp minted
    exact gains.fresh other otherMember ((isInterned_congr same).mpr (interned mark member))
  · have enclosed : (readied { table := table } tree).Enclosed trace.openings :=
      holds_readied fun _ _ _ _ _ => .inl rfl
    exact expands.hygienic (List.Subset.refl _) (by rw [root]; rfl) (declares.enclosed enclosed)
      (by rw [frame]; rfl)

/-! ### A unit with nested invocations -/

namespace Nesting

def mark (name : String) : LocalLabel := ⟨.nowhere, .text name⟩

def jump (target : Node) : Node := .instruction .nowhere "jmp" [target] .null

def reference (name : String) : Node := .localReference .nowhere (mark name)

def named (name : String) : Node := .var ⟨.nowhere, name, .null⟩

def invoked (name : String) (operand : Node) : Node := .call .nowhere name [operand] .null .null

def defined (name : Value) (parameter : String) (body : List Node) : Node :=
  .definition .nowhere name [named parameter] (.sequence .nowhere body)

/-- Two macros that define the label of the unit again. One passes its label to a macro that it is
given, and the macro it is given refers to the label of the other. -/
def tree : Node := .sequence .nowhere [
  defined (.text "each") "body" [.localLabel (mark ".l"), invoked "body" (reference ".l")],
  defined (.text "around") "target" [.localLabel (mark ".l"),
    invoked "each" (defined .null "inner" [jump (named "inner"), jump (reference ".l")]),
    jump (named "target")],
  .localLabel (mark ".l"),
  invoked "around" (reference ".l")]

def expanded : Node := .sequence .nowhere [.localLabel (mark ".l"), .localLabel (mark "_around__l"),
  .localLabel (mark "_each__l"), jump (reference "_each__l"), jump (reference "_around__l"),
  jump (reference ".l")]

def table : SymbolTable := (SymbolTable.empty.localLabel (.text ".l") .nowhere).2

end Nesting

/-- The label of the unit, that of one macro and that of the other stay apart, and each jump goes
where it was written to go. -/
theorem Expander.expand_hygienic_nested :
    ((expand defaultLimit Nesting.tree).perform { table := Nesting.table }).1 =
        .ok Nesting.expanded ∧
      ∃ results trace final, Nesting.expanded = .sequence Nesting.tree.origin results ∧
        ExpandsTree { table := Nesting.table } Nesting.tree results trace final ∧
        ((Node.localLabelsOf results).map (·.name.key)).Nodup ∧
        Node.localLabelsOf results ~ Nesting.tree.localLabels ++ trace.minted ∧
        ∀ opening ∈ trace.openings, opening.IsHygienic trace.openings := by
  have succeeded : ((expand defaultLimit Nesting.tree).perform { table := Nesting.table }).1 =
      .ok Nesting.expanded := rfl
  refine ⟨succeeded, expand_hygienic ?_ ?_ ?_ (Action.perform_of_fst succeeded)⟩
  · simp [Nesting.tree, Nesting.defined, Nesting.invoked, Nesting.jump, Nesting.reference,
      Nesting.named, Node.Throughout, Node.flatten, Node.flattenAll, Node.Orderly, Node.isOperand,
      Node.isDefinition, Node.localLabels, Node.localLabelsOf]
  · exact List.nodup_singleton _
  · exact List.forall_mem_singleton.mpr rfl

end MacroAssembler
