/-
This module proves that locations are there for reports only.

Two documents that differ only in the origins of their objects are compiled to the same unit, or
neither is compiled and both are refused for a reason of the same class. The work of the two runs is
compared pass by pass. Before every pass their trees and tables are alike: they would be the same if
locations were left out. Each pass keeps them alike, since it does from either tree what it does from
the tree without locations.
-/
import MacroAssembler.Proofs.ForgetfulExpansion
import MacroAssembler.Proofs.PlacelessLoading
import MacroAssembler.Proofs.PlacelessLowering
import MacroAssembler.Proofs.SymbolAccounting

namespace MacroAssembler

open Node

/-! ### The prelude -/

namespace Specialization

variable {α β : Type} {strip : α → β}

/-- Whether a step has the same result from tables that are alike, up to locations. -/
def IgnoresPlaces (strip : α → β) (step : Build α) : Prop :=
  Action.Corresponds Failure.SameFamily (Alike SymbolTable.placeless) (Alike strip) step step

theorem ignoresPlaces_onTable (common : SymbolTable → β × SymbolTable)
    {change : SymbolTable → α × SymbolTable} (same : ∀ table, common table.placeless =
      (strip (change table).1, (change table).2.placeless)) :
    IgnoresPlaces strip (onTable change) := by
  intro table other alike
  have results := (same other).symm.trans (alike ▸ same table)
  exact .ok ⟨congrArg Prod.fst results, congrArg Prod.snd results⟩

theorem ignoresPlaces_variableNamed (origin : Origin) (name : String) :
    IgnoresPlaces placeless (variableNamed origin name) :=
  ignoresPlaces_onTable (fun table => table.intern (.var ⟨.nowhere, name, .null⟩)) fun table =>
    table.intern_placeless (.var ⟨origin, name, .null⟩)

theorem ignoresPlaces_mapM {ι : Type} (items : List ι) {step : ι → Build α}
    (each : ∀ item ∈ items, IgnoresPlaces strip (step item)) :
    IgnoresPlaces (List.map strip) (items.mapM step) := by
  have same : List.Forall₂ Eq items items := List.forall₂_same.mpr fun _ _ => rfl
  refine Action.Corresponds.mono (fun _ _ related => Alike.map_eq related.1) (.mapM same ?_)
  rintro item mem _ rfl
  exact each item mem

theorem ignoresPlaces_selectorMacro (origin : Origin) (width : Width) :
    IgnoresPlaces placeless (selectorMacro origin width) := by
  refine .bind (ignoresPlaces_mapM Width.all fun _ _ =>
    ignoresPlaces_variableNamed origin _) fun functions others sameFunctions => ?_
  refine .bind (ignoresPlaces_variableNamed origin "k") fun _ _ sameLast => ?_
  refine .bind (ignoresPlaces_variableNamed origin _) fun _ _ sameOperand => ?_
  exact .pure (by simp_all [Alike, stripped, invocation])

theorem ignoresPlaces_debugTrailer (origin : Origin) :
    IgnoresPlaces placeless (debugTrailer origin) := by
  refine .bind (ignoresPlaces_onTable
    (fun table => table.intern (.setting .nowhere "ASSERT_ENABLED")) fun table =>
      table.intern_placeless (.setting origin "ASSERT_ENABLED")) fun _ _ same => ?_
  exact .pure (by simp [Alike, stripped, same])

variable {body : Width → Build Node} {prologue : Node} {label : String}

theorem corresponds_entries {trailer otherTrailer : Node} {origin : Origin}
    (sameTrailer : Alike placeless trailer otherTrailer)
    (each : ∀ width, IgnoresPlaces placeless (body width)) (widths : List Width) :
    Action.Corresponds Failure.SameFamily (Alike SymbolTable.placeless)
      (Alike fun result => result.2.map placeless)
      (entries label prologue body origin trailer widths)
      (entries label prologue body origin otherTrailer widths) := by
  induction widths with
  | nil => exact .pure rfl
  | cons width rest ih =>
    refine .bind (ignoresPlaces_onTable
      (fun table => table.labelDefinition (width.labelName label) .nowhere) fun table =>
        table.labelDefinition_placeless (width.labelName label) origin) fun mark _ sameMark => ?_
    refine .bind (each width) fun content _ sameContent => ?_
    refine .bind ih fun items _ sameItems => ?_
    exact .pure (by simp_all [Alike, stripped])

theorem ignoresPlaces_specialize {origin : Option Origin}
    (each : ∀ width, IgnoresPlaces placeless (body width)) :
    IgnoresPlaces (fun result => result.2.placeless)
      (specialize label prologue body origin none) := by
  refine .bind (ignoresPlaces_debugTrailer _) fun trailer _ sameTrailer => ?_
  refine .bind (corresponds_entries sameTrailer each Width.all) fun items _ sameItems => ?_
  exact .pure (by simpa [Alike, stripped] using sameItems)

theorem ignoresPlaces_commonMacro (origin : Origin) :
    IgnoresPlaces placeless (commonMacro origin) := by
  have named := ignoresPlaces_variableNamed origin
  refine .bind (named "label") fun _ _ sameLabel => ?_
  refine .bind (named "prologue") fun _ _ samePrologue => ?_
  refine .bind (named "fn") fun _ _ sameFunction => ?_
  refine .bind (ignoresPlaces_specialize fun width => ?_) fun tree _ sameTree => ?_
  · refine .bind (named _) fun _ _ same => ?_
    exact .pure (by simp [Alike, stripped, invocation, same])
  · exact .pure (by simp_all [Alike, stripped])

theorem ignoresPlaces_narrowMacro (origin : Origin) :
    IgnoresPlaces placeless (narrowMacro origin) := by
  have named := ignoresPlaces_variableNamed origin
  refine .bind (named "l") fun _ _ sameLabel => ?_
  refine .bind (named "fn") fun _ _ sameFunction => ?_
  refine .bind (named "size") fun _ _ sameSize => ?_
  refine .bind (named "gen") fun _ _ sameGenerator => ?_
  exact .pure (by simp [Alike, stripped, invocation, anonymous, sameLabel, sameFunction, sameSize,
    sameGenerator])

theorem ignoresPlaces_prelude (origin : Option Origin) :
    IgnoresPlaces (List.map placeless) (prelude origin) := by
  refine .bind (ignoresPlaces_mapM Width.all fun width _ =>
    ignoresPlaces_selectorMacro _ width) fun selectors _ sameSelectors => ?_
  refine .bind (ignoresPlaces_commonMacro _) fun common _ sameCommon => ?_
  refine .bind (ignoresPlaces_narrowMacro _) fun narrow _ sameNarrow => ?_
  exact .pure (by simp_all [Alike])

end Specialization

/-! ### Passes on trees that are alike -/

section Passes

variable {config configuration : Configuration} {tree other : Node}

theorem Node.corresponds_foldedWith (alike : Alike placeless tree other) :
    Checked.Corresponds Failure.SameFamily
      (fun folded otherFolded => Alike placeless folded.1 otherFolded.1)
      (tree.foldedWith config) (other.foldedWith config) := by
  have here := @Folding.corresponds_fold Failure.SameFamily _ config tree {} {} rfl
  have there := @Folding.corresponds_fold Failure.SameFamily _ config other {} {} rfl
  rw [alike] at there
  have outcomes := (here.mono fun _ _ kept => kept.1).alike (there.mono fun _ _ kept => kept.1)
  unfold foldedWith
  revert outcomes
  generalize (Folding.fold config tree).perform {} = run
  generalize (Folding.fold config other).perform {} = otherRun
  obtain ⟨outcome, counts⟩ := run
  obtain ⟨otherOutcome, otherCounts⟩ := otherRun
  rintro (kept | related)
  · exact .ok kept
  · exact .error related

theorem Compilation.corresponds_expandWork (limit : Int) (alike : Alike Node.placeless tree other) :
    Action.Corresponds Failure.SameFamily (Alike SymbolTable.placeless) (Alike Node.placeless)
      (expandWork limit tree) (expandWork limit other) := by
  intro table otherTable tables
  have here := @Expander.parallels_expand_placeless Failure.SameFamily _ limit tree
    { table := table } _ (.initial rfl)
  have there := @Expander.parallels_expand_placeless Failure.SameFamily _ limit other
    { table := otherTable } _ (.initial rfl)
  rw [alike, tables] at there
  refine here.meet (fun _ _ _ kept otherKept => ?_) (fun _ _ _ kept otherKept => ?_) there
  · exact ⟨otherKept.1.symm.trans kept.1, otherKept.2.table.symm.trans kept.2.table⟩
  · exact Eq.trans kept (Eq.symm otherKept)

theorem Backend.corresponds_lowerStatements (machine : config.architecture.emitsHostCode = false)
    (alike : Alike placeless tree other) :
    Action.Corresponds Failure.SameFamily (Alike SymbolTable.placeless) (Alike id)
      (lowerStatements config tree) (lowerStatements config other) := by
  have there := alike_lowerStatements machine other
  rw [alike] at there
  exact Action.Corresponds.alike
    ((alike_lowerStatements machine tree).mono fun _ _ same => same.symm)
    (there.mono fun _ _ same => same.symm)

end Passes

/-! ### Runs -/

namespace Compilation

variable {config configuration : Configuration} {tree other : Node}

theorem definedMacros_placeless (statements : List Node) :
    definedMacros (statements.map Node.placeless) = definedMacros statements := by
  induction statements with
  | nil => rfl
  | cons stmt rest ih =>
    cases stmt with
    | definition origin name parameters body =>
      simp only [List.map_cons, stripped, definedMacros]
      rw [ih]
    | _ => exact ih

theorem definesOneOf_placeless (names : List Name) (stmt : Node) :
    definesOneOf names stmt.placeless = definesOneOf names stmt := by
  cases stmt with
  | definition origin name => cases name <;> rfl
  | _ => rfl

theorem filter_alike {definitions others : List Node} (names : List Name)
    (alike : Alike (List.map Node.placeless) definitions others) : Alike (List.map Node.placeless)
      (definitions.filter fun definition => !definesOneOf names definition)
      (others.filter fun definition => !definesOneOf names definition) := by
  have kept : ∀ nodes : List Node,
      (nodes.filter fun definition => !definesOneOf names definition).map Node.placeless =
        (nodes.map Node.placeless).filter fun definition => !definesOneOf names definition := by
    intro nodes
    rw [List.filter_map]
    simp only [Function.comp_def, definesOneOf_placeless]
  exact (kept others).trans ((congrArg _ alike).trans (kept definitions).symm)

theorem corresponds_acceptWork (includePrelude : Bool) (alike : Alike Node.placeless tree other) :
    Action.Corresponds Failure.SameFamily (Alike SymbolTable.placeless) (Alike Node.placeless)
      (acceptWork includePrelude tree) (acceptWork includePrelude other) := by
  have sameStatements : other.placeless.statements = tree.placeless.statements := by rw [alike]
  rw [statements_stripped, statements_stripped] at sameStatements
  have sameNames : definedMacros other.statements = definedMacros tree.statements := by
    rw [← definedMacros_placeless, sameStatements, definedMacros_placeless]
  rw [acceptWork, acceptWork, sameNames]
  split
  · refine .bind_eq (.lift (.refl _)) fun names => ?_
    refine .bind (Specialization.ignoresPlaces_prelude none)
      fun definitions others sameDefinitions => .pure ?_
    have sameAdded := filter_alike names sameDefinitions
    simp only [Alike, stripped, strippedAll_eq_map, List.map_append] at sameAdded sameStatements ⊢
    rw [sameAdded, sameStatements]
  · exact .pure alike

theorem emissionOf_alike {table otherTable : SymbolTable} (statements : List String)
    (alike : Alike SymbolTable.placeless table otherTable) :
    emissionOf config statements table = emissionOf config statements otherTable := by
  have sameExtern : otherTable.unresolved = table.unresolved := by
    rw [← SymbolTable.unresolved_placeless, alike, SymbolTable.unresolved_placeless]
  have sameReferenced : otherTable.placeless.referenced = table.placeless.referenced := by
    rw [alike]
  dsimp only [SymbolTable.placeless] at sameReferenced
  rw [emissionOf, emissionOf, sameExtern, sameReferenced]

theorem corresponds_documentWork (machine : config.architecture.emitsHostCode = false)
    {document other : Value} (same : document.unplaced = other.unplaced) (includePrelude : Bool)
    (limit : Int) (filename otherFilename : String) :
    Action.Corresponds Failure.SameFamily (Alike SymbolTable.placeless)
      (fun made otherMade => made.2 = otherMade.2)
      (documentWork config includePrelude limit document filename)
      (documentWork config includePrelude limit other otherFilename) := by
  refine .bind (.bind (fun table otherTable sameTable =>
    SymbolTable.corresponds_load sameTable same filename otherFilename)
    fun _ _ => corresponds_acceptWork includePrelude) fun _ _ sameTree => ?_
  refine .bind (.lift (Node.corresponds_foldedWith sameTree)) fun _ _ sameFolded => ?_
  refine (corresponds_expandWork limit sameFolded).bind fun _ _ sameExpanded => ?_
  refine (Backend.corresponds_lowerStatements machine sameExpanded).bind ?_
  rintro _ _ rfl
  exact .get fun _ _ sameTable => .pure (emissionOf_alike _ sameTable)

/-- Documents that differ only in their origins are compiled to the same unit, or neither is and
both fail in the same way. -/
theorem emission_locations {document other : Value} {filename otherFilename : String}
    {includePrelude : Bool} {limit : Int}
    (machine : configuration.architecture.emitsHostCode = false)
    (same : document.unplaced = other.unplaced) :
    (∃ emission, ((runDocument document filename).perform
        (start configuration .empty includePrelude limit)).1 = .ok emission ∧
      ((runDocument other otherFilename).perform
        (start configuration .empty includePrelude limit)).1 = .ok emission) ∨
    ∃ failure otherFailure, ((runDocument document filename).perform
        (start configuration .empty includePrelude limit)).1 = .error failure ∧
      ((runDocument other otherFilename).perform
        (start configuration .empty includePrelude limit)).1 = .error otherFailure ∧
      failure.family = otherFailure.family := by
  have outcomes := corresponds_documentWork machine same includePrelude limit filename otherFilename
    SymbolTable.empty.resetReferenced SymbolTable.empty.resetReferenced rfl
  rw [outcome_runDocument, outcome_runDocument]
  revert outcomes
  generalize (Action.perform (documentWork _ _ _ document _) _).1 = outcome
  generalize (Action.perform (documentWork _ _ _ other _) _).1 = otherOutcome
  rintro (⟨same, -⟩ | family)
  · exact .inl ⟨_, rfl, congrArg Except.ok same.symm⟩
  · exact .inr ⟨_, _, rfl, rfl, family⟩

/-- A label and a jump, without origins and with origins of all forms. -/
theorem emission_locations_jump :
    let bare := documentOf [labelIn "a", jumpTo "b"]
    let placed := documentNode "Sequence" [("origin", .list [.text "unit.asm", .integer 3]),
      ("items", .list [
        documentNode "Label" [("name", .text "a"), ("origin", .object [("line", .text "4")])],
        documentNode "Instruction" [("origin", .null), ("opcode", .text "jmp"),
          ("operands", .list [documentNode "LabelReference" [("label", .text "b"),
            ("origin", .list [.text "unit.asm", .integer 5, .integer 8])]])]])]
    placed ≠ bare ∧ bare.unplaced = placed.unplaced ∧
      ∃ emission, (compiled bare).1 = .ok emission ∧ (compiled placed).1 = .ok emission ∧
        emission.externLabels = ["b"] := by
  intro bare placed
  have differ : placed ≠ bare := by
    intro equal
    simp [placed, bare, documentOf, documentNode] at equal
  have same : bare.unplaced = placed.unplaced := rfl
  have compiles : (compiled bare).1 = .ok ⟨"ARM64", ["OFFLINE_ASM_BEGIN",
      "OFFLINE_ASM_GLUE_LABEL(a)", "\"\\tb \" SYMBOL_STRING(b) \"\\n\"", "OFFLINE_ASM_END"],
      ["b"], ["b"]⟩ := by
    decide +kernel
  have outcomes := @emission_locations plainMachine bare placed "<json>" "<json>" false
    Expander.defaultLimit rfl same
  rcases outcomes with ⟨emission, here, there⟩ | ⟨failure, -, fails, -⟩
  · obtain rfl := Except.ok.inj (compiles.symm.trans here)
    exact ⟨differ, same, _, here, there, rfl⟩
  · cases compiles.symm.trans fails

end Compilation

end MacroAssembler
