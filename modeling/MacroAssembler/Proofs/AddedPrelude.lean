/-
This module compares a unit that is compiled with the prelude to the same unit compiled without it.

The macros of the prelude are put in front of a unit unless the unit defines them itself, so that
its own macros take precedence. What the unit defines is read off the tree that was loaded, before
conditionals are decided, and only outside of conditionals. A macro of the prelude that the unit
defines inside a live branch is therefore added all the same, and then it is defined twice.

If the unit defines every macro of the prelude that it asks for, and none of them inside a
conditional, it is compiled to the same lines and the same lists of labels.
-/
import MacroAssembler.Proofs.AddedMacros
import MacroAssembler.Proofs.AlikeLowering
import MacroAssembler.Proofs.ConfiguredRegisters
import MacroAssembler.Proofs.FoldedPrelude
import MacroAssembler.Proofs.SymbolAccounting

namespace MacroAssembler

open Action Folding List Node

variable {config configuration : Configuration}

/-! ### Folding a unit with macros in front -/

namespace Folding

theorem perform_of_foldsTo {nodes results : List Node}
    (related : List.Forall₂ (FoldsTo config) nodes results) (counts : FoldCounts) :
    ∃ after, (nodes.mapM (fold config)).perform counts = (.ok results, after) := by
  induction related generalizing counts with
  | nil => exact ⟨counts, rfl⟩
  | cons first _ ih =>
    obtain ⟨middle, foldsFirst⟩ := first.perform counts
    obtain ⟨after, foldsOthers⟩ := ih middle
    exact ⟨after, perform_mapM_cons_ok.mpr ⟨_, _, _, foldsFirst, foldsOthers, rfl⟩⟩

theorem foldsTo_of_parameters {origin : Origin} {name : Value} {parameters folded : List Node}
    {body foldedBody : Node} (related : List.Forall₂ (FoldsTo config) parameters folded)
    (folds : FoldsTo config body foldedBody) :
    FoldsTo config (.definition origin name parameters body)
      (.definition origin name folded foldedBody) := by
  obtain ⟨middle, foldsParameters⟩ := perform_of_foldsTo related {}
  obtain ⟨after, foldsBody⟩ := folds.perform middle
  refine ⟨{}, after, ?_⟩
  rw [fold, foldAll_eq_mapM]
  exact perform_bind_ok.mpr ⟨_, middle, foldsParameters,
    perform_bind_ok.mpr ⟨_, after, foldsBody, rfl⟩⟩

theorem foldsTo_of_items {origin : Origin} {items folded : List Node}
    (related : List.Forall₂ (FoldsTo config) items folded) : FoldsTo config (.sequence origin items)
      (.sequence origin (folded.foldr splice [])) := by
  obtain ⟨after, folds⟩ := perform_of_foldsTo related {}
  refine ⟨{}, after, ?_⟩
  rw [fold, foldItems_eq_mapM]
  exact perform_bind_ok.mpr ⟨_, after, perform_bind_ok.mpr ⟨_, after, folds, rfl⟩, rfl⟩

theorem FoldsTo.statements (tree : Node) : ∀ {folded : Node}, FoldsTo config tree folded → ∃ parts,
      List.Forall₂ (FoldsTo config) tree.statements parts ∧
        parts.foldr splice [] = splice folded [] := by
  induction tree with
  | step tree ih =>
    intro folded folds
    by_cases sequence : tree.isSequence
    · cases tree with
      | sequence origin items =>
        obtain ⟨results, related, rfl⟩ := foldsTo_sequence folds
        have each : ∀ item ∈ items, ∀ {folded : Node}, FoldsTo config item folded →
            ∃ parts, List.Forall₂ (FoldsTo config) item.statements parts ∧
              parts.foldr splice [] = splice folded [] := ih
        simp only [splice, append_nil]
        clear folds ih sequence
        induction related with
        | nil => exact ⟨[], .nil, rfl⟩
        | cons first _ rest =>
          obtain ⟨ofFirst, ofOthers⟩ := forall_mem_cons.mp each
          obtain ⟨parts, relatedParts, spliced⟩ := ofFirst first
          obtain ⟨others, relatedOthers, splicedOthers⟩ := rest ofOthers
          refine ⟨parts ++ others, rel_append relatedParts relatedOthers, ?_⟩
          rw [foldr_splice_append, spliced, splicedOthers, ← splice_eq_append, foldr_cons]
      | _ => cases sequence
    · rw [Bool.not_eq_true] at sequence
      rw [statements_of_single sequence]
      exact ⟨[folded], .cons folds .nil, rfl⟩

theorem foldr_splice_definitions (added : List Definition) (rest : List Node) :
    (added.map Definition.node).foldr splice rest = added.map Definition.node ++ rest := by
  induction added with
  | nil => rfl
  | cons definition others ih =>
    rw [map_cons, foldr_cons, ih]
    rfl

theorem statementsOf_definitions (added : List Definition) (rest : List Node) :
    statementsOf (added.map Definition.node ++ rest) =
      added.map Definition.node ++ statementsOf rest := by
  induction added with
  | nil => rfl
  | cons definition others ih =>
    rw [map_cons, cons_append, statementsOf, ih]
    rfl

/-- A unit with macros in front is folded to the folded unit with the folded macros in front. -/
theorem foldsTo_extended {tree folded : Node} {definitions : List Node} {added : List Definition}
    (folds : FoldsTo config tree folded)
    (related : List.Forall₂ (fun definition other => FoldsTo config definition other.node)
      definitions added) : FoldsTo config (.sequence tree.origin (definitions ++ tree.statements))
      (.sequence tree.origin (added.map Definition.node ++ splice folded [])) := by
  obtain ⟨parts, relatedParts, spliced⟩ := folds.statements
  have relatedAdded : List.Forall₂ (FoldsTo config) definitions
      (added.map Definition.node) := forall₂_map_right_iff.mpr related
  have whole := @foldsTo_of_items config tree.origin _ _ (rel_append relatedAdded relatedParts)
  rwa [foldr_append, spliced, foldr_splice_definitions] at whole

end Folding

namespace Expander

theorem definesMacro_spliced {tree : Node} {name : String} :
    (Node.sequence tree.origin (splice tree [])).DefinesMacro name ↔ tree.DefinesMacro name := by
  cases tree with
  | sequence origin items => rw [splice, append_nil, Node.origin]
  | skip origin => simp [DefinesMacro, splice, Node.statements, statementsOf]
  | _ => exact Iff.rfl

theorem mem_statements_of_spliced {tree stmt : Node}
    (mem : stmt ∈ (Node.sequence tree.origin (splice tree [])).statements) :
    stmt ∈ tree.statements := by
  cases tree with
  | sequence origin items => rwa [splice, append_nil, Node.origin] at mem
  | skip origin => cases mem
  | _ => exact mem

/-- Whether a unit is expanded by itself or as the folded statements of a sequence is the same. -/
theorem expand_spliced (limit : Int) (tree : Node) :
    expand limit (.sequence tree.origin (splice tree [])) = expand limit tree := by
  cases tree with
  | sequence origin items => rw [splice, append_nil, Node.origin]
  | skip origin => rfl
  | _ => rfl

end Expander

/-! ### The macros of the prelude -/

namespace Specialization

def preludeNames : List String := Width.all.map Width.selector ++ ["commonOp", "op"]

variable (table : SymbolTable)

def foldedMacros (config : Configuration) : List Definition :=
  Width.all.map (selectorOf table) ++ [commonOf table config, narrowOf table]

theorem exists_folded_trailer {value : Bool}
    (enabled : config.setting? "ASSERT_ENABLED" = some value) :
    ∃ folded, FoldsTo config (trailerIn table) folded := by
  obtain ⟨origin, setting⟩ := table.exists_settingOf "ASSERT_ENABLED"
  have evaluates : (table.settingOf "ASSERT_ENABLED").evaluate config = .ok value := by
    rw [setting, Node.evaluate, Configuration.isSet, enabled]
  unfold trailerIn FoldsTo
  rw [fold, evaluates]
  cases value with
  | true => exact ⟨_, {}, _, rfl⟩
  | false => exact ⟨_, {}, _, rfl⟩

theorem foldsTo_self {tree : Node} (settled : tree.Throughout IsSettled) :
    FoldsTo config tree tree :=
  ⟨{}, {}, fold_self tree settled⟩

theorem foldsTo_commonIn {value : Bool} (enabled : config.setting? "ASSERT_ENABLED" = some value) :
    FoldsTo config (commonIn table) (commonOf table config).node := by
  obtain ⟨ending, foldsTrailer⟩ := exists_folded_trailer table enabled
  have entries : ∀ widths : List Width, ∃ parts,
      List.Forall₂ (FoldsTo config) (widths.flatMap (entryIn table)) parts := by
    intro widths
    induction widths with
    | nil => exact ⟨[], .nil⟩
    | cons width rest ih =>
      obtain ⟨others, related⟩ := ih
      have label : (Node.label (table.labelOf (width.labelName commonLabel))).Throughout
          IsSettled := by
        rw [throughout_iff]
        exact ⟨⟨isDecided_of_not_sequence rfl rfl rfl, trivial⟩, by simp [children]⟩
      have call : (invocation preludePlace "fn" [nameIn table width.selector]).Throughout
          IsSettled := settled_invocation (by simp) (by simp [settled_nameIn])
      exact ⟨_ :: _ :: _ :: ending :: others, .cons (foldsTo_self label)
        (.cons (foldsTo_self (settled_bareInstruction "prologue"))
          (.cons (foldsTo_self call) (.cons foldsTrailer related)))⟩
  obtain ⟨parts, related⟩ := entries Width.all
  have body := @foldsTo_of_items config preludePlace _ _ related
  rw [splice_entries Width.all related] at body
  have parameter := fun name => @foldsTo_self config _ (@settled_nameIn table name)
  exact foldsTo_of_parameters
    (.cons (parameter "label") (.cons (parameter "prologue") (.cons (parameter "fn") .nil))) body

structure Folds (config : Configuration) (macroNode : Node) (definition : Definition) :
    Prop where
  folds : FoldsTo config macroNode definition.node
  named : ∃ name ∈ preludeNames, definition.name = .text name ∧ ∃ parameters body,
    macroNode = .definition preludePlace (.text name) parameters body
  place : definition.origin = preludePlace

theorem folds_macrosIn {value : Bool} (enabled : config.setting? "ASSERT_ENABLED" = some value) :
    List.Forall₂ (Folds config) (macrosIn table) (foldedMacros table config) := by
  have selector : ∀ width : Width,
      Folds config (selectorIn table width) (selectorOf table width) := by
    intro width
    refine ⟨foldsTo_self (settled_selectorIn width), ⟨width.selector, ?_, rfl, _, _, rfl⟩, rfl⟩
    cases width <;> decide
  refine rel_append (forall₂_map_left_iff.mpr (forall₂_map_right_iff.mpr
    (forall₂_same.mpr fun width _ => selector width))) (.cons ?_ (.cons ?_ .nil))
  · exact ⟨foldsTo_commonIn table enabled, ⟨"commonOp", by decide, rfl, _, _, rfl⟩, rfl⟩
  · exact ⟨foldsTo_self settled_narrowIn, ⟨"op", by decide, rfl, _, _, rfl⟩, rfl⟩

theorem foldedMacros_names (config : Configuration) :
    (foldedMacros table config).map Definition.name = preludeNames.map Value.text := rfl

end Specialization

/-! ### Macros that the unit defines -/

namespace Compilation

theorem definedMacros_other {item : Node} (other : item.isDefinition = false) (rest : List Node) :
    definedMacros (item :: rest) = definedMacros rest := by
  cases item with
  | definition => cases other
  | _ => rfl

theorem exists_definedMacros {statements : List Node}
    (spelled : ∀ definition : Definition, definition.node ∈ statements →
      definition.name.isPresent → ∃ key, definition.name.toName = .ok key) :
    ∃ defined, definedMacros statements = .ok defined := by
  induction statements with
  | nil => exact ⟨[], rfl⟩
  | cons item rest ih =>
    obtain ⟨others, listed⟩ := ih fun definition mem =>
      spelled definition (mem_cons_of_mem _ mem)
    by_cases isDefinition : item.isDefinition
    · cases item with
      | definition origin name parameters body =>
        rw [definedMacros]
        split
        · rename_i present
          obtain ⟨key, same⟩ := spelled ⟨origin, name, parameters, body⟩ mem_cons_self present
          exact ⟨key :: others, by rw [same, listed]; rfl⟩
        · exact ⟨others, listed⟩
      | _ => cases isDefinition
    · rw [Bool.not_eq_true] at isDefinition
      exact ⟨others, by rw [definedMacros_other isDefinition, listed]⟩

theorem mem_definedMacros {statements : List Node} {defined : List Name} {name : String}
    (present : name ≠ "") (defines : definedMacros statements = .ok defined) :
    .text name ∈ defined ↔
      ∃ origin parameters body, .definition origin (.text name) parameters body ∈ statements := by
  induction statements generalizing defined with
  | nil =>
    cases defines
    simp
  | cons item rest ih =>
    simp only [mem_cons, exists_or]
    by_cases isDefinition : item.isDefinition
    · cases item with
      | definition origin value parameters body =>
        rw [definedMacros] at defines
        split at defines
        · obtain ⟨key, spelled, defines⟩ := Checked.bind_ok.mp defines
          obtain ⟨others, listed, same⟩ := Checked.bind_ok.mp defines
          cases same
          rw [mem_cons, ih listed]
          refine or_congr_left ⟨?_, ?_⟩
          · rintro rfl
            obtain rfl := Expander.eq_text_of_toName spelled
            exact ⟨origin, parameters, body, rfl⟩
          · rintro ⟨_, _, _, same⟩
            cases same
            exact Except.ok.inj spelled
        · rename_i absent
          rw [ih defines, or_iff_right]
          rintro ⟨_, _, _, same⟩
          cases same
          exact absent (by simpa [Value.isPresent] using present)
      | _ => cases isDefinition
    · rw [Bool.not_eq_true] at isDefinition
      rw [definedMacros_other isDefinition] at defines
      rw [ih defines, or_iff_right]
      rintro ⟨_, _, _, rfl⟩
      cases isDefinition

/-! ### Units with and without the prelude -/

variable {loaded folded : Node} {table loadedTable : SymbolTable} {limit : Int} {document : Value}
  {filename : String} {emission : Emission} {after : Compilation} {count : Nat}
  {counts : FoldCounts} {flags : List (String × Bool)} {registerNames : RegisterTable}
  {layout : List (String × Int)}

theorem exists_assertEnabled
    (made : Configuration.ofFlags flags registerNames layout = .ok config) :
    ∃ value, config.setting? "ASSERT_ENABLED" = some value := by
  unfold Configuration.ofFlags at made
  dsimp only at made
  split at made
  · cases made
    unfold Configuration.setting?
    rw [show Architecture.ofName? "ASSERT_ENABLED" = none from rfl]
    dsimp only
    rw [Association.get?_update]
    cases Association.latest? _ "ASSERT_ENABLED" with
    | some value => exact ⟨value, rfl⟩
    | none => exact ⟨false, rfl⟩
  · cases made

def undefinedNames (defined : List Name) : List String :=
  Specialization.preludeNames.filter fun name => !defined.contains (.text name)

/-- The macros that a unit defines can be listed if the folded unit can be expanded, and so can the
macros of the prelude that it does not define. -/
theorem exists_defined_of_expand {expanded : Node} {before state : Expander}
    (folds : loaded.foldedWith config = .ok (folded, counts))
    (expands : (Expander.expand limit folded).perform before = (.ok expanded, state)) :
    ∃ defined, definedMacros loaded.statements = .ok defined ∧
      ∀ name, name ∈ undefinedNames defined ↔
        name ∈ Specialization.preludeNames ∧ ¬ loaded.DefinesMacro name := by
  have foldsTo : FoldsTo config loaded folded := ⟨_, _, foldedWith_ok.mp folds⟩
  simp only [Expander.expand, perform_bind_ok, perform_modify, Prod.mk.injEq, true_and] at expands
  obtain ⟨_, _, rfl, _, collected, collects, -⟩ := expands
  have spelled : ∀ definition : Definition, definition.node ∈ loaded.statements →
      definition.name.isPresent → ∃ key, definition.name.toName = .ok key := by
    intro definition mem present
    obtain ⟨other, inside, foldsDefinition, -⟩ := exists_folded_definition foldsTo mem rfl
    obtain ⟨parameters, body, rfl, -, -⟩ := foldsTo_definition foldsDefinition
    refine @Expander.spelled_of_collectMacros _ _ _ collects
      ⟨definition.origin, definition.name, parameters, body⟩ inside ?_
    cases named : definition.name with
    | null => simp [named, Value.isPresent] at present
    | _ => rfl
  obtain ⟨defined, defines⟩ := exists_definedMacros spelled
  have present : ∀ name ∈ Specialization.preludeNames, name ≠ "" := by decide
  refine ⟨defined, defines, fun name => ?_⟩
  unfold undefinedNames
  rw [mem_filter]
  refine and_congr_right fun mem => ?_
  rw [Bool.not_eq_true', ← Bool.not_eq_true, List.contains_iff_mem,
    mem_definedMacros (present name mem) defines]
  rfl

/-- With the macros of the prelude in front that are not defined, a unit is folded to the folded
unit with macros of those names in front. -/
theorem exists_folded_extension {value : Bool} (table : SymbolTable) (defined : List Name)
    (enabled : config.setting? "ASSERT_ENABLED" = some value)
    (folds : loaded.foldedWith config = .ok (folded, counts)) : ∃ added other allCounts,
      (Node.sequence loaded.origin ((Specialization.macrosIn table).filter
        (fun definition => !definesOneOf defined definition) ++
          loaded.statements)).foldedWith config = .ok (other, allCounts) ∧
      Node.Extends (undefinedNames defined) added (.sequence folded.origin (splice folded []))
        other ∧
      (∀ name ∈ undefinedNames defined, ∃ definition ∈ added, definition.name = .text name) ∧
      ∀ definition ∈ added, definition.origin = Specialization.preludePlace := by
  have everyFolds := Specialization.folds_macrosIn table enabled
  have sameName : ∀ {macroNode : Node} {definition : Definition},
      Specialization.Folds config macroNode definition → ((!definesOneOf defined macroNode) = true ↔
          (!definesOneOf defined definition.node) = true) := by
    intro macroNode definition known
    obtain ⟨name, -, named, _, _, rfl⟩ := known.named
    rw [Definition.node, named]
    rfl
  have related : List.Forall₂ (Specialization.Folds config)
      ((Specialization.macrosIn table).filter fun definition => !definesOneOf defined definition)
      ((Specialization.foldedMacros table config).filter fun definition =>
        !definesOneOf defined definition.node) :=
    rel_filter (fun _ _ known => sameName known) everyFolds
  have foldsTo : FoldsTo config loaded folded := ⟨_, _, foldedWith_ok.mp folds⟩
  obtain ⟨allCounts, foldsAll⟩ :=
    (foldsTo_extended foldsTo (related.imp fun _ _ known => known.folds)).perform {}
  have known : ∀ definition ∈ Specialization.foldedMacros table config,
      ∃ macroNode ∈ Specialization.macrosIn table,
        Specialization.Folds config macroNode definition :=
    fun definition mem => exists_left_of_forall₂ everyFolds definition mem
  refine ⟨(Specialization.foldedMacros table config).filter fun definition =>
    !definesOneOf defined definition.node, _, allCounts, foldedWith_ok.mpr foldsAll,
    ⟨?_, ?_, ?_⟩, ?_, ?_⟩
  · intro definition mem
    obtain ⟨inside, kept⟩ := mem_filter.mp mem
    obtain ⟨_, -, isFolded⟩ := known definition inside
    obtain ⟨name, isName, named, -⟩ := isFolded.named
    rw [Definition.node, named] at kept
    exact ⟨name, mem_filter.mpr ⟨isName, kept⟩, named⟩
  · have different : (Specialization.foldedMacros table config).Pairwise
        fun first second => first.name ≠ second.name := by
      have differentNames : Specialization.preludeNames.Pairwise (· ≠ ·) := by decide
      refine pairwise_map.mp ?_
      rw [Specialization.foldedMacros_names]
      exact pairwise_map.mpr (differentNames.imp fun apart same => apart (Value.text.inj same))
    exact different.filter _
  · exact statementsOf_definitions _ _
  · intro name mem
    obtain ⟨isName, unknown⟩ := mem_filter.mp mem
    have listed : Value.text name ∈
        (Specialization.foldedMacros table config).map Definition.name := by
      rw [Specialization.foldedMacros_names]
      exact mem_map_of_mem isName
    obtain ⟨definition, inside, named⟩ := mem_map.mp listed
    refine ⟨definition, mem_filter.mpr ⟨inside, ?_⟩, named⟩
    rw [Definition.node, named]
    exact unknown
  · intro definition mem
    obtain ⟨_, -, isFolded⟩ := known definition (mem_filter.mp mem).1
    exact isFolded.place

/-- A unit that is compiled without the prelude, and that defines every macro of the prelude that it
asks for, is compiled with the prelude to the same emission if it defines these macros outside of
conditionals. If it defines one of them inside a conditional it is refused, because that macro is
defined twice then. -/
theorem prelude_conservative
    (made : Configuration.ofFlags flags registerNames layout = .ok configuration)
    (compiles : (runDocument document filename).perform
      (start configuration table false limit) = (.ok emission, after))
    (loads : table.resetReferenced.load document filename = (.ok (loaded, count), loadedTable))
    (folds : loaded.foldedWith configuration = .ok (folded, counts))
    (own : ∀ name ∈ Specialization.preludeNames, folded.LooksUp name → folded.DefinesMacro name) :
    let outcome := ((runDocument document filename).perform
      (start configuration table true limit)).1
    ((∀ name ∈ Specialization.preludeNames, folded.DefinesMacro name →
        loaded.DefinesMacro name) → outcome = .ok emission) ∧
      ((∃ name ∈ Specialization.preludeNames, folded.DefinesMacro name ∧
          ¬ loaded.DefinesMacro name) →
        ∃ name ∈ Specialization.preludeNames, folded.DefinesMacro name ∧
          ¬ loaded.DefinesMacro name ∧ ∃ place, outcome = .error (.diagnostic
            ⟨.macroRedefined name Specialization.preludePlace.text, some place, none⟩)) := by
  intro outcome
  obtain ⟨value, enabled⟩ := exists_assertEnabled made
  have unit := documentWork_ok compiles
  rw [documentWork_folded loads (.plain _ _) folds] at unit
  obtain ⟨state, statements, expands, lowers, rfl⟩ := unitWork_ok.mp unit
  obtain ⟨defined, defines, isUndefined⟩ := exists_defined_of_expand folds expands
  obtain ⟨acceptedTable, built, tables⟩ := Specialization.exists_prelude loadedTable
  obtain ⟨added, other, allCounts, foldsAll, extended, covered, placed⟩ :=
    exists_folded_extension acceptedTable defined enabled folds
  have accepts := Accepts.withPrelude defines built
  rw [← Expander.expand_spliced] at expands
  refine ⟨fun unconditional => ?_, fun ⟨name, isName, definedFolded, undefinedLoaded⟩ => ?_⟩
  · have undefined : ∀ name ∈ undefinedNames defined, ¬ folded.DefinesMacro name := by
      intro name member definedFolded
      obtain ⟨isName, undefinedLoaded⟩ := (isUndefined name).mp member
      exact undefinedLoaded (unconditional name isName definedFolded)
    have spares : folded.Spares (undefinedNames defined) := spares_iff.mpr fun name member asked =>
      undefined name member (own name ((isUndefined name).mp member).1 asked)
    obtain ⟨otherExpanded, otherState, otherExpands, alike, states⟩ :=
      Expander.expand_extended extended tables
        (fun statement member => spares.statement (Expander.mem_statements_of_spliced member))
        (fun name member defined => undefined name member
          (Expander.definesMacro_spliced.mp defined)) expands
    obtain ⟨otherFinal, otherLowers, unresolved, referenced⟩ :=
      Backend.lowerStatements_alike alike states lowers
    have emits : outcome = _ := outcome_runDocument
    rw [documentWork_folded loads accepts foldsAll,
      unitWork_ok.mpr ⟨_, _, otherExpands, otherLowers, rfl⟩] at emits
    rw [emits, emissionOf, emissionOf, ← unresolved, ← referenced]
    rfl
  · obtain ⟨definition, isAdded, named⟩ :=
      covered name ((isUndefined name).mpr ⟨isName, undefinedLoaded⟩)
    obtain ⟨first, firstAdded, firstName, member, definedTwice, place, refused⟩ :=
      Expander.expand_redefined extended tables ⟨definition, isAdded, name, named,
        Expander.definesMacro_spliced.mpr definedFolded⟩ expands
    obtain ⟨isFirstName, undefinedFirst⟩ := (isUndefined firstName).mp member
    refine ⟨firstName, isFirstName, Expander.definesMacro_spliced.mp definedTwice, undefinedFirst,
      place, ?_⟩
    rw [placed first firstAdded] at refused
    have fails : outcome = _ := outcome_runDocument
    rw [documentWork_folded loads accepts foldsAll, unitWork, perform_bind, expandWork,
      perform_ofFunction, perform_of_fst refused] at fails
    exact fails

def liveBranch (stmt : Value) : Value :=
  documentNode "IfThenElse" [("predicate", documentNode "True" []), ("then", stmt)]

/-- A unit that defines a macro of the prelude in some way and invokes it. -/
def ownMacro (define : Value → Value) : Value :=
  documentOf [
    define (documentNode "Macro" [("name", .text "op"), ("variables", .list [.text "l"]),
      ("body", documentOf [labelIn "_%l%",
        documentNode "Instruction" [("opcode", .text "nop"), ("operands", .list [])]])]),
    documentNode "Instruction" [("opcode", .text "op"), ("operands", .list [variableIn "first"])]]

def ownTree : Node :=
  let place : Origin := ⟨"<json>", 0, 0⟩
  .sequence place [
    .definition place (.text "op") [.var ⟨place, "l", .null⟩] (.sequence place
      [.label ⟨place, "_%l%"⟩, .instruction place "nop" [] .null]),
    .instruction place "op" [.var ⟨place, "first", .null⟩] .null]

def ownEmission : Emission :=
  ⟨"ARM64", ["OFFLINE_ASM_BEGIN", "OFFLINE_ASM_GLUE_LABEL(_first)", "\"\\tnop\\n\"",
    "OFFLINE_ASM_END"], [], []⟩

/-- These units ask for one macro of the prelude only, and define it. -/
theorem ownTree_definesMacro : ∀ name ∈ Specialization.preludeNames, ownTree.LooksUp name →
    ownTree.DefinesMacro name := by
  have only : ∀ name ∈ Specialization.preludeNames, ownTree.LooksUp name → name = "op" := by
    decide +kernel
  intro name mem asked
  rw [only name mem asked]
  exact ⟨_, _, _, mem_cons_self⟩

/-- A unit that defines a macro of the prelude outside of conditionals. -/
theorem prelude_conservative_op :
    (compiled (ownMacro id)).1 = .ok ownEmission ∧
      ((runDocument (ownMacro id) "<json>").perform
        (start plainMachine .empty true Expander.defaultLimit)).1 = .ok ownEmission := by
  have compiles : (compiled (ownMacro id)).1 = .ok ownEmission := by decide +kernel
  have made : Configuration.ofFlags [("ARM64", true)] [] [] = .ok plainMachine := rfl
  have loads : (SymbolTable.empty.resetReferenced.load (ownMacro id) "<json>").1 =
      .ok (ownTree, 7) := rfl
  have folds : ownTree.foldedWith plainMachine = .ok (ownTree, {}) := rfl
  exact ⟨compiles, (prelude_conservative made (perform_of_fst compiles) (Prod.ext loads rfl) folds
    ownTree_definesMacro).1 fun _ _ defined => defined⟩

/-- A unit that defines a macro of the prelude in a live branch is compiled without the prelude, and
refused with it. -/
theorem prelude_conditional_op :
    (∃ loaded count table counts, SymbolTable.empty.load (ownMacro liveBranch) "<json>" =
        (.ok (loaded, count), table) ∧
      loaded.foldedWith plainMachine = .ok (ownTree, counts) ∧
      ∀ name ∈ Specialization.preludeNames, ownTree.LooksUp name → ownTree.DefinesMacro name) ∧
    (compiled (ownMacro liveBranch)).1 = .ok ownEmission ∧
      ((runDocument (ownMacro liveBranch) "<json>").perform
        (start plainMachine .empty true Expander.defaultLimit)).1 =
          .error (.diagnostic
            ⟨.macroRedefined "op" "<prelude>:0", some ⟨"<json>", 0, 0⟩, none⟩) := by
  refine ⟨⟨_, _, _, _, rfl, rfl, ownTree_definesMacro⟩, ?_⟩
  decide +kernel

end Compilation

end MacroAssembler
