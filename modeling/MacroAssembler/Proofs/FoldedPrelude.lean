/-
This module says what folding leaves of the macros of the prelude.

The only condition in the prelude is the one of the trailer, which stands three times in the macro
that lays out the entry points. Folding decides it: what is left of a trailer are its two traps, or
nothing. All other macros of the prelude are folded to themselves, and a macro that a unit defines
stands in the folded unit as it is folded.
-/
import MacroAssembler.Proofs.FoldedStatements
import MacroAssembler.Proofs.PreludeMacros

namespace MacroAssembler

open List

/-! ### Folded definitions -/

variable {tree : Node}

namespace Folding

open Node

variable {config : Configuration}

theorem FoldsTo.eq_of_settled {result : Node} (folds : FoldsTo config tree result)
    (settled : tree.Throughout IsSettled) : result = tree :=
  folds.unique ⟨{}, {}, fold_self tree settled⟩

theorem mem_statementsOf_spliced {items : List Node} {item part : Node} (mem : item ∈ items)
    (inside : part ∈ item.statements) (effective : part.isSkip = false) :
    part ∈ statementsOf (items.foldr splice []) := by
  induction items with
  | nil => cases mem
  | cons first rest ih =>
    rw [foldr_cons, mem_statementsOf]
    rcases mem_cons.mp mem with rfl | later
    · cases item with
      | sequence origin parts =>
        obtain ⟨piece, pieceMem, inPiece⟩ := mem_statementsOf.mp inside
        exact ⟨piece, mem_append_left _ pieceMem, inPiece⟩
      | skip origin =>
        obtain rfl := mem_singleton.mp inside
        cases effective
      | _ => exact ⟨_, mem_cons_self, inside⟩
    · obtain ⟨piece, pieceMem, inPiece⟩ := mem_statementsOf.mp (ih later)
      rw [splice_eq_append]
      exact ⟨piece, mem_append_right _ pieceMem, inPiece⟩

theorem exists_folded_definition : ∀ {unit : Node},
    FoldsTo config tree unit → ∀ {definition : Node}, definition ∈ tree.statements →
      definition.isDefinition → ∃ folded ∈ unit.statements, FoldsTo config definition folded ∧
          folded.isDefinition := by
  induction tree with
  | step tree ih =>
    intro unit folds definition mem isDefinition
    by_cases single : tree.isSequence
    · cases tree with
      | sequence origin items =>
        obtain ⟨foldedItems, related, rfl⟩ := foldsTo_sequence folds
        obtain ⟨item, itemMem, inside⟩ := mem_statementsOf.mp mem
        obtain ⟨foldedItem, foldedMem, foldsItem⟩ :=
          exists_left_of_forall₂ related.flip item itemMem
        obtain ⟨folded, foldedInside, foldsDefinition, stays⟩ :=
          ih item itemMem foldsItem inside isDefinition
        refine ⟨folded, mem_statementsOf_spliced foldedMem foldedInside ?_, foldsDefinition, stays⟩
        cases folded with
        | skip => cases stays
        | _ => rfl
      | _ => cases single
    · have same : tree.statements = [tree] := by
        cases tree with
        | sequence => exact absurd rfl single
        | _ => rfl
      rw [same] at mem
      obtain rfl := mem_singleton.mp mem
      cases definition with
      | definition origin name parameters body =>
        obtain ⟨_, _, rfl, -, -⟩ := foldsTo_definition folds
        exact ⟨_, mem_singleton_self _, folds, rfl⟩
      | _ => cases isDefinition

end Folding

/-! ### The macros of the prelude -/

namespace Specialization

open Folding Node

section Definitions

variable (table : SymbolTable)

def trap : Node := bareInstruction preludePlace "break"

def selectorOf (width : Width) : Definition :=
  ⟨preludePlace, .text width.selector,
    Width.all.map (fun other => nameIn table (chosen other)) ++ [nameIn table "k"],
    .sequence preludePlace [invocation preludePlace "k" [nameIn table (chosen width)]]⟩

/-- What is left of the trailer of an entry point: its two traps if assertions are enabled. -/
def foldedTrailer (config : Configuration) : List Node :=
  if config.setting? "ASSERT_ENABLED" = some true then [trap, trap] else []

def foldedEntry (config : Configuration) (width : Width) : List Node :=
  .label (table.labelOf (width.labelName commonLabel)) :: bareInstruction preludePlace "prologue" ::
    invocation preludePlace "fn" [nameIn table width.selector] :: foldedTrailer config

/-- The macro that lays out the entry points of an opcode, folded. -/
def commonOf (config : Configuration) : Definition :=
  ⟨preludePlace, .text "commonOp", [nameIn table "label", nameIn table "prologue", nameIn table "fn"],
    .sequence preludePlace (Width.all.flatMap (foldedEntry table config))⟩

def emptyMacro : Definition := ⟨preludePlace, .null, [], .sequence preludePlace []⟩

def trapMacro : Definition := ⟨preludePlace, .null, [], .sequence preludePlace [trap]⟩

def generateOf : Definition :=
  ⟨preludePlace, .null, [nameIn table "gen"],
    .sequence preludePlace [bareInstruction preludePlace "gen"]⟩

/-- The macro that lets its parameter select among a macro for the narrow form and two traps. -/
def selectOf : Definition :=
  ⟨preludePlace, .null, [nameIn table "size"],
    .sequence preludePlace [invocation preludePlace "size" [nameIn table "fn",
      anonymous preludePlace [] [trap], anonymous preludePlace [] [trap],
      anonymous preludePlace [nameIn table "gen"] [bareInstruction preludePlace "gen"]]]⟩

def narrowOf : Definition :=
  ⟨preludePlace, .text "op", [nameIn table "l", nameIn table "fn"],
    .sequence preludePlace [invocation preludePlace "commonOp" [nameIn table "l",
      anonymous preludePlace [] [],
      .definition preludePlace .null (selectOf table).parameters (selectOf table).body]]⟩

end Definitions

variable {config : Configuration} {table : SymbolTable}

theorem settled_nameIn (name : String) : (nameIn table name).Throughout IsSettled := by
  rw [throughout_iff]
  exact ⟨⟨isDecided_of_not_sequence rfl rfl rfl, trivial⟩, by simp [nameIn, children]⟩

theorem settled_bareInstruction (opcode : String) :
    (bareInstruction preludePlace opcode).Throughout IsSettled := by
  rw [throughout_iff]
  exact ⟨⟨isDecided_of_not_sequence rfl rfl rfl, trivial⟩, by simp [bareInstruction, children]⟩

variable {operands : List Node} {name : String}

theorem settled_invocation (given : operands ≠ [])
    (each : ∀ operand ∈ operands, operand.Throughout IsSettled) :
    (invocation preludePlace name operands).Throughout IsSettled := by
  rw [throughout_iff]
  exact ⟨⟨isDecided_of_not_sequence rfl rfl rfl, given⟩, each⟩

theorem settled_statements {statements : List Node}
    (each : ∀ stmt ∈ statements, IsSplicedItem stmt) :
    (Node.sequence preludePlace statements).Throughout IsSettled := by
  rw [throughout_iff]
  exact ⟨⟨⟨rfl, rfl, fun _ item mem => (each item mem).2⟩, trivial⟩,
    fun item mem => (each item mem).1⟩

theorem settled_macro {name : Value} {parameters : List Node} {body : Node}
    (ofParameters : ∀ parameter ∈ parameters, parameter.Throughout IsSettled)
    (ofBody : body.Throughout IsSettled) :
    (Node.definition preludePlace name parameters body).Throughout IsSettled := by
  rw [throughout_iff]
  refine ⟨⟨isDecided_of_not_sequence rfl rfl rfl, trivial⟩, fun child mem => ?_⟩
  rcases mem_append.mp mem with parameter | last
  · exact ofParameters child parameter
  · rwa [mem_singleton.mp last]

theorem splicedItem_bareInstruction (opcode : String) :
    IsSplicedItem (bareInstruction preludePlace opcode) :=
  ⟨settled_bareInstruction opcode, rfl, rfl⟩

theorem splicedItem_invocation (given : operands ≠ [])
    (each : ∀ operand ∈ operands, operand.Throughout IsSettled) :
    IsSplicedItem (invocation preludePlace name operands) :=
  ⟨settled_invocation given each, rfl, rfl⟩

theorem settled_selectorIn (width : Width) : (selectorIn table width).Throughout IsSettled := by
  refine settled_macro (fun parameter mem => ?_) (settled_statements ?_)
  · rcases mem_append.mp mem with function | last
    · obtain ⟨_, -, rfl⟩ := mem_map.mp function
      exact settled_nameIn _
    · rw [mem_singleton.mp last]
      exact settled_nameIn _
  · rw [forall_mem_singleton]
    exact splicedItem_invocation (by simp) (by simp [settled_nameIn])

theorem settled_narrowIn : (narrowIn table).Throughout IsSettled := by
  have traps : (anonymous preludePlace [] [bareInstruction preludePlace "break"]).Throughout
      IsSettled :=
    settled_macro (by simp) (settled_statements (by simp [splicedItem_bareInstruction]))
  have generates : (anonymous preludePlace [nameIn table "gen"]
      [bareInstruction preludePlace "gen"]).Throughout IsSettled :=
    settled_macro (by simp [settled_nameIn])
      (settled_statements (by simp [splicedItem_bareInstruction]))
  have empty : (anonymous preludePlace [] []).Throughout IsSettled :=
    settled_macro (by simp) (settled_statements (by simp))
  refine settled_macro (by simp [settled_nameIn]) (settled_statements ?_)
  rw [forall_mem_singleton]
  refine splicedItem_invocation (by simp) ?_
  simp only [forall_mem_cons, not_mem_nil, false_implies, implies_true, and_true]
  refine ⟨settled_nameIn "l", empty, settled_macro (by simp [settled_nameIn]) ?_⟩
  refine settled_statements ?_
  rw [forall_mem_singleton]
  exact splicedItem_invocation (by simp) (by simp [settled_nameIn, traps, generates])

/-- The trailer of an entry point is folded to its traps if assertions are enabled, and to nothing
otherwise. -/
theorem splice_trailer {folded : Node} (folds : FoldsTo config (trailerIn table) folded)
    (rest : List Node) : splice folded rest = foldedTrailer config ++ rest := by
  obtain ⟨value, evaluates⟩ := evaluate_of_foldsTo folds
  have live := foldsTo_conditional evaluates folds
  obtain ⟨origin, setting⟩ := table.exists_settingOf "ASSERT_ENABLED"
  rw [setting, Node.evaluate, Configuration.isSet] at evaluates
  split at evaluates
  · rename_i found
    cases evaluates
    unfold foldedTrailer
    rw [found]
    cases value with
    | true =>
      have settled : (Node.sequence preludePlace [trap, trap]).Throughout IsSettled :=
        settled_statements (by simp [trap, splicedItem_bareInstruction])
      rw [live.eq_of_settled settled]
      rfl
    | false =>
      have settled : (Node.skip preludePlace).Throughout IsSettled := by
        rw [throughout_iff]
        exact ⟨⟨isDecided_of_not_sequence rfl rfl rfl, trivial⟩, by simp [children]⟩
      rw [live.eq_of_settled settled]
      rfl
  · cases evaluates

theorem splice_entries (widths : List Width) : ∀ {folded : List Node},
    List.Forall₂ (FoldsTo config) (widths.flatMap (entryIn table)) folded →
      folded.foldr splice [] = widths.flatMap (foldedEntry table config) := by
  induction widths with
  | nil =>
    intro folded related
    cases related
    rfl
  | cons width rest ih =>
    intro folded related
    have label : (Node.label (table.labelOf (width.labelName commonLabel))).Throughout
        IsSettled := by
      rw [throughout_iff]
      exact ⟨⟨isDecided_of_not_sequence rfl rfl rfl, trivial⟩, by simp [children]⟩
    obtain _ | ⟨foldsLabel, related⟩ := related
    obtain _ | ⟨foldsPrologue, related⟩ := related
    obtain _ | ⟨foldsCall, related⟩ := related
    obtain _ | ⟨foldsTrailer, related⟩ := related
    rw [foldsLabel.eq_of_settled label,
      foldsPrologue.eq_of_settled (settled_bareInstruction "prologue"),
      foldsCall.eq_of_settled (settled_invocation (by simp) (by simp [settled_nameIn])),
      foldr_cons, foldr_cons, foldr_cons, foldr_cons,
      splice_trailer foldsTrailer, ih related]
    rfl

theorem mem_folded_prelude {unit : Node} (folds : FoldsTo config tree unit)
    (defined : ∀ definition ∈ macrosIn table, definition ∈ tree.statements) :
    (∀ width, selectorIn table width ∈ unit.statements) ∧
      .definition preludePlace (.text "commonOp") (commonOf table config).parameters
        (commonOf table config).body ∈ unit.statements ∧ narrowIn table ∈ unit.statements := by
  refine ⟨fun width => ?_, ?_, ?_⟩
  · have written : selectorIn table width ∈ tree.statements :=
      defined _ (mem_append_left _ (mem_map_of_mem (by cases width <;> decide)))
    obtain ⟨folded, mem, foldsSelector, -⟩ := exists_folded_definition folds written rfl
    rwa [foldsSelector.eq_of_settled (settled_selectorIn width)] at mem
  · have written : commonIn table ∈ tree.statements :=
      defined _ (mem_append_right _ mem_cons_self)
    obtain ⟨folded, mem, foldsCommon, -⟩ := exists_folded_definition folds written rfl
    obtain ⟨parameters, body, rfl, foldsParameters, foldsBody⟩ := foldsTo_definition foldsCommon
    obtain ⟨items, foldsItems, rfl⟩ := foldsTo_sequence foldsBody
    rw [splice_entries Width.all foldsItems] at mem
    obtain _ | ⟨first, foldsParameters⟩ := foldsParameters
    obtain _ | ⟨second, foldsParameters⟩ := foldsParameters
    obtain _ | ⟨third, foldsParameters⟩ := foldsParameters
    obtain _ | _ := foldsParameters
    rwa [first.eq_of_settled (settled_nameIn _), second.eq_of_settled (settled_nameIn _),
      third.eq_of_settled (settled_nameIn _)] at mem
  · have written : narrowIn table ∈ tree.statements :=
      defined _ (mem_append_right _ (mem_cons_of_mem _ mem_cons_self))
    obtain ⟨folded, mem, foldsNarrow, -⟩ := exists_folded_definition folds written rfl
    rwa [foldsNarrow.eq_of_settled settled_narrowIn] at mem

end Specialization

end MacroAssembler
