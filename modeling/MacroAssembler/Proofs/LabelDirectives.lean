/-
This module says how much of what is known about a label can be read off the line it is emitted as.

A line shows whether its label is global, whether it is aligned and what it is aligned to. Whether
the label is exported is shown as long as it is aligned to nothing in particular: the directive for
an alignment has no form for exported labels, so an alignment hides the export. Nothing else is
lost, but that is so only for labels that declarations can lead to.
-/
import MacroAssembler.Emission.Backend
import MacroAssembler.Proofs.LabelDeclarations
import MacroAssembler.Proofs.WrittenIntegers
import Mathlib.Data.List.Basic

namespace MacroAssembler

open List

theorem decimal_injective {first second : Int} (same : Text.decimal first = Text.decimal second) :
    first = second := by
  have read := Text.readSigned_decimal first
  rw [same, Text.readSigned_decimal] at read
  exact (Option.some.inj read).symm

/-! ### Directives as they are written -/

/-- Texts can be cut at the first place of a character. -/
theorem eq_of_append_cons_eq {mark : Char} {first second rest otherRest : List Char}
    (firstFree : mark ∉ first) (secondFree : mark ∉ second)
    (same : first ++ mark :: rest = second ++ mark :: otherRest) :
    first = second ∧ rest = otherRest := by
  rcases append_eq_append_iff.mp same with ⟨between, rfl, shifted⟩ | ⟨between, rfl, shifted⟩
  · cases between with
    | nil => exact ⟨(append_nil first).symm, (List.cons.inj shifted).2⟩
    | cons head tail =>
      rw [← (List.cons.inj shifted).1] at secondFree
      exact absurd (mem_append_right first mem_cons_self) secondFree
  · cases between with
    | nil => exact ⟨append_nil second, (List.cons.inj shifted).2.symm⟩
    | cons head tail =>
      rw [← (List.cons.inj shifted).1] at firstFree
      exact absurd (mem_append_right second mem_cons_self) firstFree

variable {directive other : Directive}

namespace Directive

def opening : Directive → String
  | .glue => "OFFLINE_ASM_GLUE_LABEL("
  | .global => "OFFLINE_ASM_GLOBAL_LABEL("
  | .globalExport => "OFFLINE_ASM_GLOBAL_EXPORT_LABEL("
  | .unalignedGlobal => "OFFLINE_ASM_UNALIGNED_GLOBAL_LABEL("
  | .unalignedGlobalExport => "OFFLINE_ASM_UNALIGNED_GLOBAL_EXPORT_LABEL("
  | .alignedGlobal _ => "OFFLINE_ASM_ALIGNED_GLOBAL_LABEL("

def closing : Directive → String
  | .alignedGlobal alignment => ", " ++ Text.decimal alignment ++ ")"
  | _ => ")"

theorem text_eq (directive : Directive) (name : String) :
    directive.text name = directive.opening ++ name ++ directive.closing := by
  cases directive with
  | alignedGlobal alignment =>
    show "OFFLINE_ASM_ALIGNED_GLOBAL_LABEL(" ++ name ++ ", " ++ Text.decimal alignment ++ ")" =
      "OFFLINE_ASM_ALIGNED_GLOBAL_LABEL(" ++ name ++ (", " ++ Text.decimal alignment ++ ")")
    simp only [String.append_assoc]
  | _ => rfl

/-- The first parenthesis of a directive is the one before the name of its label. -/
theorem exists_opening_eq (directive : Directive) :
    ∃ stem, directive.opening.toList = stem ++ ['('] ∧ '(' ∉ stem := by
  refine ⟨directive.opening.toList.dropLast, ?_⟩
  cases directive with
  | alignedGlobal alignment =>
    show "OFFLINE_ASM_ALIGNED_GLOBAL_LABEL(".toList =
        "OFFLINE_ASM_ALIGNED_GLOBAL_LABEL(".toList.dropLast ++ ['('] ∧
      '(' ∉ "OFFLINE_ASM_ALIGNED_GLOBAL_LABEL(".toList.dropLast
    decide +kernel
  | _ => decide +kernel

theorem eq_of_opening_eq_of_closing_eq (sameOpening : directive.opening = other.opening)
    (sameClosing : directive.closing = other.closing) : directive = other := by
  cases directive with
  | alignedGlobal alignment =>
    cases other with
    | alignedGlobal otherAlignment =>
      have characters := congrArg String.toList sameClosing
      simp only [closing, String.toList_append, append_cancel_left_eq,
        append_cancel_right_eq, String.toList_inj] at characters
      rw [decimal_injective characters]
    | _ => exact absurd sameOpening (by simp [opening])
  | _ =>
    cases other <;> first | rfl | exact absurd sameOpening (by simp [opening])

theorem text_injective {name : String} (same : directive.text name = other.text name) :
    directive = other := by
  obtain ⟨stem, opens, stemFree⟩ := directive.exists_opening_eq
  obtain ⟨otherStem, otherOpens, otherFree⟩ := other.exists_opening_eq
  have characters := congrArg String.toList same
  rw [text_eq, text_eq] at characters
  simp only [String.toList_append, opens, otherOpens, append_assoc, singleton_append] at characters
  obtain ⟨sameStem, sameRest⟩ := eq_of_append_cons_eq stemFree otherFree characters
  refine eq_of_opening_eq_of_closing_eq (String.toList_inj.mp ?_) (String.toList_inj.mp ?_)
  · rw [opens, otherOpens, sameStem]
  · exact append_cancel_left sameRest

end Directive

/-! ### What a directive shows -/

/-- What can be read off the directive of a label. Whether the label is exported may be missing. -/
structure ShownAttributes where
  isGlobal : Bool
  isAligned : Bool
  alignTo : Option Int
  isExported : Option Bool

def Directive.shown : Directive → ShownAttributes
  | .glue => ⟨false, true, none, some false⟩
  | .global => ⟨true, true, none, some false⟩
  | .globalExport => ⟨true, true, none, some true⟩
  | .unalignedGlobal => ⟨true, false, none, some false⟩
  | .unalignedGlobalExport => ⟨true, false, none, some true⟩
  | .alignedGlobal alignment => ⟨true, true, some alignment, none⟩

/-- What of the things that are known about a label is shown. -/
def LabelFlags.shown (flags : LabelFlags) : ShownAttributes where
  isGlobal := flags.isGlobal
  isAligned := flags.isAligned
  alignTo := flags.alignTo
  isExported := if flags.alignTo.isSome then none else some flags.isExported

theorem Directive.shown_injective (same : directive.shown = other.shown) : directive = other := by
  cases directive <;> cases other <;> simp_all [shown]

theorem LabelFlags.shown_eq_iff {flags other : LabelFlags} : flags.shown = other.shown ↔
      flags.isGlobal = other.isGlobal ∧ flags.isAligned = other.isAligned ∧
        flags.alignTo = other.alignTo ∧
        (flags.alignTo = none → flags.isExported = other.isExported) := by
  simp only [shown, ShownAttributes.mk.injEq]
  constructor
  · rintro ⟨sameGlobal, sameAligned, sameAlignment, sameExported⟩
    refine ⟨sameGlobal, sameAligned, sameAlignment, fun unset => ?_⟩
    simpa [← sameAlignment, unset] using sameExported
  · rintro ⟨sameGlobal, sameAligned, sameAlignment, sameExported⟩
    refine ⟨sameGlobal, sameAligned, sameAlignment, ?_⟩
    rw [← sameAlignment]
    cases alignment : flags.alignTo with
    | none => simp [sameExported alignment]
    | some _ => rfl

namespace SymbolTable

/-- The directive of a label that has one of the histories of declarations shows what is known about
it, an export under an alignment apart. -/
theorem shown_ofFlags_declaredAll {past : List LabelDeclaration} (admissible : Admissible past) :
    (Directive.ofFlags (declaredAll past)).shown = (declaredAll past).shown := by
  cases admissible with
  | none => rfl
  | global exported unaligned => cases exported <;> cases unaligned <;> rfl
  | aligned alignment => rfl
  | both exported unaligned alignment => rfl

theorem shown_ofFlags_performAll (requests : List Request) (name : String) :
    (Directive.ofFlags ((performAll requests .empty).flagsOf name)).shown =
      ((performAll requests .empty).flagsOf name).shown := by
  obtain ⟨admissible, known⟩ := declaredPart_performAll requests name
  have shows := shown_ofFlags_declaredAll admissible
  rw [← known] at shows
  exact shows

theorem lower_label (config : Configuration) (table : SymbolTable) (mark : Label) :
    (Assembly.lower config (.label mark)).perform table =
      (.ok (.statements [.label (.ofFlags (table.flagsOf mark.name)) mark.name]), table) := by
  rw [Assembly.lower]
  rfl

/-- Over any requests, a label is lowered to one line. Two labels of the same name are written alike
if and only if both or none of them are global, both or none of them are aligned, they are aligned
to the same, and, if they are not aligned to anything in particular, both or none of them are
exported. -/
theorem label_line_eq_iff (configuration otherConfiguration : Configuration)
    (requests otherRequests : List Request) (origin otherOrigin : Origin) (name : String) :
    let table := performAll requests .empty
    let otherTable := performAll otherRequests .empty
    let flags := table.flagsOf name
    let otherFlags := otherTable.flagsOf name
    ∃ line otherLine : Line,
      (Assembly.lower configuration (.label ⟨origin, name⟩)).perform table =
        (.ok (.statements [line]), table) ∧
      (Assembly.lower otherConfiguration (.label ⟨otherOrigin, name⟩)).perform otherTable =
        (.ok (.statements [otherLine]), otherTable) ∧
      (line.text = otherLine.text ↔
        flags.isGlobal = otherFlags.isGlobal ∧ flags.isAligned = otherFlags.isAligned ∧
          flags.alignTo = otherFlags.alignTo ∧
          (flags.alignTo = none → flags.isExported = otherFlags.isExported)) := by
  refine ⟨_, _, lower_label configuration _ _, lower_label otherConfiguration _ _, ?_⟩
  rw [← LabelFlags.shown_eq_iff, ← shown_ofFlags_performAll, ← shown_ofFlags_performAll]
  constructor
  · intro same
    rw [Directive.text_injective same]
  · intro same
    exact congrArg (Directive.text name) (Directive.shown_injective same)

/-- A label that is declared global and exported and then aligned is written as one that is only
aligned, which is not exported. -/
theorem alignment_hides_export :
    let origin : Origin := ⟨"<json>", 0, 0⟩
    let machine : Configuration := ⟨.arm64, Configuration.defaultFeatures, [], []⟩
    let aligned : List Request :=
      [⟨.declare (.aligned 16) "a", origin⟩, ⟨.labelDefinition "a", origin⟩]
    let plainTable := performAll aligned .empty
    let exportedTable := performAll (⟨.declare (.global true false) "a", origin⟩ :: aligned) .empty
    (exportedTable.flagsOf "a").isExported = true ∧ (plainTable.flagsOf "a").isExported = false ∧
      ((Backend.lowerStatements machine (.label ⟨origin, "a"⟩)).perform exportedTable).1 =
        .ok ["OFFLINE_ASM_ALIGNED_GLOBAL_LABEL(a, 16)"] ∧
      ((Backend.lowerStatements machine (.label ⟨origin, "a"⟩)).perform plainTable).1 =
        .ok ["OFFLINE_ASM_ALIGNED_GLOBAL_LABEL(a, 16)"] := by
  decide +kernel

end SymbolTable

end MacroAssembler
