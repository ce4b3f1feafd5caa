/-
This module says which declarations a label can have, and what they make of it.

The check for a global declaration looks at whether the label is global, and the check for an
alignment looks at whether it has one. An alignment makes its label global too. So the order
matters: a global declaration can be followed by an alignment, but not the other way round, and the
declarations that succeed on a label form one of four histories. A declaration that would leave them
is refused, and the table stays as it was.

What is known about a label apart from its definition is what the declarations of its history make
of a label that nothing is known about.
-/
import MacroAssembler.Proofs.Requests

namespace MacroAssembler.SymbolTable

variable {flags : LabelFlags} {declaration : LabelDeclaration} {past : List LabelDeclaration}

/-! ### The histories of a label -/

def declarationsOf (steps : List Step) (name : String) : List LabelDeclaration :=
  steps.filterMap fun step =>
    if step.succeeds then step.request.question.declares? name else none

/-- The declarations that a label can have: none, a global one, an alignment, or a global one that
is followed by an alignment. -/
inductive Admissible : List LabelDeclaration → Prop
  | none : Admissible []
  | global (exported unaligned : Bool) : Admissible [.global exported unaligned]
  | aligned (alignment : Int) : Admissible [.aligned alignment]
  | both (exported unaligned : Bool) (alignment : Int) :
    Admissible [.global exported unaligned, .aligned alignment]

/-- What declarations make of a label that nothing is known about. -/
def declaredAll (past : List LabelDeclaration) : LabelFlags :=
  past.foldl (fun flags declaration => declared declaration flags) {}

theorem declaredAll_concat (past : List LabelDeclaration) (declaration : LabelDeclaration) :
    declaredAll (past ++ [declaration]) = declared declaration (declaredAll past) := by
  unfold declaredAll
  rw [List.foldl_concat]

/-- A declaration fits a label if it leads to one of the histories again. -/
theorem admits_declaredAll (admissible : Admissible past) (declaration : LabelDeclaration) :
    admits (declaredAll past) declaration ↔ Admissible (past ++ [declaration]) := by
  cases admissible with
  | none =>
    cases declaration with
    | global exported unaligned => exact ⟨fun _ => .global exported unaligned, fun _ => rfl⟩
    | aligned alignment => exact ⟨fun _ => .aligned alignment, fun _ => rfl⟩
  | global exported unaligned =>
    cases declaration with
    | global => exact ⟨fun fits => absurd fits Bool.false_ne_true, nofun⟩
    | aligned alignment => exact ⟨fun _ => .both exported unaligned alignment, fun _ => rfl⟩
  | aligned | both =>
    cases declaration <;> exact ⟨fun fits => absurd fits Bool.false_ne_true, nofun⟩

theorem isGlobal_declaredAll (admissible : Admissible past) :
    (declaredAll past).isGlobal ↔ past ≠ [] := by
  cases admissible <;> simp [declaredAll, declared]

theorem isExported_declaredAll (admissible : Admissible past) :
    (declaredAll past).isExported ↔ ∃ unaligned, .global true unaligned ∈ past := by
  cases admissible <;> simp [declaredAll, declared, eq_comm]

theorem alignTo_declaredAll (admissible : Admissible past) (alignment : Int) :
    (declaredAll past).alignTo = some alignment ↔ .aligned alignment ∈ past := by
  cases admissible <;> simp [declaredAll, declared, eq_comm]

theorem isAligned_declaredAll (admissible : Admissible past) :
    (declaredAll past).isAligned = false ↔
      (∃ exported, .global exported true ∈ past) ∧ ∀ alignment, .aligned alignment ∉ past := by
  cases admissible <;> simp [declaredAll, declared]

/-! ### What is known apart from the definition -/

/-- What is known about a label, leaving aside whether it is defined. -/
def declaredPart (flags : LabelFlags) : LabelFlags :=
  { flags with isDefined := false, isExternal := true }

theorem declaredPart_declared (declaration : LabelDeclaration) (flags : LabelFlags) :
    declaredPart (declared declaration flags) = declared declaration (declaredPart flags) := by
  cases declaration <;> rfl

theorem admits_declaredPart (flags : LabelFlags) (declaration : LabelDeclaration) :
    admits (declaredPart flags) declaration = admits flags declaration := by
  cases declaration <;> rfl

/-- A request changes what is known apart from the definition only by a declaration that fits. -/
theorem declaredPart_flagsAfter (question : Question) (name : String) (flags : LabelFlags) :
    declaredPart (question.flagsAfter name flags) =
      match question.declares? name with
      | some declaration =>
        if admits flags declaration then declared declaration (declaredPart flags)
        else declaredPart flags
      | none => declaredPart flags := by
  cases question with
  | declare declaration other =>
    by_cases own : other = name
    · simp only [Question.flagsAfter, Question.defines?, Question.declares?, if_pos own,
        reduceCtorEq, if_false]
      split
      · exact declaredPart_declared declaration flags
      · rfl
    · simp [Question.flagsAfter, Question.defines?, Question.declares?, own]
  | _ =>
    simp only [Question.flagsAfter, Question.declares?]
    split <;> rfl

/-! ### The declarations of a history -/

theorem succeeds_of_declares? {step : Step} {name : String}
    (declares : step.request.question.declares? name = some declaration) :
    step.succeeds = admits (step.before.flagsOf name) declaration := by
  obtain ⟨⟨question, origin⟩, table⟩ := step
  cases question with
  | declare asked other =>
    simp only [Question.declares?, Option.ite_none_right_eq_some, Option.some.injEq] at declares
    obtain ⟨rfl, rfl⟩ := declares
    rcases declare_eq table asked other origin with ⟨fits, same⟩ | ⟨refused, problem, -, same⟩
    · simp [Step.succeeds, Step.outcome, Request.perform, same, Except.map, Except.isOk,
        Except.toBool, fits]
    · simp [Step.succeeds, Step.outcome, Request.perform, same, Except.map, Except.isOk,
        Except.toBool, refused]
  | _ => cases declares

theorem declarationsOf_concat (steps : List Step) (step : Step) (name : String) :
    declarationsOf (steps ++ [step]) name = declarationsOf steps name ++
        match step.request.question.declares? name with
        | some declaration =>
          if admits (step.before.flagsOf name) declaration then [declaration] else []
        | none => [] := by
  unfold declarationsOf
  rw [List.filterMap_append]
  congr 1
  cases declares : step.request.question.declares? name with
  | none => simp [declares]
  | some declaration =>
    have outcome := succeeds_of_declares? declares
    cases succeeds : step.succeeds <;> simp [declares, ← outcome, succeeds]

/-- The declarations that succeed on a label form one of the histories, and say what is known about
it apart from its definition. -/
theorem declaredPart_performAll (requests : List Request) (name : String) :
    Admissible (declarationsOf (history requests .empty) name) ∧
      declaredPart ((performAll requests .empty).flagsOf name) =
        declaredAll (declarationsOf (history requests .empty) name) := by
  induction requests using List.reverseRecOn with
  | nil => exact ⟨.none, rfl⟩
  | append_singleton earlier request ih =>
    obtain ⟨admissible, known⟩ := ih
    rw [history_concat, declarationsOf_concat, performAll_concat, flagsOf_after,
      declaredPart_flagsAfter]
    dsimp only
    rw [known]
    cases request.question.declares? name with
    | none =>
      rw [List.append_nil]
      exact ⟨admissible, rfl⟩
    | some declaration =>
      dsimp only
      by_cases fits : admits ((performAll earlier .empty).flagsOf name) declaration
      · rw [if_pos fits, if_pos fits, declaredAll_concat]
        rw [← admits_declaredPart, known, admits_declaredAll admissible] at fits
        exact ⟨fits, rfl⟩
      · rw [if_neg fits, if_neg fits, List.append_nil]
        exact ⟨admissible, rfl⟩

/-- Over any requests, the declarations that succeed on a label form one of the four histories. A
further one succeeds if it leads to one of them again, and is refused with the table as it was
otherwise. The label is global if it has a declaration, exported if it is declared global and
exported, aligned to what it is declared to be aligned to, and unaligned if it is declared global
and unaligned and not aligned after that. -/
theorem label_declarations (requests : List Request) (name : String) :
    let table := performAll requests .empty
    let past := declarationsOf (history requests .empty) name
    let flags := table.flagsOf name
    Admissible past ∧
    (∀ declaration origin,
      (Admissible (past ++ [declaration]) →
        ∃ mark : Label, mark.name = name ∧ (table.declare declaration name origin).1 = .ok mark) ∧
      (¬ Admissible (past ++ [declaration]) →
        ∃ problem : Diagnostic, problem.cause.kind = .labelDeclaration ∧
          table.declare declaration name origin = (.error (.diagnostic problem), table))) ∧
    (flags.isGlobal ↔ past ≠ []) ∧
    (flags.isExported ↔ ∃ unaligned, .global true unaligned ∈ past) ∧
    (∀ alignment, flags.alignTo = some alignment ↔ .aligned alignment ∈ past) ∧
    (flags.isAligned = false ↔
      (∃ exported, .global exported true ∈ past) ∧ ∀ alignment, .aligned alignment ∉ past) := by
  obtain ⟨admissible, known⟩ := declaredPart_performAll requests name
  refine ⟨admissible, fun declaration origin => ?_, ?_, ?_, fun alignment => ?_, ?_⟩
  · rw [← admits_declaredAll admissible, ← known, admits_declaredPart]
    rcases declare_eq (performAll requests .empty) declaration name origin with
      ⟨fits, same⟩ | ⟨refused, problem, kind, same⟩
    · exact ⟨fun _ => ⟨_, label_name origin, by rw [same]⟩, fun refused => absurd fits refused⟩
    · exact ⟨fun fits => absurd fits (Bool.eq_false_iff.mp refused),
        fun _ => ⟨problem, kind, same⟩⟩
  · rw [← isGlobal_declaredAll admissible, ← known]
    rfl
  · rw [← isExported_declaredAll admissible, ← known]
    rfl
  · rw [← alignTo_declaredAll admissible, ← known]
    rfl
  · rw [← isAligned_declaredAll admissible, ← known]
    rfl

end MacroAssembler.SymbolTable
