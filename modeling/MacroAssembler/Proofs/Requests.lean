/-
This module says what can be asked of a symbol table, and what a request does to the labels.

A request may change what is known about one label: a definition makes it internal, and a
declaration that fits sets the flags it is about. A request may also note the use of a label, which
becomes a forward reference if it is external. That is stated once for every request here:
`flagsOf_after` and `referenced_after` say what is known after a step by what was known before. What
is true of the labels after many requests is derived from the two, by induction on the requests,
without looking at the requests again.
-/
import MacroAssembler.Proofs.FreshLabel
import MacroAssembler.Proofs.Labels

namespace MacroAssembler

/-! ### Kinds of symbols -/

/-- The kinds of symbols that go by a name alone. -/
inductive SymbolKind
  | register
  | floatRegister
  | vectorRegister
  | var
  | expression
  | setting
  | size
  | label
  | localLabel
deriving DecidableEq, Repr

variable {name : String} {kind : SymbolKind}

namespace SymbolKind

def key : SymbolKind → String → SymbolKey
  | .register, name => .register .general name
  | .floatRegister, name => .register .float name
  | .vectorRegister, name => .register .vector name
  | .var, name => .var name
  | .expression, name => .expression name
  | .setting, name => .setting name
  | .size, name => .size (.text name)
  | .label, name => .label name
  | .localLabel, name => .localLabel (.text name)

/-- The symbol of a kind that has a name, with its location and, if it is a variable, the name that
it was written with. -/
def node : SymbolKind → String → Origin → Value → Node
  | .register, name, origin, _ => .register origin .general name
  | .floatRegister, name, origin, _ => .register origin .float name
  | .vectorRegister, name, origin, _ => .register origin .vector name
  | .var, name, origin, writtenName => .var ⟨origin, name, writtenName⟩
  | .expression, name, origin, _ => .layout origin (.expression name)
  | .setting, name, origin, _ => .setting origin name
  | .size, name, origin, _ => .layout origin (.size (.text name))
  | .label, name, origin, _ => .label ⟨origin, name⟩
  | .localLabel, name, origin, _ => .localLabel ⟨origin, .text name⟩

/-- Kind and name can be read off an identity. -/
theorem key_inj {other : SymbolKind} {otherName : String} :
    kind.key name = other.key otherName ↔ kind = other ∧ name = otherName := by
  cases kind <;> cases other <;> simp [key]

end SymbolKind

namespace SymbolTable

def symbol (table : SymbolTable) (kind : SymbolKind) (name : String) (origin : Origin)
    (writtenName : Value) : Node × SymbolTable :=
  match kind with
  | .register => table.register .general name origin
  | .floatRegister => table.register .float name origin
  | .vectorRegister => table.register .vector name origin
  | .var => table.variableNamed name origin writtenName
  | .expression => table.layoutConstant (.expression name) origin
  | .setting => table.setting name origin
  | .size => table.layoutConstant (.size (.text name)) origin
  | .label =>
    let (mark, table) := table.label name origin
    (.label mark, table)
  | .localLabel =>
    let (mark, table) := table.localLabel (.text name) origin
    (.localLabel mark, table)

/-! ### Requests -/

/-- What can be asked of a symbol table. -/
inductive Question
  | symbol (kind : SymbolKind) (name : String) (writtenName : Value)
  | fieldOffset (struct field : String)
  | freshLocalLabel (comment : String)
  | labelReference (name : String) (offset : Int)
  | noteUse (name : String)
  | defineLabel (name : String)
  | labelDefinition (name : String)
  | declare (declaration : LabelDeclaration) (name : String)
  | resetReferenced

structure Request where
  question : Question
  origin : Origin

/-- The outcome of a request, with the node that it is answered with if there is one, and the table
that it leaves. A use is noted of a label of the table, so the label is interned first. -/
def Request.perform (request : Request) (table : SymbolTable) :
    Checked (Option Node) × SymbolTable :=
  let origin := request.origin
  match request.question with
  | .symbol kind name writtenName =>
    let (node, table) := table.symbol kind name origin writtenName
    (.ok (some node), table)
  | .fieldOffset struct field =>
    let (node, table) := table.layoutConstant (.offset struct field) origin
    (.ok (some node), table)
  | .freshLocalLabel comment =>
    let (mark, table) := table.freshLocalLabel comment origin
    (.ok (some (.localLabel mark)), table)
  | .labelReference name offset =>
    let (node, table) := table.labelReference name origin offset
    (.ok (some node), table)
  | .noteUse name =>
    let (mark, table) := table.label name origin
    (.ok (some (.label mark)), table.noteUse name)
  | .defineLabel name =>
    let (mark, table) := table.defineLabel name origin
    (.ok (some (.label mark)), table)
  | .labelDefinition name =>
    let (mark, table) := table.labelDefinition name origin
    (.ok (some (.label mark)), table)
  | .declare declaration name =>
    let (outcome, table) := table.declare declaration name origin
    (outcome.map fun mark => some (.label mark), table)
  | .resetReferenced => (.ok none, table.resetReferenced)

structure Step where
  request : Request
  before : SymbolTable

namespace Step

def outcome (step : Step) : Checked (Option Node) := (step.request.perform step.before).1

def after (step : Step) : SymbolTable := (step.request.perform step.before).2

def succeeds (step : Step) : Bool := step.outcome.isOk

end Step

def performAll : List Request → SymbolTable → SymbolTable
  | [], table => table
  | request :: rest, table => performAll rest (Step.after ⟨request, table⟩)

def history : List Request → SymbolTable → List Step
  | [], _ => []
  | request :: rest, table => ⟨request, table⟩ :: history rest (Step.after ⟨request, table⟩)

theorem performAll_append (first second : List Request) (table : SymbolTable) :
    performAll (first ++ second) table = performAll second (performAll first table) := by
  induction first generalizing table with
  | nil => rfl
  | cons request rest ih => exact ih _

theorem history_append (first second : List Request) (table : SymbolTable) :
    history (first ++ second) table =
      history first table ++ history second (performAll first table) := by
  induction first generalizing table with
  | nil => rfl
  | cons request rest ih =>
    rw [List.cons_append, history, history, ih]
    rfl

theorem performAll_concat (requests : List Request) (request : Request) (table : SymbolTable) :
    performAll (requests ++ [request]) table = Step.after ⟨request, performAll requests table⟩ :=
  performAll_append requests [request] table

theorem history_concat (requests : List Request) (request : Request) (table : SymbolTable) :
    history (requests ++ [request]) table =
      history requests table ++ [⟨request, performAll requests table⟩] :=
  history_append requests [request] table

theorem exists_of_mem_history {requests : List Request} {table : SymbolTable} {step : Step}
    (mem : step ∈ history requests table) :
    ∃ earlier later, requests = earlier ++ step.request :: later ∧
      step.before = performAll earlier table := by
  induction requests generalizing table with
  | nil => cases mem
  | cons request rest ih =>
    rcases List.mem_cons.mp mem with rfl | inRest
    · exact ⟨[], rest, rfl, rfl⟩
    · obtain ⟨earlier, later, rfl, before⟩ := ih inRest
      exact ⟨request :: earlier, later, rfl, before⟩

/-! ### What the parts of a table are for -/

variable {table : SymbolTable}

theorem exists_intern (table : SymbolTable) (node : Node) :
    ∃ symbols, (table.intern node).2 = { table with symbols := symbols } := by
  unfold intern
  split
  · exact ⟨table.symbols, rfl⟩
  · split
    · exact ⟨table.symbols, rfl⟩
    · exact ⟨_, rfl⟩

theorem exists_localLabel (table : SymbolTable) (name : Name) (origin : Origin) :
    ∃ symbols, (table.localLabel name origin).2 = { table with symbols := symbols } := by
  unfold localLabel
  split
  · exact ⟨table.symbols, rfl⟩
  · exact ⟨_, rfl⟩

theorem exists_label (table : SymbolTable) (name : String) (origin : Origin) :
    ∃ labels, (table.label name origin).2 = { table with labels := labels } := by
  unfold label
  split
  · exact ⟨table.labels, rfl⟩
  · unfold withLabel
    split
    · exact ⟨table.labels, rfl⟩
    · exact ⟨_, rfl⟩

theorem exists_symbol (table : SymbolTable) (other : kind ≠ .label) (name : String)
    (origin : Origin) (writtenName : Value) : ∃ symbols,
      (table.symbol kind name origin writtenName).2 = { table with symbols := symbols } := by
  cases kind with
  | label => exact absurd rfl other
  | localLabel => exact exists_localLabel table (.text name) origin
  | _ => exact exists_intern table _

/-! ### What is known about a label -/

/-- Whether a declaration fits what is known about a label. -/
def admits (flags : LabelFlags) : LabelDeclaration → Bool
  | .global .. => !flags.isGlobal
  | .aligned _ => flags.alignTo.isNone

variable {declaration : LabelDeclaration} {flags : LabelFlags} {first : Origin}

theorem conflict?_eq_none :
    conflict? declaration name first flags = none ↔ admits flags declaration := by
  cases declaration with
  | global => cases global : flags.isGlobal <;> simp [conflict?, admits, global]
  | aligned => simp [conflict?, admits]

theorem kind_of_conflict? {cause : Cause}
    (conflicts : conflict? declaration name first flags = some cause) :
    cause.kind = .labelDeclaration := by
  cases declaration with
  | global =>
    simp only [conflict?, Option.ite_none_right_eq_some, Option.some.injEq] at conflicts
    obtain ⟨-, rfl⟩ := conflicts
    rfl
  | aligned =>
    obtain ⟨_, -, rfl⟩ := Option.map_eq_some_iff.mp conflicts
    rfl

namespace Question

def defines? : Question → Option String
  | .defineLabel name => some name
  | .labelDefinition name => if isTemplate name then none else some name
  | _ => none

def declares? : Question → String → Option LabelDeclaration
  | .declare declaration name, other => if name = other then some declaration else none
  | _, _ => none

def notes? : Question → Option String
  | .noteUse name => some name
  | .labelReference name _ => if isTemplate name then none else some name
  | _ => none

def isReset : Question → Bool
  | .resetReferenced => true
  | _ => false

/-- What is known about a label after a request, by what was known before. -/
def flagsAfter (question : Question) (name : String) (flags : LabelFlags) : LabelFlags :=
  if question.defines? = some name then { flags with isDefined := true, isExternal := false }
  else
    match question.declares? name with
    | some declaration => if admits flags declaration then declared declaration flags else flags
    | none => flags

/-- The forward references after a request, by those before and by which labels are external. -/
def referencedAfter (question : Question) (isExternal : String → Bool)
    (referenced : List String) : List String :=
  if question.isReset then []
  else
    match question.notes? with
    | some name =>
      if isExternal name && !referenced.contains name then referenced ++ [name] else referenced
    | none => referenced

end Question

theorem label_eq_of_not_admits (table : SymbolTable) (declaration : LabelDeclaration)
    (name : String) (origin : Origin) (refused : admits (table.flagsOf name) declaration = false) :
    (table.label name origin).2 = table := by
  unfold label
  split
  · rfl
  · rename_i missing
    simp only [flagsOf, missing] at refused
    cases declaration <;> cases refused

theorem declare_eq (table : SymbolTable) (declaration : LabelDeclaration) (name : String)
    (origin : Origin) : (admits (table.flagsOf name) declaration ∧
      table.declare declaration name origin = (.ok (table.label name origin).1,
        (table.label name origin).2.updateFlags name (declared declaration))) ∨
    (admits (table.flagsOf name) declaration = false ∧
      ∃ problem : Diagnostic, problem.cause.kind = .labelDeclaration ∧
        table.declare declaration name origin = (.error (.diagnostic problem), table)) := by
  -- The label is interned before the check, which does not touch what is known about it.
  have sameFlags := table.flagsOf_label name origin name
  have unchanged := table.label_eq_of_not_admits declaration name origin
  unfold declare
  generalize table.label name origin = labelled at sameFlags unchanged ⊢
  obtain ⟨mark, interned⟩ := labelled
  dsimp only at sameFlags unchanged ⊢
  rw [sameFlags]
  cases conflict : conflict? declaration name mark.origin (table.flagsOf name) with
  | none => exact .inl ⟨conflict?_eq_none.mp conflict, rfl⟩
  | some cause =>
    have refused : admits (table.flagsOf name) declaration = false := by
      rw [← Bool.not_eq_true, ← conflict?_eq_none, conflict]
      exact Option.some_ne_none cause
    refine .inr ⟨refused, ⟨cause, origin, none⟩, kind_of_conflict? conflict, ?_⟩
    rw [unchanged refused]
    rfl

theorem flagsOf_declare (declaration : LabelDeclaration) (name : String) (origin : Origin)
    (other : String) : (table.declare declaration name origin).2.flagsOf other =
      if name = other ∧ admits (table.flagsOf other) declaration then
        declared declaration (table.flagsOf other) else table.flagsOf other := by
  rcases declare_eq table declaration name origin with ⟨fits, same⟩ | ⟨refused, problem, -, same⟩
  · rw [same, flagsOf_updateFlags (isSome_findLabel?_label table name origin), flagsOf_label]
    by_cases own : name = other
    · subst own
      simp [fits]
    · simp [own]
  · rw [same]
    refine (if_neg ?_).symm
    rintro ⟨rfl, fits⟩
    exact absurd fits (Bool.eq_false_iff.mp refused)

/-- What is known about a label after a step depends only on what was known about it before. -/
theorem flagsOf_after (step : Step) (name : String) : step.after.flagsOf name =
      step.request.question.flagsAfter name (step.before.flagsOf name) := by
  obtain ⟨⟨question, origin⟩, table⟩ := step
  cases question with
  | symbol kind asked writtenName =>
    show (table.symbol kind asked origin writtenName).2.flagsOf name = table.flagsOf name
    by_cases isLabel : kind = .label
    · subst isLabel
      exact flagsOf_label asked origin name
    · obtain ⟨symbols, same⟩ := exists_symbol table isLabel asked origin writtenName
      rw [same]
      rfl
  | fieldOffset struct field =>
    show (table.intern (.layout origin (.offset struct field))).2.flagsOf name = table.flagsOf name
    obtain ⟨symbols, same⟩ := exists_intern table (.layout origin (.offset struct field))
    rw [same]
    rfl
  | freshLocalLabel comment =>
    show (table.freshLocalLabel comment origin).2.flagsOf name = table.flagsOf name
    rw [(draws_freshLocalLabel table comment origin).table]
    rfl
  | labelReference asked offset => exact (uses_labelReference origin offset).flags name
  | noteUse asked => exact ((uses_label table asked origin).trans uses_noteUse).flags name
  | defineLabel asked =>
    show (table.defineLabel asked origin).2.flagsOf name = _
    rw [flagsOf_defineLabel]
    simp [Question.flagsAfter, Question.defines?, Question.declares?]
  | labelDefinition asked =>
    show (table.labelDefinition asked origin).2.flagsOf name = _
    unfold labelDefinition
    by_cases template : isTemplate asked
    · rw [if_pos template, flagsOf_label]
      simp [Question.flagsAfter, Question.defines?, Question.declares?, template]
    · rw [if_neg template, flagsOf_defineLabel]
      simp [Question.flagsAfter, Question.defines?, Question.declares?, template]
  | declare declaration asked =>
    show (table.declare declaration asked origin).2.flagsOf name = _
    rw [flagsOf_declare]
    by_cases own : asked = name
    · simp [Question.flagsAfter, Question.defines?, Question.declares?, own]
    · simp [Question.flagsAfter, Question.defines?, Question.declares?, own]
  | resetReferenced => rfl

theorem referenced_label (name : String) (origin : Origin) :
    (table.label name origin).2.referenced = table.referenced := by
  obtain ⟨labels, same⟩ := exists_label table name origin
  rw [same]

theorem referenced_noteUse_label (name : String) (origin : Origin) :
    ((table.label name origin).2.noteUse name).referenced =
      if (table.flagsOf name).isExternal && !table.referenced.contains name then
        table.referenced ++ [name] else table.referenced := by
  unfold noteUse
  rw [flagsOf_label, referenced_label]
  split
  · rfl
  · exact referenced_label name origin

theorem referenced_after (step : Step) : step.after.referenced =
      step.request.question.referencedAfter (fun name => (step.before.flagsOf name).isExternal)
        step.before.referenced := by
  obtain ⟨⟨question, origin⟩, table⟩ := step
  cases question with
  | symbol kind asked writtenName =>
    show (table.symbol kind asked origin writtenName).2.referenced = table.referenced
    by_cases isLabel : kind = .label
    · subst isLabel
      exact referenced_label asked origin
    · obtain ⟨symbols, same⟩ := exists_symbol table isLabel asked origin writtenName
      rw [same]
  | fieldOffset struct field =>
    show (table.intern (.layout origin (.offset struct field))).2.referenced = table.referenced
    obtain ⟨symbols, same⟩ := exists_intern table (.layout origin (.offset struct field))
    rw [same]
  | freshLocalLabel comment =>
    show (table.freshLocalLabel comment origin).2.referenced = table.referenced
    rw [(draws_freshLocalLabel table comment origin).table]
  | labelReference asked offset =>
    show (if isTemplate asked then (table.label asked origin).2
      else (table.label asked origin).2.noteUse asked).referenced = _
    by_cases template : isTemplate asked
    · rw [if_pos template, referenced_label]
      simp [Question.referencedAfter, Question.isReset, Question.notes?, template]
    · rw [if_neg template, referenced_noteUse_label]
      simp [Question.referencedAfter, Question.isReset, Question.notes?, template]
  | noteUse asked => exact referenced_noteUse_label asked origin
  | defineLabel asked => exact referenced_label asked origin
  | labelDefinition asked =>
    show (table.labelDefinition asked origin).2.referenced = table.referenced
    unfold labelDefinition
    split <;> exact referenced_label asked origin
  | declare declaration asked =>
    show (table.declare declaration asked origin).2.referenced = table.referenced
    rcases declare_eq table declaration asked origin with ⟨-, same⟩ | ⟨-, problem, -, same⟩
    · rw [same]
      exact referenced_label asked origin
    · rw [same]
  | resetReferenced => rfl

end SymbolTable

end MacroAssembler
