/-
This module says which labels are the forward references of a symbol table.

A label is external until it is defined, and stays internal from then on. The forward references are
the labels on which a use was noted while they were external, since the last time that they were
forgotten: each of them once, in the order in which a use of them was first noted. Those that are
still not defined in the end are unresolved.

Both are said of the requests alone: `DefinedBy` and `NotedAt` do not look at the tables that the
requests lead through.
-/
import MacroAssembler.Proofs.Requests

namespace MacroAssembler.SymbolTable

open List

variable {requests : List Request} {request : Request} {name : String} {place : Nat}

/-! ### Definitions among the requests -/

def DefinedBy (requests : List Request) (name : String) : Prop :=
  ∃ request ∈ requests, request.question.defines? = some name

theorem definedBy_concat : DefinedBy (requests ++ [request]) name ↔
      DefinedBy requests name ∨ request.question.defines? = some name := by
  simp [DefinedBy, or_and_right, exists_or]

theorem isDefined_declared (declaration : LabelDeclaration) (flags : LabelFlags) :
    (declared declaration flags).isDefined = flags.isDefined := by
  cases declaration <;> rfl

theorem isExternal_declared (declaration : LabelDeclaration) (flags : LabelFlags) :
    (declared declaration flags).isExternal = flags.isExternal := by
  cases declaration <;> rfl

theorem isDefined_flagsAfter (question : Question) (name : String) (flags : LabelFlags) :
    (question.flagsAfter name flags).isDefined ↔
      flags.isDefined ∨ question.defines? = some name := by
  unfold Question.flagsAfter
  by_cases defines : question.defines? = some name
  · simp [defines]
  · rw [if_neg defines]
    split
    · split <;> simp [isDefined_declared, defines]
    · simp [defines]

theorem isExternal_flagsAfter (question : Question) (name : String) {flags : LabelFlags}
    (rule : flags.isExternal = !flags.isDefined) :
    (question.flagsAfter name flags).isExternal = !(question.flagsAfter name flags).isDefined := by
  unfold Question.flagsAfter
  split
  · rfl
  · split
    · split
      · rw [isExternal_declared, isDefined_declared, rule]
      · exact rule
    · exact rule

theorem isDefined_performAll (requests : List Request) (table : SymbolTable) (name : String) :
    ((performAll requests table).flagsOf name).isDefined ↔
      (table.flagsOf name).isDefined ∨ DefinedBy requests name := by
  induction requests using List.reverseRecOn with
  | nil => simp [performAll, DefinedBy]
  | append_singleton earlier request ih =>
    rw [performAll_concat, flagsOf_after, isDefined_flagsAfter, ih, definedBy_concat, or_assoc]

theorem isExternal_performAll (requests : List Request) {table : SymbolTable}
    (rule : (table.flagsOf name).isExternal = !(table.flagsOf name).isDefined) :
    ((performAll requests table).flagsOf name).isExternal =
      !((performAll requests table).flagsOf name).isDefined := by
  induction requests using List.reverseRecOn with
  | nil => exact rule
  | append_singleton earlier request ih =>
    rw [performAll_concat, flagsOf_after]
    exact isExternal_flagsAfter _ _ ih

theorem isExternal_eq_not_isDefined (requests : List Request) (name : String) :
    ((performAll requests .empty).flagsOf name).isExternal =
      !((performAll requests .empty).flagsOf name).isDefined :=
  isExternal_performAll requests rfl

theorem isDefined_iff_definedBy (requests : List Request) (name : String) :
    ((performAll requests .empty).flagsOf name).isDefined ↔ DefinedBy requests name := by
  rw [isDefined_performAll]
  exact or_iff_right Bool.false_ne_true

theorem isExternal_iff_not_definedBy (requests : List Request) (name : String) :
    ((performAll requests .empty).flagsOf name).isExternal ↔ ¬ DefinedBy requests name := by
  rw [isExternal_eq_not_isDefined, ← isDefined_iff_definedBy, Bool.not_eq_true', Bool.not_eq_true]

/-! ### Noted uses among the requests -/

/-- Whether the request at a place notes the use of a label that no request before it defines, and
no request after it forgets the forward references. -/
structure NotedAt (requests : List Request) (name : String) (place : Nat) : Prop where
  noted : ∃ request, requests[place]? = some request ∧ request.question.notes? = some name
  external : ¬ DefinedBy (requests.take place) name
  kept : ∀ request ∈ requests.drop (place + 1), request.question.isReset = false

theorem NotedAt.lt_length (noted : NotedAt requests name place) : place < requests.length := by
  obtain ⟨request, found, -⟩ := noted.noted
  exact (List.getElem?_eq_some_iff.mp found).1

theorem notedAt_concat : NotedAt (requests ++ [request]) name place ↔
      (request.question.isReset = false ∧ NotedAt requests name place) ∨
        place = requests.length ∧ request.question.notes? = some name ∧
          ¬ DefinedBy requests name := by
  rcases Nat.lt_trichotomy place requests.length with before | rfl | beyond
  · have dropped : (requests ++ [request]).drop (place + 1) =
        requests.drop (place + 1) ++ [request] := drop_append_of_le_length before
    have taken : (requests ++ [request]).take place = requests.take place :=
      take_append_of_le_length (Nat.le_of_lt before)
    have same : (requests ++ [request])[place]? = requests[place]? :=
      getElem?_append_left before
    constructor
    · intro noted
      have kept := noted.kept
      rw [dropped, forall_mem_append] at kept
      exact .inl ⟨kept.2 request mem_cons_self, same ▸ noted.noted, taken ▸ noted.external, kept.1⟩
    · rintro (⟨keeps, noted⟩ | ⟨atEnd, -⟩)
      · refine ⟨same ▸ noted.noted, taken ▸ noted.external, ?_⟩
        rw [dropped, forall_mem_append, forall_mem_singleton]
        exact ⟨noted.kept, keeps⟩
      · omega
  · constructor
    · intro noted
      obtain ⟨other, found, notes⟩ := noted.noted
      have external := noted.external
      rw [getElem?_concat_length] at found
      rw [take_left] at external
      exact .inr ⟨rfl, Option.some.inj found ▸ notes, external⟩
    · rintro (⟨-, noted⟩ | ⟨-, notes, external⟩)
      · exact absurd noted.lt_length (Nat.lt_irrefl _)
      · refine ⟨⟨request, getElem?_concat_length, notes⟩, by rwa [take_left], ?_⟩
        rw [drop_eq_nil_of_le (by simp)]
        simp
  · have tooFar : (requests ++ [request]).length ≤ place := by
      rw [length_append, length_singleton]
      exact beyond
    constructor
    · intro noted
      exact absurd noted.lt_length (Nat.not_lt.mpr tooFar)
    · rintro (⟨-, noted⟩ | ⟨rfl, -⟩)
      · exact absurd noted.lt_length (Nat.lt_asymm beyond)
      · exact absurd beyond (Nat.lt_irrefl _)

/-- Whether a use of the first label was noted before any use of the second one. -/
def NotedBefore (requests : List Request) (first second : String) : Prop :=
  ∃ place, NotedAt requests first place ∧ ∀ other, NotedAt requests second other → place < other

theorem NotedBefore.concat {first second : String} (before : NotedBefore requests first second)
    (keeps : request.question.isReset = false) :
    NotedBefore (requests ++ [request]) first second := by
  obtain ⟨place, noted, earlier⟩ := before
  refine ⟨place, notedAt_concat.mpr (.inl ⟨keeps, noted⟩), fun other notedLater => ?_⟩
  rcases notedAt_concat.mp notedLater with ⟨-, notedLater⟩ | ⟨rfl, -⟩
  · exact earlier other notedLater
  · exact noted.lt_length

/-! ### The forward references of a table -/

/-- Whether some names are those of the labels on which a use was noted, in the order in which a use
was first noted. -/
structure RecordsUses (requests : List Request) (names : List String) : Prop where
  mem_iff : ∀ name, name ∈ names ↔ ∃ place, NotedAt requests name place
  ordered : names.Pairwise (NotedBefore requests)

variable {names : List String}

/-- No use is noted before itself, so no name is repeated. -/
theorem RecordsUses.nodup (records : RecordsUses requests names) : names.Nodup := by
  refine records.ordered.imp ?_
  rintro first _ ⟨place, noted, before⟩ rfl
  exact Nat.lt_irrefl _ (before place noted)

/-- A request that neither forgets the forward references nor notes a use of a label that is missing
leaves the record right. -/
theorem RecordsUses.concat (records : RecordsUses requests names)
    (keeps : request.question.isReset = false)
    (known : ∀ name, request.question.notes? = some name → ¬ DefinedBy requests name →
      name ∈ names) : RecordsUses (requests ++ [request]) names where
  mem_iff name := by
    rw [records.mem_iff]
    constructor
    · rintro ⟨place, noted⟩
      exact ⟨place, notedAt_concat.mpr (.inl ⟨keeps, noted⟩)⟩
    · rintro ⟨place, noted⟩
      rcases notedAt_concat.mp noted with ⟨-, noted⟩ | ⟨-, notes, external⟩
      · exact ⟨place, noted⟩
      · exact (records.mem_iff name).mp (known name notes external)
  ordered := records.ordered.imp fun before => before.concat keeps

/-- A noted use of a further label makes it the last of the forward references. -/
theorem RecordsUses.concat_note (records : RecordsUses requests names)
    (keeps : request.question.isReset = false) (notes : request.question.notes? = some name)
    (external : ¬ DefinedBy requests name) (missing : name ∉ names) :
    RecordsUses (requests ++ [request]) (names ++ [name]) where
  mem_iff other := by
    rw [mem_append, mem_singleton, records.mem_iff]
    constructor
    · rintro (⟨place, noted⟩ | rfl)
      · exact ⟨place, notedAt_concat.mpr (.inl ⟨keeps, noted⟩)⟩
      · exact ⟨requests.length, notedAt_concat.mpr (.inr ⟨rfl, notes, external⟩)⟩
    · rintro ⟨place, noted⟩
      rcases notedAt_concat.mp noted with ⟨-, noted⟩ | ⟨-, otherNotes, -⟩
      · exact .inl ⟨place, noted⟩
      · exact .inr (Option.some.inj (otherNotes.symm.trans notes))
  ordered := by
    refine pairwise_append.mpr
      ⟨records.ordered.imp fun before => before.concat keeps, pairwise_singleton _ _, ?_⟩
    intro first mem second last
    rw [mem_singleton.mp last]
    obtain ⟨place, noted⟩ := (records.mem_iff first).mp mem
    refine ⟨place, notedAt_concat.mpr (.inl ⟨keeps, noted⟩), fun other notedLast => ?_⟩
    rcases notedAt_concat.mp notedLast with ⟨-, notedLast⟩ | ⟨rfl, -⟩
    · exact absurd ((records.mem_iff name).mpr ⟨other, notedLast⟩) missing
    · exact noted.lt_length

theorem recordsUses_nil (none : ∀ name place, ¬ NotedAt requests name place) :
    RecordsUses requests [] where
  mem_iff name := by simp [none]
  ordered := List.Pairwise.nil

theorem notes?_of_isReset {question : Question} (resets : question.isReset) :
    question.notes? = none := by
  cases question with
  | resetReferenced => rfl
  | _ => cases resets

theorem RecordsUses.referencedAfter {isExternal : String → Bool}
    (records : RecordsUses requests names) (request : Request)
    (external : ∀ name, isExternal name ↔ ¬ DefinedBy requests name) :
    RecordsUses (requests ++ [request]) (request.question.referencedAfter isExternal names) := by
  unfold Question.referencedAfter
  cases resets : request.question.isReset with
  | true =>
    refine recordsUses_nil fun name place noted => ?_
    rcases notedAt_concat.mp noted with ⟨keeps, -⟩ | ⟨-, notes, -⟩
    · rw [resets] at keeps
      cases keeps
    · rw [notes?_of_isReset resets] at notes
      cases notes
  | false =>
    rw [if_neg Bool.false_ne_true]
    cases notes : request.question.notes? with
    | none =>
      refine records.concat resets fun name notesName => ?_
      rw [notes] at notesName
      cases notesName
    | some name =>
      dsimp only
      by_cases isNew : isExternal name ∧ name ∉ names
      · rw [if_pos (by simpa using isNew)]
        exact records.concat_note resets notes ((external name).mp isNew.1) isNew.2
      · rw [if_neg (by simpa using isNew)]
        refine records.concat resets fun other notesOther otherExternal => ?_
        obtain rfl := Option.some.inj (notes.symm.trans notesOther)
        by_contra missing
        exact isNew ⟨(external name).mpr otherExternal, missing⟩

theorem recordsUses_performAll (requests : List Request) :
    RecordsUses requests (performAll requests .empty).referenced := by
  induction requests using List.reverseRecOn with
  | nil => exact recordsUses_nil fun name place noted => absurd noted.lt_length (Nat.not_lt_zero _)
  | append_singleton earlier request ih =>
    rw [performAll_concat, referenced_after]
    exact ih.referencedAfter request (isExternal_iff_not_definedBy earlier)

theorem mem_unresolved (requests : List Request) (name : String) :
    name ∈ (performAll requests .empty).unresolved ↔
      name ∈ (performAll requests .empty).referenced ∧ ¬ DefinedBy requests name := by
  rw [unresolved, mem_filter, isExternal_iff_not_definedBy]

def record (name : String) : StateM (List String) Unit := modify (· ++ [name])

theorem run_forM_record (names visited : List String) :
    (names.forM record).run visited = ((), visited ++ names) := by
  induction names generalizing visited with
  | nil =>
    rw [append_nil]
    rfl
  | cons name rest ih =>
    have visitRest := ih (visited ++ [name])
    rw [append_assoc] at visitRest
    exact visitRest

/-- Over any requests, the external labels are those that no request defined, and a label that is
defined stays internal whatever is requested after that. The forward references are the labels on
which a use was noted while they were external and since they were last forgotten, each once and in
the order of the first noted use. The unresolved ones are those of them that are not defined, in the
same order, and an action for the unresolved ones visits exactly these. -/
theorem forward_references (requests : List Request) :
    let table := performAll requests .empty
    (∀ name, ((table.flagsOf name).isDefined ↔ DefinedBy requests name) ∧
      ((table.flagsOf name).isExternal ↔ ¬ (table.flagsOf name).isDefined)) ∧
    (∀ name more, (table.flagsOf name).isDefined →
      ((performAll more table).flagsOf name).isDefined ∧
        ¬ ((performAll more table).flagsOf name).isExternal) ∧
    table.referenced.Nodup ∧
    (∀ name, name ∈ table.referenced ↔ ∃ place, NotedAt requests name place) ∧
    table.referenced.Pairwise (NotedBefore requests) ∧
    table.unresolved.Sublist table.referenced ∧
    (∀ name, name ∈ table.unresolved ↔ name ∈ table.referenced ∧ ¬ DefinedBy requests name) ∧
    ∀ visited, (table.forUnresolved record).run visited = ((), visited ++ table.unresolved) := by
  have records := recordsUses_performAll requests
  refine ⟨fun name => ⟨isDefined_iff_definedBy requests name, ?_⟩, fun name more defined => ?_,
    records.nodup, records.mem_iff, records.ordered, List.filter_sublist, mem_unresolved requests,
    run_forM_record _⟩
  · rw [isExternal_eq_not_isDefined, Bool.not_eq_true', Bool.not_eq_true]
  · have still := (isDefined_performAll more (performAll requests .empty) name).mpr (.inl defined)
    refine ⟨still, ?_⟩
    rw [isExternal_performAll more (isExternal_eq_not_isDefined requests name), still]
    exact Bool.false_ne_true

/-- A use from before the last reset does not count, and neither does one of a label that is already
defined. -/
example :
    let ask (question : Question) : Request := ⟨question, ⟨"unit.asm", 1, 0⟩⟩
    let table := performAll [ask (.noteUse "a"), ask .resetReferenced, ask (.labelReference "b" 0),
      ask (.defineLabel "a"), ask (.noteUse "c"), ask (.defineLabel "b"), ask (.noteUse "a")] .empty
    table.referenced = ["b", "c"] ∧ table.unresolved = ["c"] := by
  decide +kernel

end MacroAssembler.SymbolTable
