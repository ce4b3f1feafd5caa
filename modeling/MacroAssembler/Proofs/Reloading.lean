/-
This module proves that a document can be loaded again.

Loading interns names, defines labels and notes their uses, and each of these requests finds its work
done when it is made again in a later table: the name is interned, with the location that it had at
first, the label is internal, and the use is noted or need not be. What a table knows of this is never
lost. So a load that succeeds gives the same tree when it is repeated in the table that it left, and
changes nothing there. Only a declaration that a label is global or aligned cannot be made twice.
-/
import MacroAssembler.Proofs.FreshLabel
import MacroAssembler.Proofs.Interning

namespace MacroAssembler

open List

/-! ### Later tables -/

namespace SymbolTable

variable {table before middle after later : SymbolTable} {name : String} {origin : Origin}
  {key : SymbolKey} {node : Node}

/-- Whether a label has an entry and is defined in all its entries. -/
def IsSettled (table : SymbolTable) (name : String) : Prop :=
  (table.findLabel? (.text name)).isSome ∧ ∀ entry ∈ table.labels, entry.name.key = .text name →
    entry.flags.isDefined = true ∧ entry.flags.isExternal = false

/-- Whether a table knows all that another one does, of what requests ask for. -/
structure Precedes (before after : SymbolTable) : Prop where
  symbols : ∀ key node, before.find? key = some node → after.find? key = some node
  labels : ∀ name entry, before.findLabel? (.text name) = some entry →
    ∃ other, after.findLabel? (.text name) = some other ∧ other.origin = entry.origin
  accounts : ∀ name, before.Accounts name → after.Accounts name
  settled : ∀ name, before.IsSettled name → after.IsSettled name

theorem Precedes.refl (table : SymbolTable) : table.Precedes table :=
  ⟨fun _ _ found => found, fun _ entry found => ⟨entry, found, rfl⟩, fun _ known => known,
    fun _ known => known⟩

theorem Precedes.trans (first : before.Precedes middle) (second : middle.Precedes after) :
    before.Precedes after where
  symbols key node found := second.symbols key node (first.symbols key node found)
  labels name entry found := by
    obtain ⟨other, known, same⟩ := first.labels name entry found
    obtain ⟨last, knownLast, sameLast⟩ := second.labels name other known
    exact ⟨last, knownLast, sameLast.trans same⟩
  accounts name known := second.accounts name (first.accounts name known)
  settled name known := second.settled name (first.settled name known)

theorem Precedes.of_labels (grows : before.Extends after) (labels : after.labels = before.labels)
    (referenced : before.referenced ⊆ after.referenced) : before.Precedes after where
  symbols _ _ found := grows.find? found
  labels name entry found := ⟨entry, by rwa [findLabel?, labels], rfl⟩
  accounts name := .imp (fun internal => by rwa [IsInternal, flagsOf_of_labels_eq labels])
    fun mem => referenced mem
  settled name known := by rwa [IsSettled, findLabel?, labels]

theorem precedes_intern (table : SymbolTable) (node : Node) :
    table.Precedes (table.intern node).2 := by
  refine .of_labels (extends_intern table node) ?_ ?_ <;> unfold intern <;> split <;> try split
  all_goals simp

theorem precedes_localLabel (table : SymbolTable) (name : Name) (origin : Origin) :
    table.Precedes (table.localLabel name origin).2 := by
  have interns := precedes_intern table (.localLabel ⟨origin, name⟩)
  rwa [← localLabel_eq_intern] at interns

theorem precedes_noteUse (table : SymbolTable) (name : String) :
    table.Precedes (table.noteUse name) := by
  refine .of_labels (.of_symbols uses_noteUse.symbols) ?_ uses_noteUse.referenced
  unfold noteUse
  split <;> rfl

theorem label_cases (table : SymbolTable) (name : String) (origin : Origin) :
    (∃ entry, table.findLabel? (.text name) = some entry ∧
      table.label name origin = (⟨entry.origin, name⟩, table)) ∨
    table.findLabel? (.text name) = none ∧ table.label name origin =
      (⟨origin, name⟩, { table with labels := table.labels ++ [⟨.text name, origin, {}⟩] }) := by
  unfold label withLabel
  cases table.findLabel? (.text name) with
  | none => exact .inr ⟨rfl, rfl⟩
  | some entry => exact .inl ⟨entry, rfl, rfl⟩

theorem precedes_label (table : SymbolTable) (name : String) (origin : Origin) :
    table.Precedes (table.label name origin).2 := by
  rcases label_cases table name origin with ⟨_, -, same⟩ | ⟨missing, same⟩
  · rw [same]
    exact .refl table
  have kept : ∀ other entry, table.findLabel? (.text other) = some entry →
      (table.label name origin).2.findLabel? (.text other) = some entry := by
    intro other entry found
    rw [same]
    exact find?_append.trans (by rw [show table.labels.find? _ = some entry from found]; rfl)
  refine ⟨fun _ _ found => (extends_label name origin).find? found,
    fun other entry found => ⟨entry, kept other entry found, rfl⟩,
    fun _ => (uses_label table name origin).accounts, ?_⟩
  rintro other ⟨found, defined⟩
  obtain ⟨entry, known⟩ := Option.isSome_iff_exists.mp found
  refine ⟨by rw [kept other entry known]; rfl, fun entry mem sameName => ?_⟩
  rw [same] at mem
  rcases mem_append.mp mem with mem | mem
  · exact defined entry mem sameName
  · obtain rfl := mem_singleton.mp mem
    cases sameName
    rw [missing] at known
    cases known

theorem isSettled_defineLabel {other : String}
    (known : other = name ∨ (table.label name origin).2.IsSettled other) :
    (table.defineLabel name origin).2.IsSettled other := by
  refine ⟨?_, fun entry mem sameName => ?_⟩
  · refine (congrArg Option.isSome (findLabel?_updateFlags _)).trans ?_
    rw [Option.isSome_map]
    rcases known with rfl | known
    · exact isSome_findLabel?_label table other origin
    · exact known.1
  · obtain ⟨previous, memPrevious, rfl⟩ := mem_map.mp mem
    by_cases isName : previous.name.key = .text name
    · simp [isName]
    · simp only [isName, if_false] at sameName ⊢
      rcases known with rfl | known
      · exact absurd sameName isName
      · exact known.2 previous memPrevious sameName

theorem label_precedes_defineLabel (table : SymbolTable) (name : String) (origin : Origin) :
    (table.label name origin).2.Precedes (table.defineLabel name origin).2 := by
  refine ⟨fun _ _ found => found, fun other entry known => ?_, fun other => ?_,
    fun other known => isSettled_defineLabel (.inr known)⟩
  · refine ⟨_, (findLabel?_updateFlags _).trans (congrArg (Option.map _) known), ?_⟩
    split <;> rfl
  · refine .imp (fun internal => ?_) fun mem => mem
    exact (isInternal_defineLabel origin).mpr (.inl ((uses_label _ _ _).isInternal.mp internal))

/-! ### Requests that are made again -/

theorem intern_again (keyed : node.symbolKey? = some key)
    (precedes : (table.intern node).2.Precedes later) :
    later.intern node = ((table.intern node).1, later) := by
  have found := precedes.symbols key _ (find?_intern keyed)
  rw [intern, keyed]
  dsimp only
  rw [found]

theorem localLabel_again {name : Name} (precedes : (table.localLabel name origin).2.Precedes later) :
    later.localLabel name origin = ((table.localLabel name origin).1, later) := by
  have again : later.intern (.localLabel ⟨origin, name⟩) =
      ((table.intern (.localLabel ⟨origin, name⟩)).1, later) :=
    intern_again rfl (by rwa [← localLabel_eq_intern])
  rw [← localLabel_eq_intern, ← localLabel_eq_intern] at again
  obtain ⟨sameMark, sameTable⟩ := Prod.mk.inj again
  exact Prod.ext (Node.localLabel.inj sameMark) sameTable

theorem label_again (precedes : (table.label name origin).2.Precedes later) :
    later.label name origin = ((table.label name origin).1, later) := by
  have known : ∃ entry, (table.label name origin).2.findLabel? (.text name) = some entry ∧
      (table.label name origin).1 = ⟨entry.origin, name⟩ := by
    rcases label_cases table name origin with ⟨entry, found, same⟩ | ⟨missing, same⟩ <;> rw [same]
    · exact ⟨entry, found, rfl⟩
    · refine ⟨⟨.text name, origin, {}⟩, ?_, rfl⟩
      exact find?_append.trans (by rw [show table.labels.find? _ = none from missing]; simp)
  obtain ⟨entry, found, mark⟩ := known
  obtain ⟨other, foundLater, sameOrigin⟩ := precedes.labels name entry found
  rw [label, foundLater, mark, ← sameOrigin]

theorem noteUse_again (accounted : table.Accounts name) : table.noteUse name = table := by
  unfold noteUse
  rcases accounted with internal | mem
  · simp [show (table.flagsOf name).isExternal = false from internal]
  · simp [mem]

theorem defineLabel_again (precedes : (table.defineLabel name origin).2.Precedes later) :
    later.defineLabel name origin = ((table.defineLabel name origin).1, later) := by
  have settled := precedes.settled name (isSettled_defineLabel (.inl rfl))
  rw [defineLabel, label_again ((label_precedes_defineLabel table name origin).trans precedes)]
  refine Prod.ext rfl ?_
  have same : later.labels.map (fun entry => if entry.name.key = .text name then
      { entry with flags := { entry.flags with isDefined := true, isExternal := false } }
      else entry) = later.labels := by
    refine (map_congr_left fun entry mem => ?_).trans (map_id _)
    split
    · obtain ⟨defined, internal⟩ := settled.2 entry mem ‹_›
      rw [← internal, ← defined]
      rfl
    · rfl
  exact congrArg (fun labels => { later with labels := labels }) same

/-- Whether a request precedes what it leaves, and changes nothing when it is made again. -/
def IsRepeatable {α : Type} (change : SymbolTable → α × SymbolTable) : Prop :=
  ∀ table, table.Precedes (change table).2 ∧
    ∀ later, (change table).2.Precedes later → change later = ((change table).1, later)

theorem isRepeatable_intern (keyed : node.symbolKey? = some key) :
    IsRepeatable fun table => table.intern node :=
  fun table => ⟨precedes_intern table node, fun _ => intern_again keyed⟩

theorem isRepeatable_localLabel (name : Name) (origin : Origin) :
    IsRepeatable fun table => table.localLabel name origin :=
  fun table => ⟨precedes_localLabel table name origin, fun _ => localLabel_again⟩

theorem isRepeatable_label (name : String) (origin : Origin) :
    IsRepeatable fun table => table.label name origin :=
  fun table => ⟨precedes_label table name origin, fun _ => label_again⟩

theorem isRepeatable_labelDefinition (name : String) (origin : Origin) :
    IsRepeatable fun table => table.labelDefinition name origin := by
  unfold labelDefinition
  cases isTemplate name with
  | true => exact isRepeatable_label name origin
  | false =>
    exact fun table => ⟨(precedes_label table name origin).trans
      (label_precedes_defineLabel table name origin), fun _ => defineLabel_again⟩

theorem isRepeatable_use (name : String) (origin : Origin) : IsRepeatable fun table =>
      ((table.label name origin).1, (table.label name origin).2.noteUse name) := by
  intro table
  have notes := precedes_noteUse (table.label name origin).2 name
  refine ⟨(precedes_label table name origin).trans notes, fun later precedes => ?_⟩
  dsimp only
  rw [label_again (notes.trans precedes), noteUse_again (precedes.accounts name accounts_noteUse)]

theorem IsRepeatable.map {α β : Type} {change : SymbolTable → α × SymbolTable}
    (repeatable : IsRepeatable change) (view : α → β) :
    IsRepeatable fun table => (view (change table).1, (change table).2) := by
  intro table
  refine ⟨(repeatable table).1, fun later precedes => ?_⟩
  dsimp only
  rw [(repeatable table).2 later precedes]

theorem isRepeatable_labelReference (name : String) (origin : Origin) (offset : Int) :
    IsRepeatable fun table => table.labelReference name origin offset := by
  unfold labelReference
  cases isTemplate name with
  | true => exact (isRepeatable_label name origin).map (Node.labelReference origin · offset)
  | false => exact (isRepeatable_use name origin).map (Node.labelReference origin · offset)

end SymbolTable

/-! ### Loading again -/

namespace Loader

variable {α β : Type}

/-- Whether a step that succeeds does so again in every later table, which it leaves alone. -/
def Repeats (step : Load α) : Prop :=
  ∀ state value after, step.perform state = (.ok value, after) →
    state.table.Precedes after.table ∧ ∃ count, after.loaded = state.loaded + count ∧
      ∀ later : LoadState, after.table.Precedes later.table →
        step.perform later = (.ok value, { later with loaded := later.loaded + count })

namespace Repeats

theorem pure (value : α) : Repeats (Pure.pure value : Load α) := by
  rintro state value after ⟨⟩
  exact ⟨.refl _, 0, rfl, fun _ _ => rfl⟩

theorem bind {first : Load α} {next : α → Load β} (repeats : Repeats first)
    (continues : ∀ value, Repeats (next value)) : Repeats (first >>= next) := by
  intro state value after ran
  obtain ⟨found, middle, passed, last⟩ := Action.perform_bind_ok.mp ran
  obtain ⟨precedes, count, counted, again⟩ := repeats _ _ _ passed
  obtain ⟨precedesLast, countLast, countedLast, againLast⟩ := continues found _ _ _ last
  refine ⟨precedes.trans precedesLast, count + countLast, ?_, fun later known => ?_⟩
  · rw [countedLast, counted, Nat.add_assoc]
  · rw [Action.perform_bind, again later (precedesLast.trans known)]
    simpa only [Nat.add_assoc] using againLast { later with loaded := later.loaded + count } known

theorem request {change : SymbolTable → α × SymbolTable}
    (repeatable : SymbolTable.IsRepeatable change) : Repeats (onTable change) := by
  intro state value after ran
  cases ran
  refine ⟨(repeatable state.table).1, 0, rfl, fun later known => ?_⟩
  rw [perform_onTable, (repeatable state.table).2 later.table known]
  rfl

theorem countNode : Repeats Loader.countNode := by
  intro state value after ran
  cases ran
  exact ⟨.refl _, 1, rfl, fun _ _ => rfl⟩

end Repeats

theorem Request.isRepeatable {gathered : α → List Node} {change : SymbolTable → α × SymbolTable}
    (asks : Request gathered change) : SymbolTable.IsRepeatable change := by
  cases asks with
  | intern keyed => exact SymbolTable.isRepeatable_intern keyed
  | label name origin => exact SymbolTable.isRepeatable_labelDefinition name origin
  | localLabel name origin | localReference name origin =>
    exact SymbolTable.isRepeatable_localLabel name origin
  | labelReference name origin offset =>
    exact SymbolTable.isRepeatable_labelReference name origin offset
  | use name origin => exact (SymbolTable.isRepeatable_use name origin).map fun _ => ()

def repeating : Law where
  Holds _ _ step := Repeats step
  Declares := False
  pure _ := .pure _
  fails never state value after ran := absurd ran (never state value after)
  bind := .bind
  after repeats := repeats
  count := .countNode
  request asks := .request asks.isRepeatable
  declare := False.elim

end Loader

/-- A document that declares no label except as external loads again with the same result, and
changes nothing. -/
theorem SymbolTable.load_again {table after : SymbolTable} {document : Value} {filename : String}
    {tree : Node} {count : Nat} (externs : document.declaresExterns)
    (loads : table.load document filename = (.ok (tree, count), after)) :
    after.load document filename = (.ok (tree, count), after) := by
  unfold SymbolTable.load at loads ⊢
  rcases performed : (Loader.load filename document).perform { table := table } with
    ⟨failure | loaded, state⟩
  · rw [performed] at loads
    cases loads
  · rw [performed] at loads
    cases loads
    obtain ⟨-, count, counted, again⟩ :=
      (@Loader.follows_part Loader.repeating filename document (.inr externs)).1 none _ _ _ performed
    have repeated := again { table := state.table } (.refl _)
    rw [show (Loader.load filename document).perform _ = _ from repeated, counted]
    rfl

/-- Two external labels are used, of which the second is defined later. -/
def forwardUses : Value :=
  .object [("kind", .text "Sequence"), ("items", .list [
    .object [("kind", .text "LabelDeclaration"), ("name", .text "a"), ("declaration", .text "extern")],
    .object [("kind", .text "LabelReference"), ("label", .text "b")],
    .object [("kind", .text "Label"), ("name", .text "b")]])]

theorem SymbolTable.load_again_defined :
    forwardUses.declaresExterns ∧ ∃ tree after,
      SymbolTable.empty.load forwardUses "f" = (.ok (tree, 4), after) ∧
        after.referenced = ["a", "b"] ∧ after.load forwardUses "f" = (.ok (tree, 4), after) := by
  obtain ⟨tree, after, loads, used⟩ : ∃ tree after,
      SymbolTable.empty.load forwardUses "f" = (.ok (tree, 4), after) ∧
        after.referenced = ["a", "b"] := ⟨_, _, rfl, rfl⟩
  exact ⟨rfl, tree, after, loads, used, SymbolTable.load_again rfl loads⟩

end MacroAssembler
