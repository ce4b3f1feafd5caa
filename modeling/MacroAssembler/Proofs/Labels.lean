/-
This module follows the labels of a symbol table through the requests that change it.

A label is internal once it is defined, and nothing makes it external again. Only a definition
makes a label internal: interning, references, declarations and noted uses leave the flags that
matter alone. A use is noted while the label is external, so from then on the label is either
internal or among the forward references, and it stays accounted for in every later table.
-/
import MacroAssembler.Proofs.Step
import MacroAssembler.SymbolTable

namespace MacroAssembler.SymbolTable

open List

variable {table before after later : SymbolTable} {name other : String}

def IsInternal (table : SymbolTable) (name : String) : Prop :=
  (table.flagsOf name).isExternal = false

/-- Whether a label is internal or one of the forward references. -/
def Accounts (table : SymbolTable) (name : String) : Prop :=
  table.IsInternal name ∨ name ∈ table.referenced

/-- What requests that define nothing can do to a table: they know the same about every label, the
other symbols stay as they are, and forward references are only added. -/
structure Uses (before after : SymbolTable) : Prop where
  symbols : after.symbols = before.symbols
  flags : ∀ name, after.flagsOf name = before.flagsOf name
  referenced : before.referenced ⊆ after.referenced

theorem Uses.refl (table : SymbolTable) : table.Uses table :=
  ⟨rfl, fun _ => rfl, List.Subset.refl _⟩

theorem Uses.trans (first : before.Uses after) (second : after.Uses later) : before.Uses later where
  symbols := by rw [second.symbols, first.symbols]
  flags name := by rw [second.flags, first.flags]
  referenced := List.Subset.trans first.referenced second.referenced

theorem Uses.isInternal (uses : before.Uses after) :
    after.IsInternal name ↔ before.IsInternal name := by
  unfold IsInternal
  rw [uses.flags]

theorem Uses.accounts (uses : before.Uses after) (accounted : before.Accounts name) :
    after.Accounts name :=
  accounted.imp uses.isInternal.mpr fun mem => uses.referenced mem

/-! ### Requests that define nothing -/

theorem flagsOf_of_labels_eq (same : after.labels = before.labels) :
    after.flagsOf name = before.flagsOf name := by
  unfold flagsOf findLabel?
  rw [same]

theorem flagsOf_withLabel (name : Name) (origin : Origin) :
    (table.withLabel name origin).flagsOf other = table.flagsOf other := by
  unfold withLabel
  split
  · rfl
  · unfold flagsOf findLabel?
    simp only [find?_append]
    cases table.labels.find? fun entry => decide (entry.name.key = (Name.text other).key) with
    | some entry => rfl
    | none =>
      simp only [Option.none_or, find?_singleton]
      split <;> rename_i found <;> split at found <;> simp_all
      simp [← found]

theorem label_name (origin : Origin) : (table.label name origin).1.name = name := by
  unfold label
  split <;> rfl

theorem uses_withLabel (name : Name) (origin : Origin) :
    table.Uses (table.withLabel name origin) where
  symbols := by unfold withLabel; split <;> rfl
  flags other := flagsOf_withLabel name origin
  referenced := by unfold withLabel; split <;> exact List.Subset.refl _

theorem uses_label (table : SymbolTable) (name : String) (origin : Origin) :
    table.Uses (table.label name origin).2 := by
  unfold label
  split
  · exact .refl table
  · exact uses_withLabel _ _

theorem uses_noteUse : table.Uses (table.noteUse name) where
  symbols := by unfold noteUse; split <;> rfl
  flags other := by
    unfold noteUse
    split <;> rfl
  referenced := by
    unfold noteUse
    split
    · exact subset_append_left _ _
    · exact List.Subset.refl _

theorem accounts_noteUse : (table.noteUse name).Accounts name := by
  unfold noteUse
  split
  · exact .inr (mem_append_right _ mem_cons_self)
  · rename_i settled
    simp only [Bool.and_eq_true, Bool.not_eq_true', not_and, Bool.not_eq_false,
      List.contains_iff_mem] at settled
    by_cases external : (table.flagsOf name).isExternal
    · exact .inr (settled external)
    · exact .inl (Bool.eq_false_iff.mpr external)

theorem uses_labelReference (origin : Origin) (offset : Int) :
    table.Uses (table.labelReference name origin offset).2 := by
  show table.Uses (if isTemplate name then (table.label name origin).2
    else (table.label name origin).2.noteUse name)
  split
  · exact uses_label _ _ origin
  · exact (uses_label _ _ origin).trans uses_noteUse

/-! ### Definitions and declarations -/

theorem findLabel?_updateFlags (change : LabelFlags → LabelFlags) :
    (table.updateFlags name change).findLabel? (.text other) =
      (table.findLabel? (.text other)).map fun entry =>
        if other = name then { entry with flags := change entry.flags } else entry := by
  unfold findLabel? updateFlags
  rw [find?_map]
  have sameTest : ((fun entry : LabelEntry => decide (entry.name.key = (Name.text other).key)) ∘
      fun entry => if entry.name.key = .text name then
        { entry with flags := change entry.flags } else entry) =
      fun entry => decide (entry.name.key = (Name.text other).key) := by
    funext entry
    show decide ((if entry.name.key = .text name then
      { entry with flags := change entry.flags } else entry).name.key = _) = _
    split <;> rfl
  rw [sameTest]
  cases found : table.labels.find? fun entry => decide (entry.name.key = (Name.text other).key) with
  | none => rfl
  | some entry =>
    have matching := find?_some found
    have key : entry.name.key = .text other := of_decide_eq_true matching
    simp only [Option.map_some, key, Name.text.injEq]

theorem isInternal_updateFlags {change : LabelFlags → LabelFlags}
    (same : ∀ flags, (change flags).isExternal = flags.isExternal) :
    (table.updateFlags name change).IsInternal other ↔ table.IsInternal other := by
  unfold IsInternal flagsOf
  rw [findLabel?_updateFlags]
  cases table.findLabel? (.text other) with
  | none => rfl
  | some entry =>
    simp only [Option.map_some]
    split <;> simp [same]

theorem isSome_findLabel?_label (table : SymbolTable) (name : String) (origin : Origin) :
    ((table.label name origin).2.findLabel? (.text name)).isSome := by
  unfold label
  split
  · simp [*]
  · rename_i missing
    rw [withLabel, missing]
    simp [findLabel?]

theorem flagsOf_updateFlags (known : (table.findLabel? (.text name)).isSome)
    (change : LabelFlags → LabelFlags) (other : String) :
    (table.updateFlags name change).flagsOf other =
      if name = other then change (table.flagsOf other) else table.flagsOf other := by
  unfold flagsOf
  rw [findLabel?_updateFlags]
  by_cases same : name = other
  · subst same
    obtain ⟨entry, found⟩ := Option.isSome_iff_exists.mp known
    simp [found]
  · simp [same, Ne.symm same]

theorem flagsOf_label (name : String) (origin : Origin) (other : String) :
    (table.label name origin).2.flagsOf other = table.flagsOf other :=
  (uses_label table name origin).flags other

theorem flagsOf_defineLabel (name : String) (origin : Origin) (other : String) :
    (table.defineLabel name origin).2.flagsOf other =
      if name = other then { table.flagsOf other with isDefined := true, isExternal := false }
      else table.flagsOf other := by
  show ((table.label name origin).2.updateFlags name _).flagsOf other = _
  rw [flagsOf_updateFlags (isSome_findLabel?_label table name origin), flagsOf_label]

theorem isInternal_defineLabel (origin : Origin) :
    (table.defineLabel name origin).2.IsInternal other ↔ table.IsInternal other ∨ other = name := by
  unfold IsInternal
  rw [flagsOf_defineLabel]
  by_cases same : name = other
  · simp [same]
  · simp [same, Ne.symm same]

theorem defineLabel_name (origin : Origin) : (table.defineLabel name origin).1.name = name :=
  label_name origin

theorem isInternal_labelDefinition (origin : Origin) :
    (table.labelDefinition name origin).2.IsInternal other ↔
      table.IsInternal other ∨ (other = name ∧ isTemplate name = false) := by
  unfold labelDefinition
  split
  · rename_i template
    simp [(uses_label _ _ origin).isInternal, template]
  · rename_i literal
    simp [isInternal_defineLabel, literal]

theorem labelDefinition_name (origin : Origin) :
    (table.labelDefinition name origin).1.name = name := by
  unfold labelDefinition
  split
  · exact label_name origin
  · exact defineLabel_name origin

theorem isInternal_declare (declaration : LabelDeclaration) (origin : Origin) :
    (table.declare declaration name origin).2.IsInternal other ↔ table.IsInternal other := by
  rw [← (uses_label table name origin).isInternal]
  unfold declare
  rcases table.label name origin with ⟨mark, interned⟩
  dsimp only
  split
  · rfl
  · exact isInternal_updateFlags fun flags => by cases declaration <;> rfl

theorem isInternal_intern (node : Node) :
    (table.intern node).2.IsInternal name ↔ table.IsInternal name := by
  unfold intern
  split
  · rfl
  · split <;> rfl

theorem isInternal_localLabel (mark : Name) (origin : Origin) :
    (table.localLabel mark origin).2.IsInternal name ↔ table.IsInternal name := by
  unfold localLabel
  split <;> rfl

end MacroAssembler.SymbolTable
