/-
This module follows what a symbol table has interned.

A table only grows at its end, so what is interned under an identity stays interned under it. Every
layout constant that loading puts into a tree is the one that the table has under its identity. Two
layout constants of a loaded tree are therefore the same node if they have one identity, and the list
of layout constants without repetitions leaves none of them out.
-/
import MacroAssembler.Proofs.LoadedLabels

namespace MacroAssembler

open List Node SymbolTable

variable {node : Node} {table : SymbolTable}

/-! ### Tables that grow -/

namespace SymbolTable

variable {table before middle after : SymbolTable} {key : SymbolKey} {node : Node}

def Extends (before after : SymbolTable) : Prop := before.symbols <+: after.symbols

theorem Extends.refl (table : SymbolTable) : table.Extends table := prefix_refl _

theorem Extends.trans (first : before.Extends middle) (second : middle.Extends after) :
    before.Extends after :=
  List.IsPrefix.trans first second

theorem Extends.of_symbols (same : after.symbols = before.symbols) : before.Extends after :=
  ⟨[], by rw [append_nil, same]⟩

theorem Extends.find? (grows : before.Extends after) (found : before.find? key = some node) :
    after.find? key = some node := by
  obtain ⟨more, same⟩ := grows
  unfold SymbolTable.find? at found ⊢
  rw [← same, find?_append, found]
  rfl

theorem extends_intern (table : SymbolTable) (node : Node) : table.Extends (table.intern node).2 := by
  unfold intern
  split
  · exact .refl table
  · split
    · exact .refl table
    · exact prefix_append _ _

theorem find?_intern (keyed : node.symbolKey? = some key) :
    (table.intern node).2.find? key = some (table.intern node).1 := by
  unfold intern
  rw [keyed]
  dsimp only
  split
  · assumption
  · rename_i absent
    unfold SymbolTable.find? at absent ⊢
    rw [find?_append, absent, find?_cons_of_pos (by simpa using keyed)]
    rfl

theorem symbolKey?_intern : (table.intern node).1.symbolKey? = node.symbolKey? := by
  unfold intern
  split
  · rfl
  · rename_i key keyed
    split
    · rename_i known found
      have matching := find?_some found
      exact (of_decide_eq_true matching).trans keyed.symm
    · rfl

theorem extends_localLabel (name : Name) (origin : Origin) :
    table.Extends (table.localLabel name origin).2 := by
  unfold localLabel
  split
  · exact .refl table
  · exact prefix_append _ _

theorem extends_label (name : String) (origin : Origin) :
    table.Extends (table.label name origin).2 :=
  .of_symbols (uses_label table name origin).symbols

theorem extends_labelDefinition (name : String) (origin : Origin) :
    table.Extends (table.labelDefinition name origin).2 := by
  unfold labelDefinition
  split
  · exact extends_label name origin
  · exact extends_label name origin

theorem extends_declare (declaration : LabelDeclaration) (name : String) (origin : Origin) :
    table.Extends (table.declare declaration name origin).2 := by
  unfold declare
  dsimp only
  split
  · exact extends_label name origin
  · exact extends_label name origin

end SymbolTable

/-! ### Layout constants of a tree -/

/-- Whether a node is the one that a table has under its identity, if it is a layout constant. -/
def Node.IsKnownTo (table : SymbolTable) (node : Node) : Prop :=
  node.isLayoutConstant → ∀ key, node.symbolKey? = some key → table.find? key = some node

/-- Whether all layout constants of a tree are the ones that a table has. -/
abbrev Node.IsInternedIn (table : SymbolTable) (tree : Node) : Prop :=
  tree.Throughout (IsKnownTo table)

theorem Node.IsInternedIn.extend {before after : SymbolTable} {tree : Node}
    (interned : tree.IsInternedIn before) (grows : before.Extends after) :
    tree.IsInternedIn after :=
  fun part mem isLayout key keyed => grows.find? (interned part mem isLayout key keyed)

theorem Node.isInternedIn_iff
    (other : node.isLayoutConstant = false) :
    node.IsInternedIn table ↔ ∀ child ∈ node.children, child.IsInternedIn table := by
  unfold IsInternedIn
  rw [throughout_iff]
  refine and_iff_right fun isLayout => ?_
  rw [other] at isLayout
  cases isLayout

theorem Node.isInternedIn_leaf
    (other : node.isLayoutConstant = false) (leaf : node.children = []) :
    node.IsInternedIn table := by
  rw [isInternedIn_iff other, leaf]
  simp

theorem Node.isInternedIn_reference
    (isReference : node.isReference) : node.IsInternedIn table := by
  cases node with
  | labelReference | localReference =>
    rw [isInternedIn_iff rfl]
    exact forall_mem_singleton.mpr (isInternedIn_leaf rfl rfl)
  | _ => cases isReference

theorem Node.isInternedIn_intern (table : SymbolTable) {key : SymbolKey}
    (keyed : node.symbolKey? = some key) :
    (table.intern node).1.IsInternedIn (table.intern node).2 := by
  have sameKey : (table.intern node).1.symbolKey? = some key :=
    SymbolTable.symbolKey?_intern.trans keyed
  unfold IsInternedIn
  rw [throughout_iff, SymbolTable.children_of_symbolKey? sameKey]
  refine ⟨fun _ other keyedAgain => ?_, by simp⟩
  obtain rfl : key = other := Option.some.inj (sameKey.symm.trans keyedAgain)
  exact SymbolTable.find?_intern keyed

theorem Node.isLayoutConstant_of_unkeyed (unkeyed : node.symbolKey? = none) :
    node.isLayoutConstant = false := by
  cases node with
  | layout origin which => cases which <;> cases unkeyed
  | _ => rfl

variable {nodes : List Node}

theorem SymbolTable.Loads.interned {before after : SymbolTable} (loads : before.Loads nodes after) :
    before.Extends after ∧ ∀ node ∈ nodes, node.IsInternedIn after := by
  have leaf : ∀ {table : SymbolTable} {node : Node}, node.isLayoutConstant = false →
      node.children = [] → ∀ result ∈ [node], result.IsInternedIn table :=
    fun other leaf => forall_mem_singleton.mpr (isInternedIn_leaf other leaf)
  have reference : ∀ {table : SymbolTable} {node : Node}, node.isReference →
      ∀ result ∈ [node], result.IsInternedIn table :=
    fun isReference => forall_mem_singleton.mpr (isInternedIn_reference isReference)
  induction loads with
  | none => exact ⟨.refl _, by simp⟩
  | append _ _ first second =>
    refine ⟨first.1.trans second.1, forall_mem_append.mpr ⟨fun node mem => ?_, second.2⟩⟩
    exact (first.2 node mem).extend second.1
  | node _ _ unkeyed _ same parts =>
    refine ⟨parts.1, forall_mem_singleton.mpr ?_⟩
    exact (isInternedIn_iff (isLayoutConstant_of_unkeyed unkeyed)).mpr fun child mem =>
      parts.2 child ((same child).mp mem)
  | plain | truth => exact ⟨.refl _, leaf rfl rfl⟩
  | intern keyed _ =>
    exact ⟨extends_intern _ _, forall_mem_singleton.mpr (isInternedIn_intern _ keyed)⟩
  | label name origin => exact ⟨extends_labelDefinition name origin, leaf rfl rfl⟩
  | localLabel name origin => exact ⟨extends_localLabel name origin, leaf rfl rfl⟩
  | labelReference name origin offset =>
    exact ⟨.of_symbols (uses_labelReference origin offset).symbols, reference rfl⟩
  | localReference name origin => exact ⟨extends_localLabel name origin, reference rfl⟩
  | use name origin =>
    exact ⟨.of_symbols ((uses_label _ name origin).trans uses_noteUse).symbols, by simp⟩
  | declare declaration name origin => exact ⟨extends_declare declaration name origin, by simp⟩

/-! ### The list of layout constants -/

/-- Of several nodes with one identity the list without repetitions keeps one. -/
theorem Node.exists_mem_distinctFrom {seen : List SymbolKey} {key : SymbolKey}
    (mem : node ∈ nodes) (keyed : node.symbolKey? = some key) (unseen : key ∉ seen) :
    ∃ kept ∈ distinctFrom seen nodes, kept ∈ nodes ∧ kept.symbolKey? = some key := by
  fun_induction distinctFrom seen nodes with
  | case1 => cases mem
  | case2 seen first rest firstKey firstKeyed known ih =>
    have other : node ≠ first := by
      rintro rfl
      rw [firstKeyed] at keyed
      cases keyed
      exact unseen (by simpa using known)
    obtain ⟨kept, inside, old, same⟩ :=
      ih (mem_of_ne_of_mem other mem) unseen
    exact ⟨kept, inside, mem_cons_of_mem _ old, same⟩
  | case3 seen first rest firstKey firstKeyed new ih =>
    by_cases same : key = firstKey
    · subst same
      exact ⟨first, mem_cons_self, mem_cons_self, firstKeyed⟩
    · have other : node ≠ first := by
        rintro rfl
        exact same (Option.some.inj (keyed.symm.trans firstKeyed))
      obtain ⟨kept, inside, old, sameKey⟩ := ih
        (mem_of_ne_of_mem other mem) (by simpa [same] using unseen)
      exact ⟨kept, mem_cons_of_mem _ inside, mem_cons_of_mem _ old, sameKey⟩
  | case4 seen first rest unkeyed ih =>
    have other : node ≠ first := by
      rintro rfl
      cases unkeyed.symm.trans keyed
    obtain ⟨kept, inside, old, same⟩ :=
      ih (mem_of_ne_of_mem other mem) unseen
    exact ⟨kept, mem_cons_of_mem _ inside, mem_cons_of_mem _ old, same⟩

theorem Node.symbolKey?_of_isLayoutConstant (isLayout : node.isLayoutConstant) :
    ∃ key, node.symbolKey? = some key := by
  cases node with
  | layout origin which => cases which <;> exact ⟨_, rfl⟩
  | _ => cases isLayout

theorem Node.mem_layoutConstantsUsed {tree : Node}
    {constants : List Node} (interned : tree.IsInternedIn table)
    (lists : tree.layoutConstantsUsed = .ok constants) (mem : node ∈ tree.flatten)
    (isLayout : node.isLayoutConstant) : node ∈ constants := by
  obtain ⟨nodes, walks, listed⟩ := Checked.bind_ok.mp lists
  obtain rfl : tree.flatten = nodes := by
    unfold walk at walks
    split at walks
    · cases walks
    · exact Except.ok.inj walks
  obtain ⟨key, keyed⟩ := symbolKey?_of_isLayoutConstant isLayout
  obtain ⟨kept, inside, old, sameKey⟩ := exists_mem_distinctFrom
    (mem_filter.mpr ⟨mem, isLayout⟩) keyed (not_mem_nil (a := key))
  obtain ⟨keptMem, keptLayout⟩ := mem_filter.mp old
  -- Both are what the table has under their common identity.
  have same : node = kept := Option.some.inj <|
    (interned node mem isLayout key keyed).symm.trans (interned kept keptMem keptLayout key sameKey)
  cases listed
  rw [mem_mergeSort, same]
  exact inside

end MacroAssembler
