/-
This module proves that a fresh local label is fresh.

A name is tried without a number first. If it is taken, the numbers above the counter of the table
are tried one after the other, without a bound. Every name that was tried in vain is interned, they
are all different, and the name without a number is one more. The table does not have that many
symbols, so the search comes to a number that is free, whatever names a unit has used for its own
labels.
-/
import MacroAssembler.SymbolTable
import Mathlib.Data.List.Nodup
import Mathlib.Data.List.Perm.Subperm
import Mathlib.Data.List.Range

namespace MacroAssembler.SymbolTable

open List

variable {table : SymbolTable} {name other : Name} {comment : String}

def IsInterned (table : SymbolTable) (name : Name) : Prop := (table.findLocal? name).isSome

theorem symbolKey?_localLabel {node : Node} :
    node.symbolKey? = some (.localLabel name) ↔ ∃ mark, node = .localLabel mark ∧
      mark.name.key = name := by
  cases node with
  | register origin kind => cases kind <;> simp [Node.symbolKey?]
  | layout origin constant => cases constant <;> simp [Node.symbolKey?]
  | _ => simp [Node.symbolKey?]

theorem localLabel_eq_intern (name : Name) (origin : Origin) :
    (Node.localLabel (table.localLabel name origin).1, (table.localLabel name origin).2) =
      table.intern (.localLabel ⟨origin, name⟩) := by
  have key : (Node.localLabel ⟨origin, name⟩).symbolKey? = some (.localLabel name.key) := rfl
  unfold localLabel findLocal? intern
  rw [key]
  dsimp only
  cases found : table.find? (.localLabel name.key) with
  | none => rfl
  | some node =>
    have matching := find?_some found
    obtain ⟨mark, rfl, -⟩ := symbolKey?_localLabel.mp (of_decide_eq_true matching)
    rfl

theorem isInterned_iff :
    table.IsInterned name ↔ some (.localLabel name.key) ∈ table.symbols.map Node.symbolKey? := by
  unfold IsInterned findLocal? find?
  rw [mem_map]
  cases found : table.symbols.find? fun node =>
      decide (node.symbolKey? = some (.localLabel name.key)) with
  | none =>
    rw [find?_eq_none] at found
    constructor
    · intro interned
      cases interned
    · rintro ⟨node, mem, key⟩
      exact absurd (decide_eq_true key) (found node mem)
  | some node =>
    have matching := find?_some found
    have key := of_decide_eq_true matching
    obtain ⟨mark, rfl, -⟩ := symbolKey?_localLabel.mp key
    exact ⟨fun _ => ⟨_, mem_of_find?_eq_some found, key⟩, fun _ => rfl⟩

theorem isInterned_of_symbols_eq {after : SymbolTable} (same : after.symbols = table.symbols) :
    after.IsInterned name ↔ table.IsInterned name := by
  rw [isInterned_iff, isInterned_iff, same]

theorem localLabel_of_free (free : ¬ table.IsInterned name) (origin : Origin) :
    table.localLabel name origin =
      (⟨origin, name⟩, { table with symbols := table.symbols ++ [.localLabel ⟨origin, name⟩] }) := by
  have missing : table.findLocal? name = none := by
    simpa [IsInterned, Option.isSome_iff_ne_none] using free
  rw [localLabel, missing]

/-! ### Numbered names -/

theorem decimal_natural (number : Nat) :
    Text.decimal number = String.ofList (Nat.toDigits 10 number) := by
  unfold Text.decimal
  rw [if_neg (by omega), Int.natAbs_natCast]
  rfl

theorem toDigits_injective {first second : Nat}
    (same : Nat.toDigits 10 first = Nat.toDigits 10 second) : first = second := by
  simpa using congrArg (fun digits => Nat.ofDigitChars 10 digits 0) same

theorem numberedName_injective {first second : Nat}
    (same : numberedName first comment = numberedName second comment) : first = second := by
  have characters := congrArg String.toList same
  simp only [numberedName, decimal_natural, String.toList_append, String.toList_ofList,
    append_cancel_left_eq, append_cancel_right_eq] at characters
  exact toDigits_injective characters

theorem numberedName_ne_simple {number : Nat} : numberedName number comment ≠ "_" ++ comment := by
  intro same
  have lengths := congrArg (fun text => text.toList.length) same
  simp [numberedName] at lengths
  omega

/-! ### The search for a free name -/

/-- How the search goes on from a counter and the name that is tried next, and the counter and the
name it ends with. -/
inductive Searches (table : SymbolTable) (comment : String) : Nat → String → Nat → String → Prop
  | found {counter : Nat} {name : String} (free : ¬ table.IsInterned (.text name)) :
      Searches table comment counter name counter name
  | next {counter last : Nat} {name found : String} (taken : table.IsInterned (.text name))
      (rest : Searches table comment (counter + 1) (numberedName (counter + 1) comment) last found) :
      Searches table comment counter name last found

theorem Searches.free {counter last : Nat} {name found : String}
    (searches : table.Searches comment counter name last found) :
    ¬ table.IsInterned (.text found) := by
  induction searches with
  | found free => exact free
  | next _ _ ih => exact ih

theorem Searches.unique {other : SymbolTable} {counter last otherLast : Nat}
    {name found otherFound : String}
    (same : ∀ name, other.IsInterned name ↔ table.IsInterned name)
    (searches : table.Searches comment counter name last found)
    (otherwise : other.Searches comment counter name otherLast otherFound) :
    otherLast = last ∧ otherFound = found := by
  induction searches with
  | found free =>
    cases otherwise with
    | found => exact ⟨rfl, rfl⟩
    | next taken => exact absurd ((same _).mp taken) free
  | next taken _ ih =>
    cases otherwise with
    | found free => exact absurd ((same _).mpr taken) free
    | next _ rest => exact ih rest

/-- A search that tries a number ends with the least one from there that is free. -/
theorem Searches.least {counter last : Nat} {found : String}
    (searches : table.Searches comment counter (numberedName counter comment) last found) :
    counter ≤ last ∧ found = numberedName last comment ∧ ∀ number, counter ≤ number →
      number < last → table.IsInterned (.text (numberedName number comment)) := by
  generalize tried : numberedName counter comment = name at searches
  induction searches with
  | found => exact ⟨Nat.le_refl _, tried.symm, fun _ least below => absurd least (by omega)⟩
  | next taken _ ih =>
    obtain ⟨above, isFound, others⟩ := ih rfl
    refine ⟨by omega, isFound, fun number least below => ?_⟩
    rcases Nat.eq_or_lt_of_le least with rfl | later
    · exact tried ▸ taken
    · exact others number later below

/-- Either the search ends with the number that was found, or all the numbers that were tried are
taken. -/
theorem freeNumber_cases (table : SymbolTable) (comment : String) (steps number : Nat) :
    table.Searches comment (number + 1) (numberedName (number + 1) comment)
        (table.freeNumber comment steps number)
        (numberedName (table.freeNumber comment steps number) comment) ∨
      ∀ step < steps, table.IsInterned (.text (numberedName (number + 1 + step) comment)) := by
  induction steps generalizing number with
  | zero => exact .inr fun _ impossible => absurd impossible (Nat.not_lt_zero _)
  | succ steps ih =>
    rw [freeNumber]
    split
    · rename_i taken
      refine (ih (number + 1)).imp (.next taken) fun others step bound => ?_
      cases step with
      | zero => exact taken
      | succ step =>
        have later := others step (Nat.lt_of_succ_lt_succ bound)
        rwa [show number + 1 + 1 + step = number + 1 + (step + 1) by omega] at later
    · rename_i free
      exact .inl (.found free)

theorem length_le_symbols {names : List String} (distinct : names.Nodup)
    (interned : ∀ name ∈ names, table.IsInterned (.text name)) :
    names.length ≤ table.symbols.length := by
  have keysDistinct : (names.map fun name => some (SymbolKey.localLabel (.text name))).Nodup := by
    refine List.Nodup.map (fun first second same => ?_) distinct
    simpa using same
  have keysKnown : (names.map fun name => some (SymbolKey.localLabel (.text name))) ⊆
      table.symbols.map Node.symbolKey? := by
    intro key mem
    obtain ⟨name, nameMem, rfl⟩ := mem_map.mp mem
    exact isInterned_iff.mp (interned name nameMem)
  simpa using (List.subperm_of_subset keysDistinct keysKnown).length_le

theorem searches_freeNumber (taken : table.IsInterned (.text ("_" ++ comment))) (number : Nat) :
    table.Searches comment (number + 1) (numberedName (number + 1) comment)
      (table.freeNumber comment table.symbols.length number)
      (numberedName (table.freeNumber comment table.symbols.length number) comment) := by
  rcases freeNumber_cases table comment table.symbols.length number with searches | tried
  · exact searches
  -- All numbers are taken, so these names and the one without a number are too many.
  exfalso
  let numbered := (List.range table.symbols.length).map fun step =>
    numberedName (number + 1 + step) comment
  have distinct : (("_" ++ comment) :: numbered).Nodup := by
    rw [nodup_cons]
    constructor
    · intro mem
      obtain ⟨step, -, same⟩ := mem_map.mp mem
      exact numberedName_ne_simple same
    · refine List.Nodup.map (fun first second same => ?_) nodup_range
      have sameNumber := numberedName_injective same
      omega
  have interned : ∀ name ∈ ("_" ++ comment) :: numbered, table.IsInterned (.text name) := by
    intro name mem
    rcases mem_cons.mp mem with rfl | mem
    · exact taken
    · obtain ⟨step, bound, rfl⟩ := mem_map.mp mem
      exact tried step (mem_range.mp bound)
  have tooMany := length_le_symbols distinct interned
  simp only [numbered, length_cons, length_map, length_range] at tooMany
  omega

/-- What a fresh label is, and what is left of the table that it was asked of. -/
structure Draws (comment : String) (origin : Origin) (before : SymbolTable) (mark : LocalLabel)
    (after : SymbolTable) : Prop where
  /-- The search ends, and the label has the name that was found. -/
  searches : ∃ name, mark = ⟨origin, .text name⟩ ∧
    before.Searches comment before.counter ("_" ++ comment) after.counter name
  fresh : ¬ before.IsInterned mark.name
  simple : ¬ before.IsInterned (.text ("_" ++ comment)) →
    mark.name = .text ("_" ++ comment) ∧ after.counter = before.counter
  numbered : before.IsInterned (.text ("_" ++ comment)) →
    mark.name = .text (numberedName after.counter comment) ∧ before.counter < after.counter ∧
      ∀ number, before.counter < number → number < after.counter →
        before.IsInterned (.text (numberedName number comment))
  /-- The label is the one new symbol, and but for the counter nothing else changes. -/
  table : after = { before with
    symbols := before.symbols ++ [.localLabel mark], counter := after.counter }

theorem draws_freshLocalLabel (table : SymbolTable) (comment : String) (origin : Origin) :
    Draws comment origin table (table.freshLocalLabel comment origin).1
      (table.freshLocalLabel comment origin).2 := by
  unfold freshLocalLabel
  dsimp only
  split
  · rename_i taken
    have searches := searches_freeNumber taken table.counter
    obtain ⟨above, -, others⟩ := searches.least
    generalize table.freeNumber comment table.symbols.length table.counter = number at *
    have free : ¬ { table with counter := number }.IsInterned
        (.text (numberedName number comment)) := searches.free
    rw [localLabel_of_free free]
    exact ⟨⟨_, rfl, .next taken searches⟩, free, absurd taken, fun _ => ⟨rfl, above, others⟩, rfl⟩
  · rename_i free
    rw [localLabel_of_free free]
    exact ⟨⟨_, rfl, .found free⟩, free, fun _ => ⟨rfl, rfl⟩, fun taken => absurd taken free, rfl⟩

theorem freshLocalLabel_fresh (table : SymbolTable) (comment : String) (origin : Origin) :
    ¬ table.IsInterned (table.freshLocalLabel comment origin).1.name ∧
      ∀ other, (table.freshLocalLabel comment origin).2.IsInterned other ↔
        table.IsInterned other ∨ other.key = (table.freshLocalLabel comment origin).1.name.key := by
  have draws := draws_freshLocalLabel table comment origin
  refine ⟨draws.fresh, fun other => ?_⟩
  rw [draws.table, isInterned_iff, isInterned_iff]
  simp [Node.symbolKey?]

end MacroAssembler.SymbolTable
