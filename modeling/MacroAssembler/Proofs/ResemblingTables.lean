/-
This module compares symbol tables up to entries that say nothing.

A label can be interned without being defined, declared or used. A table in which it is interned
then differs from one in which it is not, but only in the location that the label shows: what is
known about a label without an entry is just what is known about a label with a new one. So two
tables resemble each other if they know the same about every label, whether it has an entry or not,
and have local labels of the same names, the same forward references and the same counter. All
requests that come after loading answer alike in such tables, up to locations.
-/
import MacroAssembler.Proofs.Agreement
import MacroAssembler.Proofs.FreshLabel
import MacroAssembler.Proofs.Labels
import MacroAssembler.Proofs.PlacelessTable

namespace MacroAssembler

namespace SymbolTable

/-- Whether two tables know the same about all labels, have local labels of the same names and have
noted the same uses. -/
structure Resembles (first second : SymbolTable) : Prop where
  flags : ∀ name, second.flagsOf name = first.flagsOf name
  locals : ∀ name, (second.findLocal? name).map (·.name) = (first.findLocal? name).map (·.name)
  referenced : second.referenced = first.referenced
  counter : second.counter = first.counter

variable {first second third : SymbolTable}

namespace Resembles

theorem refl (table : SymbolTable) : table.Resembles table :=
  ⟨fun _ => rfl, fun _ => rfl, rfl, rfl⟩

theorem symm (resembles : first.Resembles second) : second.Resembles first :=
  ⟨fun name => (resembles.flags name).symm, fun name => (resembles.locals name).symm,
    resembles.referenced.symm, resembles.counter.symm⟩

theorem trans (resembles : first.Resembles second) (further : second.Resembles third) :
    first.Resembles third :=
  ⟨fun name => (further.flags name).trans (resembles.flags name),
    fun name => (further.locals name).trans (resembles.locals name),
    further.referenced.trans resembles.referenced, further.counter.trans resembles.counter⟩

theorem unresolved (resembles : first.Resembles second) : second.unresolved = first.unresolved := by
  unfold SymbolTable.unresolved
  rw [resembles.referenced]
  simp only [resembles.flags]

end Resembles

theorem Agrees.resembles (agrees : first.Agrees second) : first.Resembles second :=
  ⟨fun name => by unfold flagsOf; rw [agrees.labels],
    fun name => congrArg (Option.map (·.name)) (agrees.locals name), agrees.referenced,
    agrees.counter⟩

theorem resembles_placeless (table : SymbolTable) : table.Resembles table.placeless := by
  refine ⟨fun name => table.flagsOf_placeless name, fun name => ?_, rfl, rfl⟩
  rw [findLocal?_placeless, Option.map_map]
  rfl

/-! ### Labels -/

theorem resembles_label (table : SymbolTable) (name : String) (origin : Origin) :
    table.Resembles (table.label name origin).2 := by
  refine ⟨fun other => flagsOf_label name origin other, fun other => ?_, ?_, ?_⟩
  all_goals
    unfold label withLabel
    repeat' split
    all_goals rfl

namespace Resembles

theorem label (resembles : first.Resembles second) (name : String) (origin otherOrigin : Origin) :
    (first.label name origin).2.Resembles (second.label name otherOrigin).2 :=
  ((resembles_label first name origin).symm.trans resembles).trans
    (resembles_label second name otherOrigin)

theorem noteUse (resembles : first.Resembles second) (name : String) :
    (first.noteUse name).Resembles (second.noteUse name) := by
  unfold SymbolTable.noteUse
  rw [resembles.flags, resembles.referenced]
  split
  · exact ⟨resembles.flags, resembles.locals, rfl, resembles.counter⟩
  · exact resembles

theorem labelReference (resembles : first.Resembles second) (name : String)
    (origin otherOrigin : Origin) (offset : Int) :
    (first.labelReference name origin offset).2.Resembles
      (second.labelReference name otherOrigin offset).2 := by
  show Resembles (if isTemplate name then (first.label name origin).2
      else (first.label name origin).2.noteUse name)
    (if isTemplate name then (second.label name otherOrigin).2
      else (second.label name otherOrigin).2.noteUse name)
  split
  · exact resembles.label name origin otherOrigin
  · exact (resembles.label name origin otherOrigin).noteUse name

theorem defineLabel (resembles : first.Resembles second) (name : String)
    (origin otherOrigin : Origin) :
    (first.defineLabel name origin).2.Resembles (second.defineLabel name otherOrigin).2 := by
  have interned := resembles.label name origin otherOrigin
  refine ⟨fun other => ?_, interned.locals, interned.referenced, interned.counter⟩
  rw [flagsOf_defineLabel, flagsOf_defineLabel, resembles.flags]

end Resembles

theorem tracksUses_resembles : TracksUses Resembles :=
  ⟨fun _ _ name resembles => resembles.flags name, fun _ _ name resembles => resembles.noteUse name⟩

/-! ### Fresh local labels -/

theorem findLocal?_append (table : SymbolTable) (mark : LocalLabel) (name : Name) :
    { table with symbols := table.symbols ++ [Node.localLabel mark] }.findLocal? name =
      (table.findLocal? name).or (if mark.name.key = name.key then some mark else none) := by
  unfold findLocal? find?
  simp only [List.find?_append]
  cases found : table.symbols.find? fun node =>
      decide (node.symbolKey? = some (.localLabel name.key)) with
  | none =>
    by_cases same : mark.name.key = name.key <;> simp [Node.symbolKey?, same]
  | some node =>
    have matching := List.find?_some found
    obtain ⟨known, rfl, -⟩ := symbolKey?_localLabel.mp (of_decide_eq_true matching)
    rfl

namespace Resembles

theorem isInterned (resembles : first.Resembles second) (name : Name) :
    second.IsInterned name ↔ first.IsInterned name := by
  have same := congrArg Option.isSome (resembles.locals name)
  rw [Option.isSome_map, Option.isSome_map] at same
  rw [IsInterned, IsInterned, same]

/-- How many numbers are tried depends on how many symbols there are, but the name that is found is
the first free one. -/
theorem freshLocalLabel (resembles : first.Resembles second) (comment : String)
    (origin otherOrigin : Origin) : (second.freshLocalLabel comment otherOrigin).1.name =
        (first.freshLocalLabel comment origin).1.name ∧
      (first.freshLocalLabel comment origin).2.Resembles
        (second.freshLocalLabel comment otherOrigin).2 := by
  have draws := draws_freshLocalLabel first comment origin
  have otherDraws := draws_freshLocalLabel second comment otherOrigin
  obtain ⟨name, isMark, searches⟩ := draws.searches
  obtain ⟨otherName, isOther, otherSearches⟩ := otherDraws.searches
  rw [resembles.counter] at otherSearches
  obtain ⟨sameCounter, rfl⟩ := searches.unique resembles.isInterned otherSearches
  refine ⟨by rw [isMark, isOther], ?_⟩
  rw [draws.table, otherDraws.table, isMark, isOther, sameCounter]
  refine ⟨resembles.flags, fun other => ?_, resembles.referenced, rfl⟩
  have own := findLocal?_append first ⟨origin, .text otherName⟩ other
  have others := findLocal?_append second ⟨otherOrigin, .text otherName⟩ other
  refine (congrArg _ others).trans (Eq.trans ?_ (congrArg _ own).symm)
  rw [Option.map_or, Option.map_or, resembles.locals]
  split <;> rfl

end Resembles

theorem resembles_intern (table : SymbolTable) (node : Node)
    (apart : ∀ name, node.symbolKey? ≠ some (.localLabel name)) :
    table.Resembles (table.intern node).2 := by
  unfold intern
  split
  · exact .refl table
  · split
    · exact .refl table
    · refine ⟨fun _ => rfl, fun name => ?_, rfl, rfl⟩
      unfold findLocal? find?
      rw [List.find?_append]
      simp [apart]

end SymbolTable

end MacroAssembler
