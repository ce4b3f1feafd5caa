/-
This module takes the locations out of a symbol table.

A table keeps every name with the location of its first occurrence. Which names there are, what is
known about the labels and which uses were noted does not depend on these locations. So every
request to the table without its locations gives what the request gives, without its location.
-/
import MacroAssembler.Proofs.Correspondence
import MacroAssembler.Proofs.Locations

namespace MacroAssembler

open List

def LabelEntry.placeless (entry : LabelEntry) : LabelEntry := { entry with origin := .nowhere }

namespace SymbolTable

def placeless (table : SymbolTable) : SymbolTable :=
  { table with
    symbols := table.symbols.map Node.placeless
    labels := table.labels.map LabelEntry.placeless }

variable (table : SymbolTable) (name : String) (origin : Origin)

theorem placeless_placeless : table.placeless.placeless = table.placeless := by
  have symbols : Node.placeless ∘ Node.placeless = Node.placeless :=
    funext fun node => Node.stripped_stripped _ _ node
  have labels : LabelEntry.placeless ∘ LabelEntry.placeless = LabelEntry.placeless := rfl
  simp only [placeless, map_map, symbols, labels]

/-! ### Interning -/

theorem find?_placeless (key : SymbolKey) :
    table.placeless.find? key = (table.find? key).map Node.placeless := by
  simp only [find?, placeless, find?_map, Function.comp_def, Node.symbolKey?_stripped]

theorem intern_placeless (node : Node) : table.placeless.intern node.placeless =
      ((table.intern node).1.placeless, (table.intern node).2.placeless) := by
  unfold intern
  rw [Node.symbolKey?_stripped]
  split
  · rfl
  · rw [find?_placeless]
    cases table.find? _ with
    | some known => rfl
    | none => simp [placeless]

theorem findLocal?_placeless (key : Name) :
    table.placeless.findLocal? key = (table.findLocal? key).map LocalLabel.placeless := by
  unfold findLocal?
  rw [find?_placeless]
  cases table.find? (.localLabel key.key) with
  | none => rfl
  | some node => cases node <;> rfl

theorem localLabel_placeless (key : Name) : table.placeless.localLabel key .nowhere =
      ((table.localLabel key origin).1.placeless, (table.localLabel key origin).2.placeless) := by
  unfold localLabel
  rw [findLocal?_placeless]
  cases table.findLocal? key with
  | some mark => rfl
  | none => simp [placeless, LocalLabel.placeless, Node.stripped]

theorem freeNumber_placeless (comment : String) (steps number : Nat) :
    table.placeless.freeNumber comment steps number = table.freeNumber comment steps number := by
  induction steps generalizing number with
  | zero => rfl
  | succ steps ih =>
    rw [freeNumber, freeNumber, findLocal?_placeless, Option.isSome_map, ih]

theorem freshLocalLabel_placeless (comment : String) :
    table.placeless.freshLocalLabel comment .nowhere =
      ((table.freshLocalLabel comment origin).1.placeless,
        (table.freshLocalLabel comment origin).2.placeless) := by
  have number : table.placeless.freeNumber comment table.placeless.symbols.length
      table.placeless.counter = table.freeNumber comment table.symbols.length table.counter := by
    rw [freeNumber_placeless, placeless, length_map]
  unfold freshLocalLabel
  dsimp only
  rw [findLocal?_placeless, Option.isSome_map, number]
  split
  · exact localLabel_placeless
      { table with counter := table.freeNumber comment table.symbols.length table.counter } origin _
  · exact localLabel_placeless table origin _

/-! ### Labels -/

theorem findLabel?_placeless (key : Name) :
    table.placeless.findLabel? key = (table.findLabel? key).map LabelEntry.placeless := by
  unfold findLabel? placeless
  rw [find?_map]
  rfl

theorem withLabel_placeless (key : Name) :
    table.placeless.withLabel key .nowhere = (table.withLabel key origin).placeless := by
  unfold withLabel
  rw [findLabel?_placeless, Option.isSome_map]
  split
  · rfl
  · simp [placeless, LabelEntry.placeless]

theorem label_placeless : table.placeless.label name .nowhere =
      ((table.label name origin).1.placeless, (table.label name origin).2.placeless) := by
  unfold label
  rw [findLabel?_placeless, withLabel_placeless table origin]
  cases table.findLabel? (.text name) <;> rfl

@[simp]
theorem flagsOf_placeless : table.placeless.flagsOf name = table.flagsOf name := by
  unfold flagsOf
  rw [findLabel?_placeless]
  cases table.findLabel? (.text name) <;> rfl

theorem updateFlags_placeless (change : LabelFlags → LabelFlags) :
    table.placeless.updateFlags name change = (table.updateFlags name change).placeless := by
  simp only [updateFlags, placeless, map_map]
  refine congrArg (fun labels => SymbolTable.mk _ labels _ _) (map_congr_left fun entry _ => ?_)
  by_cases named : entry.name.key = .text name <;> simp [LabelEntry.placeless, named]

theorem noteUse_placeless : table.placeless.noteUse name = (table.noteUse name).placeless := by
  unfold noteUse
  rw [flagsOf_placeless]
  have same : table.placeless.referenced = table.referenced := rfl
  rw [same]
  split <;> rfl

theorem labelReference_placeless (offset : Int) :
    table.placeless.labelReference name .nowhere offset =
      ((table.labelReference name origin offset).1.placeless,
        (table.labelReference name origin offset).2.placeless) := by
  unfold labelReference
  rw [label_placeless table name origin]
  dsimp only
  rw [noteUse_placeless]
  split <;> rfl

theorem defineLabel_placeless : table.placeless.defineLabel name .nowhere =
      ((table.defineLabel name origin).1.placeless, (table.defineLabel name origin).2.placeless) := by
  unfold defineLabel
  rw [label_placeless table name origin]
  dsimp only
  rw [updateFlags_placeless]

theorem labelDefinition_placeless : table.placeless.labelDefinition name .nowhere =
      ((table.labelDefinition name origin).1.placeless,
        (table.labelDefinition name origin).2.placeless) := by
  unfold labelDefinition
  split
  · exact label_placeless table name origin
  · exact defineLabel_placeless table name origin

theorem declare_placeless (declaration : LabelDeclaration) :
    (table.placeless.declare declaration name .nowhere).2 =
        (table.declare declaration name origin).2.placeless ∧
      Checked.Corresponds (fun failure other => failure.family = other.family)
        (fun mark other => other = mark.placeless) (table.declare declaration name origin).1
        (table.placeless.declare declaration name .nowhere).1 := by
  unfold declare
  rw [label_placeless table name origin]
  dsimp only
  rw [flagsOf_placeless, updateFlags_placeless]
  cases declaration with
  | global =>
    unfold conflict?
    dsimp only
    cases ((table.label name origin).2.flagsOf name).isGlobal with
    | true => exact ⟨rfl, .error rfl⟩
    | false => exact ⟨rfl, .ok rfl⟩
  | aligned =>
    unfold conflict?
    dsimp only
    cases ((table.label name origin).2.flagsOf name).alignTo with
    | some => exact ⟨rfl, .error rfl⟩
    | none => exact ⟨rfl, .ok rfl⟩

theorem unresolved_placeless : table.placeless.unresolved = table.unresolved := by
  unfold unresolved
  simp only [flagsOf_placeless]
  rfl

end SymbolTable

end MacroAssembler
