/-
This module lowers trees that differ in locations only.

Host code shows the locations of traps and no others, so trees that agree up to the rest are lowered
by the same steps. For a machine the locations show in diagnostics only: each of the trees is
lowered as the tree that they have in common without any locations.
-/
import MacroAssembler.Proofs.PlacelessLoading
import MacroAssembler.Proofs.PlacelessLowering
import MacroAssembler.Proofs.ResemblingTables
import MacroAssembler.Proofs.TableIndependence

namespace MacroAssembler

open Action Node

variable {config : Configuration}

/-! ### Host code -/

namespace HostCode

theorem verbatimText_unlocated (operands : List Node) :
    Assembly.verbatimText (operands.map unlocated) = Assembly.verbatimText operands := by
  have parts : (operands.map unlocated).mapM Assembly.verbatimPart =
      operands.mapM Assembly.verbatimPart := by
    rw [List.mapM_map]
    refine Checked.mapM_congr fun operand _ => ?_
    cases operand with
    | text => rfl
    | _ => exact spelling_unlocated _
  unfold Assembly.verbatimText
  rw [parts]

theorem lowerAll_unlocated {nodes : List Node} (each : ∀ node ∈ nodes,
      lowerAt config .plain node.unlocated = lowerAt config .plain node) :
    lowerAll config (nodes.map unlocated) = lowerAll config nodes := by
  induction nodes with
  | nil => rfl
  | cons node rest ih =>
    obtain ⟨first, others⟩ := List.forall_mem_cons.mp each
    rw [List.map_cons, lowerAll, lowerAll, first, ih others]

/-- Host code shows no other locations than those of traps. -/
theorem lowerAt_unlocated (node : Node) (place : Place) :
    lowerAt config place node.unlocated = lowerAt config place node := by
  induction node generalizing place with
  | step node ih =>
    have finished : ∀ code, place.finish node.unlocated code = place.finish node code := by
      intro code
      cases place with
      | plain => rfl
      | alternative => cases node <;> rfl
    have part : ∀ child ∈ node.children, ∀ place, lowerAt config place child.unlocated =
        lowerAt config place child := ih
    have all := fun nodes (inside : ∀ child ∈ nodes, child ∈ node.children) =>
      lowerAll_unlocated fun child mem => part child (inside child mem) .plain
    unfold lowerAt
    simp only [finished]
    cases node with
    | binary | unary | address | indexed | absolute | constant | conditional =>
      simp only [children, List.forall_mem_cons] at part
      simp only [unlocated, part]
    | instruction origin opcode operands comment =>
      simp only [unlocated, unlocatedAll_eq_map, verbatimText_unlocated,
        all operands fun _ mem => mem]
    | call origin name operands =>
      simp only [unlocated, unlocatedAll_eq_map, all operands fun _ mem => mem]
    | sequence origin items =>
      simp only [unlocated, unlocatedAll_eq_map, all items fun _ mem => mem]
    | definition origin name parameters body =>
      simp only [unlocated, unlocatedAll_eq_map, part body (by simp [children]),
        all parameters fun _ mem => by simp [children, mem]]
    | plain origin value =>
      cases value with
      | truth value => cases value <;> rfl
      | _ => rfl
    | _ => rfl

end HostCode

/-- Trees that are the same up to locations are lowered to the same statements, in tables that know
the same about labels. -/
theorem Backend.lowerStatements_alike {tree other : Node} {table otherTable after : SymbolTable}
    {statements : List String} (alike : Alike unlocated tree other)
    (tables : table.Resembles otherTable)
    (lowers : (Backend.lowerStatements config tree).perform table = (.ok statements, after)) :
    ∃ otherAfter, (Backend.lowerStatements config other).perform otherTable =
        (.ok statements, otherAfter) ∧
      otherAfter.unresolved = after.unresolved ∧ otherAfter.referenced = after.referenced := by
  have respects := fun node => Backend.respects_lowerStatements SymbolTable.tracksUses_resembles
    config node
  by_cases host : config.architecture.emitsHostCode
  · have same : Backend.lowerStatements config other = Backend.lowerStatements config tree := by
      simp only [Backend.lowerStatements, Backend.lower, host, if_true, HostCode.lower]
      rw [← HostCode.lowerAt_unlocated other, alike, HostCode.lowerAt_unlocated]
    obtain ⟨outcome, afterwards⟩ := respects tree table otherTable tables
    rw [lowers] at outcome afterwards
    rw [same]
    exact ⟨_, perform_of_fst outcome.symm, afterwards.unresolved, afterwards.referenced⟩
  · rw [Bool.not_eq_true] at host
    -- Both trees are lowered as the tree that they have in common without any locations.
    have samePlaceless : other.placeless = tree.placeless := by
      rw [← placeless_unlocated, alike, placeless_unlocated]
    have placelessTables : table.placeless.Resembles otherTable.placeless :=
      (table.resembles_placeless.symm.trans tables).trans otherTable.resembles_placeless
    have here := Backend.alike_lowerStatements host tree table _ rfl
    have there := Backend.alike_lowerStatements host other otherTable _ rfl
    obtain ⟨outcome, afterwards⟩ := respects tree.placeless _ _ placelessTables
    rw [samePlaceless, ← outcome] at there
    rw [lowers] at here
    generalize (Backend.lowerStatements config tree.placeless).perform table.placeless =
      common at here there afterwards
    obtain ⟨commonOutcome, commonAfter⟩ := common
    cases here with
    | ok related =>
      obtain ⟨rfl, sameAfter⟩ := related
      generalize lowered : (Backend.lowerStatements config other).perform otherTable =
        result at there
      obtain ⟨otherOutcome, otherAfter⟩ := result
      cases there with
      | ok otherRelated =>
        obtain ⟨rfl, otherSameAfter⟩ := otherRelated
        rw [sameAfter, otherSameAfter] at afterwards
        refine ⟨otherAfter, rfl, ?_, afterwards.referenced⟩
        rw [← otherAfter.unresolved_placeless, afterwards.unresolved, after.unresolved_placeless]

end MacroAssembler
