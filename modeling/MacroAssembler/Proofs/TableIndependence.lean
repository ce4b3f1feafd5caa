/-
This module proves that lowering asks a symbol table only about labels.

Lowering does the same in tables that know the same about labels: the outcome is the same, and the
tables that are left know the same again.
-/
import MacroAssembler.Emission.Backend
import MacroAssembler.Proofs.EmittedLines

namespace MacroAssembler

open Action SymbolTable

namespace HostCode

variable {config : Configuration} {relation : SymbolTable → SymbolTable → Prop}

theorem respects_lowerAll {nodes : List Node}
    (each : ∀ node ∈ nodes, (lowerAt config .plain node).Respects relation) :
    (lowerAll config nodes).Respects relation := by
  induction nodes with
  | nil => exact .pure _
  | cons node rest ih =>
    rw [lowerAll]
    refine (each node List.mem_cons_self).bind fun first => ?_
    refine (ih fun node mem => each node (List.mem_cons_of_mem _ mem)).bind fun others => ?_
    exact .pure _

theorem respects_lowerAt (tracks : TracksUses relation) (node : Node) (place : Place) :
    (lowerAt config place node).Respects relation := by
  induction node generalizing place with
  | step node ih =>
    have part : ∀ child ∈ node.children, ∀ place,
        (lowerAt config place child).Respects relation := ih
    unfold lowerAt
    refine Respects.bind ?_ fun code => .pure _
    cases node with
    | binary | address =>
      refine (part _ (by simp [Node.children]) _).bind fun _ => ?_
      exact (part _ (by simp [Node.children]) _).bind fun _ => .pure _
    | unary | absolute | constant =>
      exact (part _ (by simp [Node.children]) _).bind fun _ => .pure _
    | indexed =>
      refine (part _ (by simp [Node.children]) _).bind fun _ => ?_
      refine (part _ (by simp [Node.children]) _).bind fun _ => ?_
      refine (part _ (by simp [Node.children]) _).bind fun _ => ?_
      refine (part _ (by simp [Node.children]) _).bind fun _ => ?_
      exact (Respects.lift _).bind fun _ => .pure _
    | label mark =>
      exact .get (fun _ _ related => by rw [tracks.flagsOf _ _ _ related]) fun _ => .pure _
    | labelReference => exact (respects_noteLabelUse tracks).bind fun _ => .pure _
    | instruction origin opcode operands comment =>
      dsimp only
      split
      · exact .pure _
      split
      · exact (Respects.lift _).bind fun _ => .pure _
      · refine (respects_lowerAll fun operand mem => part operand mem _).bind fun _ => ?_
        exact (Respects.lift _).bind fun _ => .pure _
    | call origin name operands comment writtenName =>
      refine (respects_lowerAll fun operand mem => part operand mem _).bind fun _ => ?_
      refine (Respects.lift _).bind fun joined => ?_
      split <;> exact .pure _
    | sequence origin items =>
      exact (respects_lowerAll fun item mem => part item mem _).bind fun _ => .pure _
    | conditional =>
      refine (part _ (by simp [Node.children]) _).bind fun _ => ?_
      refine (part _ (by simp [Node.children]) _).bind fun _ => ?_
      exact (part _ (by simp [Node.children]) _).bind fun _ => .pure _
    | definition =>
      refine (respects_lowerAll fun parameter mem =>
        part parameter (by simp [Node.children, mem]) _).bind fun _ => ?_
      exact (part _ (by simp [Node.children]) _).bind fun _ => .pure _
    | plain origin value =>
      cases value with
      | truth value => cases value with
        | true => exact .pure _
        | false => exact .lift _
      | _ => exact .lift _
    | _ => exact .pure _

end HostCode

/-- Lowering a tree does the same in tables that know the same about labels, for a machine and as
host code. -/
theorem Backend.respects_lowerStatements {relation : SymbolTable → SymbolTable → Prop}
    (tracks : TracksUses relation) (config : Configuration) (tree : Node) :
    (Backend.lowerStatements config tree).Respects relation := by
  have assembles : (Assembly.lower config tree).Respects relation :=
    (@Assembly.emits_lower config [] tree).respects relation tracks
  refine Respects.bind ?_ fun code => .pure _
  unfold Backend.lower
  split
  · exact HostCode.respects_lowerAt tracks tree .plain
  · refine assembles.bind fun code => ?_
    cases code with
    | operand => exact .pure _
    | statements => exact .pure _

end MacroAssembler
