/-
This module proves that lowering for a machine does not look at locations.

Reading an operand without its locations comes to the same, and a statement without its locations
has the same instructions. A failure may name another place, but it is of the same class. Of the
symbol table lowering asks what is known about the labels of the tree and notes their uses, and
neither depends on locations.
-/
import MacroAssembler.Emission.Backend
import MacroAssembler.Proofs.InstructionSets
import MacroAssembler.Proofs.PlacelessFolding

namespace MacroAssembler

open Action List Node

/-! ### Outcomes up to the class of a failure -/

variable {outcome other : Checked α}

namespace Checked

variable {α β : Type}

/-- An outcome of which only the class of a failure is kept. -/
def classed (outcome : Checked α) : Except (DiagnosticKind ⊕ FaultKind) α :=
  outcome.mapError Failure.family

@[simp]
theorem classed_ok (value : α) : classed (.ok value : Checked α) = .ok value := rfl

@[simp]
theorem classed_pure (value : α) : classed (pure value : Checked α) = .ok value := rfl

@[simp]
theorem classed_report (cause : Cause) (location : Option Origin) (construct : Option String) :
    classed (report cause location construct : Checked α) = .error (.inl cause.kind) := rfl

@[simp]
theorem classed_refuse (fault : Fault) :
    classed (refuse fault : Checked α) = .error (.inr fault.kind) := rfl

@[simp]
theorem classed_bind (outcome : Checked α) (next : α → Checked β) :
    classed (outcome >>= next) = outcome.classed >>= fun value => (next value).classed := by
  cases outcome <;> rfl

@[simp]
theorem classed_map (outcome : Checked α) (change : α → β) :
    classed (outcome.map change) = outcome.classed.map change := by
  cases outcome <;> rfl

@[simp]
theorem classed_functorMap (outcome : Checked α) (change : α → β) :
    classed (change <$> outcome) = change <$> outcome.classed := by
  cases outcome <;> rfl

@[simp]
theorem classed_ite (condition : Prop) [Decidable condition] (first second : Checked α) :
    classed (if condition then first else second) =
      if condition then first.classed else second.classed := by
  split <;> rfl

theorem Corresponds.of_classed (same : other.classed = outcome.classed) :
    Corresponds Failure.SameFamily Eq outcome other := by
  cases outcome with
  | ok value =>
    cases other with
    | ok => exact .ok (Except.ok.inj same).symm
    | error => cases same
  | error failure =>
    cases other with
    | ok => cases same
    | error => exact .error (Except.error.inj same).symm

end Checked

open Checked

variable {config : Configuration} {α : Type}

/-! ### Immediates and registers -/

@[simp]
theorem isLiteral_placeless (node : Node) : node.placeless.isLiteral = node.isLiteral := by
  unfold isLiteral
  rw [isImmediate_stripped, (sameClasses_stripped node).reference]

@[simp]
theorem construct_var_placeless (binding : Variable) :
    (Node.var binding.placeless).construct = (Node.var binding).construct :=
  @construct_stripped (fun _ => .nowhere) (.var binding)

@[simp]
theorem classed_rejectUnbound (binding : Variable) (construct : Option String) :
    (binding.rejectUnbound construct : Checked α).classed = .error (.inl .unboundVariable) := rfl

theorem classed_rejectValue_placeless (node : Node) :
    (node.placeless.rejectValue : Checked α).classed = (node.rejectValue : Checked α).classed := by
  simp [rejectValue]

@[simp]
theorem classed_immediateValue_placeless (node : Node) :
    (node.placeless.immediateValue config).classed = (node.immediateValue config).classed := by
  induction node with
  | step node ih =>
    cases node with
    | binary origin operator left right =>
      simp only [children, forall_mem_cons] at ih
      have rejects := classed_rejectValue_placeless (α := Int) (.binary origin operator left right)
      simp only [stripped] at rejects
      simp [stripped, immediateValue, ih, rejects]
    | unary origin operator child =>
      simp only [children, forall_mem_cons] at ih
      cases operator with
      | not => exact classed_rejectValue_placeless (.unary origin .not child)
      | _ => simp [stripped, immediateValue, ih]
    | layout origin which =>
      simp only [stripped, immediateValue]
      split <;> rfl
    | var binding => simp [stripped, immediateValue]
    | plain origin value =>
      cases value with
      | truth value => cases value with
        | true => rfl
        | false => exact classed_rejectValue_placeless (.plain origin (.truth false))
      | _ => exact classed_rejectValue_placeless (.plain origin _)
    | immediate => rfl
    | _ => exact classed_rejectValue_placeless _

theorem classed_spellRegister (origin other : Origin) (name : String) :
    (config.spellRegister other name).classed = (config.spellRegister origin name).classed := by
  unfold Configuration.spellRegister
  split <;> rfl

@[simp]
theorem classed_registerText_placeless (node : Node) :
    (node.placeless.registerText config).classed = (node.registerText config).classed := by
  have rejects : ∀ (node : Node) (location other : Option Origin),
      (node.placeless.dump >>= fun shown =>
          (report (.badBase shown) other : Checked String)).classed =
        (node.dump >>= fun shown => (report (.badBase shown) location : Checked String)).classed := by
    intro node location other
    rw [dump_stripped]
    simp
  cases node with
  | register origin kind name =>
    cases kind with
    | special => rfl
    | _ => exact classed_spellRegister origin _ name
  | var binding => simp [stripped, registerText]
  | _ => exact rejects _ _ _

/-! ### Operands of statements -/

namespace Statement

def placeless (stmt : Statement) : Statement where
  origin := .nowhere
  opcode := stmt.opcode
  operands := stmt.operands.map Node.placeless
  comment := stmt.comment

variable (stmt : Statement)

@[simp]
theorem opcode_placeless : stmt.placeless.opcode = stmt.opcode := rfl

@[simp]
theorem comment_placeless : stmt.placeless.comment = stmt.comment := rfl

@[simp]
theorem operands_placeless : stmt.placeless.operands = stmt.operands.map Node.placeless := rfl

@[simp]
theorem toNode_placeless : stmt.placeless.toNode = stmt.toNode.placeless := by
  simp [toNode, stripped, placeless]

@[simp]
theorem classed_reject_placeless (cause : String → String → Cause) (operand : Node) :
    (stmt.placeless.reject cause operand.placeless : Checked α).classed =
      (stmt.reject cause operand : Checked α).classed := by
  simp [reject]

@[simp]
theorem classed_rejectCount_placeless (expected : List Nat) :
    (stmt.placeless.rejectCount expected : Checked α).classed =
      (stmt.rejectCount expected : Checked α).classed := by
  simp [rejectCount, Cause.kind]

@[simp]
theorem classed_register_placeless (node : Node) :
    (stmt.placeless.register config node.placeless).classed =
      (stmt.register config node).classed := by
  cases node with
  | var binding => simp [Statement.register, stripped]
  | register => exact classed_registerText_placeless _
  | _ => exact classed_reject_placeless stmt _ _

end Statement

@[simp]
theorem scaleOfNode?_placeless (node : Node) :
    Scale.ofNode? node.placeless = Scale.ofNode? node := by
  cases node with
  | plain origin value =>
    cases value with
    | truth value => cases value <;> rfl
    | _ => rfl
  | _ => rfl

@[simp]
theorem classed_scaleOf (origin : Origin) (scale : Node) :
    (Node.scaleOf origin scale).classed =
      match Scale.ofNode? scale with
      | some found => .ok found
      | none => scale.dump.classed >>= fun _ => .error (.inl .malformedNode) := by
  unfold Node.scaleOf
  cases Scale.ofNode? scale <;> simp [Cause.kind]

namespace Memory

def placeless : Memory → Memory
  | .direct _ base offset => .direct .nowhere base.placeless offset.placeless
  | .indexed _ base index scale offset =>
    .indexed .nowhere base.placeless index.placeless scale.placeless offset.placeless
  | .absolute _ place => .absolute .nowhere place.placeless

@[simp]
theorem ofNode?_placeless (node : Node) : ofNode? node.placeless = (ofNode? node).map placeless := by
  cases node <;> rfl

@[simp]
theorem toNode_placeless (memory : Memory) : memory.placeless.toNode = memory.toNode.placeless := by
  cases memory <;> rfl

@[simp]
theorem classed_reject_placeless (memory : Memory) (cause : Cause) :
    (memory.placeless.reject cause : Checked α).classed =
      (memory.reject cause : Checked α).classed := by
  simp [reject]

@[simp]
theorem classed_shifted_placeless (memory : Memory) (extra : Int) :
    (memory.placeless.shifted config extra).classed =
      placeless <$> (memory.shifted config extra).classed := by
  cases memory <;> simp [shifted, placeless, stripped]

end Memory

@[simp]
theorem Statement.classed_memory_placeless (stmt : Statement) (node : Node) :
    (stmt.placeless.memory node.placeless).classed =
      Memory.placeless <$> (stmt.memory node).classed := by
  unfold Statement.memory
  rw [Memory.ofNode?_placeless]
  cases Memory.ofNode? node with
  | some memory => rfl
  | none => simp [Statement.reject]

/-! ### Forms of statements -/

namespace Statement

variable {ι : Type} (stmt : Statement)

theorem classed_bare_placeless (instruction : ι) :
    (stmt.placeless.bare instruction).classed = (stmt.bare instruction).classed := by
  simp [bare]

theorem classed_combination_placeless {build otherBuild : Node → Node → Node → Checked (List ι)}
    (same : ∀ source left dest,
      (otherBuild source.placeless left.placeless dest.placeless).classed =
        (build source left dest).classed) :
    (stmt.placeless.combination otherBuild).classed = (stmt.combination build).classed := by
  unfold combination
  rw [operands_placeless]
  rcases stmt.operands with _ | ⟨_, _ | ⟨_, _ | ⟨_, _ | _⟩⟩⟩ <;> simp [same]

theorem classed_registers_placeless (build : List String → List ι) :
    (stmt.placeless.registers config build).classed = (stmt.registers config build).classed := by
  unfold registers
  rw [operands_placeless, length_map]
  rcases stmt.operands with _ | ⟨_, _ | ⟨_, _ | _⟩⟩ <;> simp

theorem classed_load_placeless {read otherRead : Node → Checked (String → List ι)}
    (same : ∀ source, (otherRead source.placeless).classed = (read source).classed) :
    (stmt.placeless.load config otherRead).classed = (stmt.load config read).classed := by
  unfold load
  rw [operands_placeless]
  rcases stmt.operands with _ | ⟨_, _ | ⟨_, _ | _⟩⟩ <;> simp [same]

end Statement

/-! ### Machines -/

/-- Whether what a machine has for a statement is what it has for the statement without its
locations. -/
structure InstructionSet.Alike {ι : Type} (machine other : InstructionSet ι) : Prop where
  vocabulary : other.vocabulary = machine.vocabulary
  arithmetic : ∀ operation source left destination,
    (other.arithmetic operation source.placeless left.placeless destination.placeless).classed =
      (machine.arithmetic operation source left destination).classed
  loaded : ∀ source, (other.loaded source.placeless).classed = (machine.loaded source).classed
  stored : other.stored.classed = machine.stored.classed
  compared : ∀ condition left right,
    (other.compared condition left.placeless right.placeless).classed =
      (machine.compared condition left right).classed
  pairs : Option.Rel (fun pair otherPair : Checked (List ι) × Checked (List ι) =>
    otherPair.1.classed = pair.1.classed ∧ otherPair.2.classed = pair.2.classed)
      machine.pairs? other.pairs?

variable (stmt : Statement)

namespace Arm64

@[simp]
theorem classed_addressOf_placeless (memory : Memory) :
    (addressOf config memory.placeless).classed = (addressOf config memory).classed := by
  have rejects := fun cause => @Memory.classed_reject_placeless Address memory cause
  cases memory <;> simp only [Memory.placeless] at rejects <;>
    simp [addressOf, Memory.placeless, rejects]

@[simp]
theorem classed_formAddress_placeless (isPair : Bool) (memory : Memory) :
    (formAddress config isPair memory.placeless).classed =
      (formAddress config isPair memory).classed := by
  have whole := @classed_addressOf_placeless config memory
  cases memory <;> simp only [Memory.placeless] at whole <;>
    simp [formAddress, Memory.placeless, whole]

@[simp]
theorem classed_memoryOperand_placeless (isPair : Bool) (node : Node) :
    (memoryOperand config stmt.placeless isPair node.placeless).classed =
      (memoryOperand config stmt isPair node).classed := by
  simp [memoryOperand]

theorem alike_machine : (machine config stmt).Alike (machine config stmt.placeless) where
  vocabulary := rfl
  arithmetic _ _ _ _ := by simp [machine, arithmetic]
  loaded _ := by simp [machine, loaded]
  stored := by
    simp only [machine, storeStatement, Statement.operands_placeless]
    rcases stmt.operands with _ | ⟨_, _ | ⟨_, _ | _⟩⟩ <;> simp
  compared _ _ _ := by simp [machine, compared, comparison]
  pairs := by
    refine .some ?_
    simp only [loadPairStatement, storePairStatement, Statement.operands_placeless]
    rcases stmt.operands with _ | ⟨_, _ | ⟨_, _ | ⟨_, _ | _⟩⟩⟩ <;> simp

end Arm64

namespace Armv7

@[simp]
theorem classed_addressOf_placeless (memory : Memory) :
    (addressOf config memory.placeless).classed = (addressOf config memory).classed := by
  have rejects := fun cause => @Memory.classed_reject_placeless Address memory cause
  cases memory <;> simp only [Memory.placeless] at rejects <;>
    simp [addressOf, Memory.placeless, rejects]

theorem alike_machine : (machine config stmt).Alike (machine config stmt.placeless) where
  vocabulary := rfl
  arithmetic _ _ _ _ := by simp [machine, arithmetic]
  loaded _ := by simp [machine, loaded, memoryOperand]
  stored := by
    simp only [machine, storeStatement, Statement.operands_placeless]
    rcases stmt.operands with _ | ⟨_, _ | ⟨_, _ | _⟩⟩ <;> simp [memoryOperand]
  compared _ _ _ := by simp [machine, compared, comparison]
  pairs := .none

end Armv7

namespace Riscv

@[simp]
theorem classed_addressOf_placeless (memory : Memory) :
    (addressOf config memory.placeless).classed = (addressOf config memory).classed := by
  have rejects := fun cause => @Memory.classed_reject_placeless Address memory cause
  have shown := memory.toNode_placeless
  cases memory <;> simp only [Memory.placeless] at rejects shown <;>
    simp [addressOf, Memory.placeless, rejects, shown]

@[simp]
theorem classed_formAddress_placeless (memory : Memory) :
    (formAddress config memory.placeless).classed = (formAddress config memory).classed := by
  have rejects := fun cause =>
    @Memory.classed_reject_placeless (List Instruction × Address) memory cause
  cases memory <;> simp only [Memory.placeless] at rejects <;>
    simp [formAddress, Memory.placeless, rejects]

theorem alike_machine : (machine config stmt).Alike (machine config stmt.placeless) where
  vocabulary := rfl
  arithmetic _ _ _ _ := by simp [machine, arithmetic]
  loaded _ := by simp [machine, loaded, memoryOperand]
  stored := by
    simp only [machine, storeStatement, Statement.operands_placeless]
    rcases stmt.operands with _ | ⟨_, _ | ⟨_, _ | _⟩⟩ <;> simp [storedValue, memoryOperand]
  compared _ _ _ := by simp [machine, compared, comparedValue]
  pairs := by
    refine .some ?_
    simp only [loadPairStatement, storePairStatement, Statement.operands_placeless]
    rcases stmt.operands with _ | ⟨_, _ | ⟨_, _ | ⟨_, _ | _⟩⟩⟩ <;> simp

end Riscv

namespace X86

@[simp]
theorem classed_addressOf_placeless (memory : Memory) :
    (addressOf config memory.placeless).classed = (addressOf config memory).classed := by
  cases memory <;> simp [addressOf, Memory.placeless]

theorem alike_machine : (machine config stmt).Alike (machine config stmt.placeless) where
  vocabulary := rfl
  arithmetic _ _ _ _ := by simp [machine, arithmetic, source]
  loaded _ := by simp [machine, loaded, memoryOperand]
  stored := by
    simp only [machine, storeStatement, Statement.operands_placeless]
    rcases stmt.operands with _ | ⟨_, _ | ⟨_, _ | _⟩⟩ <;> simp [source, memoryOperand]
  compared _ _ _ := by simp [machine, compared, source]
  pairs := by
    refine .some ?_
    simp only [loadPairStatement, storePairStatement, Statement.operands_placeless]
    rcases stmt.operands with _ | ⟨_, _ | ⟨_, _ | ⟨_, _ | _⟩⟩⟩ <;> simp

end X86

/-! ### Targets -/

/-- Whether two steps of lowering have the same result and report failures of the same class, from
a table and from that table without its locations. -/
abbrev LowersAlike (first second : Emit α) : Prop :=
  Action.Corresponds Failure.SameFamily (Becomes SymbolTable.placeless) Eq first second

theorem alike_lift (same : other.classed = outcome.classed) :
    LowersAlike (liftM outcome) (liftM other) :=
  .lift (.of_classed same)

theorem alike_noteLabelUse (mark : Label) :
    LowersAlike (noteLabelUse mark) (noteLabelUse mark.placeless) := by
  refine Action.Corresponds.mono (fun _ _ _ => rfl) (.modify ?_)
  rintro table _ rfl
  exact table.noteUse_placeless mark.name

theorem alike_target? (node : Node) : LowersAlike node.target? node.placeless.target? := by
  cases node with
  | labelReference origin mark offset =>
    exact (alike_noteLabelUse mark).bind fun _ _ _ => .pure rfl
  | localReference origin mark =>
    exact (alike_lift rfl).bind_eq fun _ => .pure rfl
  | _ => exact .pure rfl

namespace Statement

variable {ι : Type} (stmt : Statement)

theorem alike_target (node : Node) :
    LowersAlike (stmt.target node) (stmt.placeless.target node.placeless) := by
  refine (alike_target? node).bind_eq fun target => ?_
  cases target with
  | some target => exact .pure rfl
  | none => exact alike_lift (by simp)

theorem alike_move (ofTarget : Target → String → ι) (ofValue : Int → String → List ι)
    (ofRegister : String → String → ι) : LowersAlike (stmt.move config ofTarget ofValue ofRegister)
      (stmt.placeless.move config ofTarget ofValue ofRegister) := by
  unfold move
  rw [operands_placeless]
  match stmt.operands with
  | [source, dest] =>
    refine (alike_lift (by simp)).bind_eq fun destinationText => ?_
    refine (alike_target? source).bind_eq fun target => ?_
    cases target with
    | some target => exact .pure rfl
    | none =>
      dsimp only
      rw [isLiteral_placeless]
      split
      · exact (alike_lift (by simp)).bind_eq fun _ => .pure rfl
      · exact (alike_lift (by simp)).bind_eq fun _ => .pure rfl
  | [] | [_] | _ :: _ :: _ :: _ => exact alike_lift (by simp)

theorem alike_transfer (toLabel : Target → ι) (toRegister : String → ι) :
    LowersAlike (stmt.transfer config toLabel toRegister)
      (stmt.placeless.transfer config toLabel toRegister) := by
  unfold transfer
  rw [operands_placeless]
  match stmt.operands with
  | [place] =>
    dsimp only [List.map]
    rw [isRegister_stripped]
    split
    · exact (alike_lift (by simp)).bind_eq fun _ => .pure rfl
    · exact (alike_target stmt place).bind_eq fun _ => .pure rfl
  | [] | _ :: _ :: _ => exact alike_lift (by simp)

theorem alike_branch {compare otherCompare : Node → Node → Checked (Target → List ι)}
    (same : ∀ left right, (otherCompare left.placeless right.placeless).classed =
      (compare left right).classed) :
    LowersAlike (stmt.branch compare) (stmt.placeless.branch otherCompare) := by
  have ordered : ∀ left right : Node, comparisonOrder left.placeless right.placeless =
      ((comparisonOrder left right).1.placeless, (comparisonOrder left right).2.placeless) := by
    intro left right
    unfold comparisonOrder
    rw [isLiteral_placeless, isLiteral_placeless]
    split <;> rfl
  unfold branch
  rw [operands_placeless]
  match stmt.operands with
  | [left, right, place] =>
    dsimp only [List.map]
    rw [ordered]
    refine (alike_lift (same _ _)).bind_eq fun build => ?_
    exact (alike_target stmt place).bind_eq fun _ => .pure rfl
  | [] | [_] | [_, _] | _ :: _ :: _ :: _ :: _ => exact alike_lift (by simp)

end Statement

theorem InstructionSet.Alike.lower? {ι : Type} {machine other : InstructionSet ι}
    (alike : machine.Alike other) (opcode : Opcode) :
    Option.Rel LowersAlike (machine.lower? config stmt opcode)
      (other.lower? config stmt.placeless opcode) := by
  obtain ⟨words, arithmetic, loaded, stored, compared, pairs?⟩ := machine
  obtain ⟨_, otherArithmetic, otherLoaded, otherStored, otherCompared, otherPairs?⟩ := other
  obtain ⟨rfl, sameArithmetic, sameLoaded, sameStored, sameCompared, samePairs⟩ := alike
  have combined := fun operation =>
    stmt.classed_combination_placeless (sameArithmetic operation)
  cases opcode with
  | addp | subp => exact .some (alike_lift (combined _))
  | move => exact .some (stmt.alike_move _ _ _)
  | push | pop => exact .some (alike_lift (stmt.classed_registers_placeless _))
  | loadp => exact .some (alike_lift (stmt.classed_load_placeless sameLoaded))
  | storep => exact .some (alike_lift sameStored)
  | jmp | call => exact .some (stmt.alike_transfer _ _)
  | bpeq | bpneq => exact .some (stmt.alike_branch (sameCompared _))
  | ret | trap | nop => exact .some (alike_lift (stmt.classed_bare_placeless _))
  | addq | subq | loadq | storeq | loadpairq | storepairq =>
    cases samePairs with
    | none => exact .none
    | some same =>
      first
      | exact .some (alike_lift (combined _))
      | exact .some (alike_lift (stmt.classed_load_placeless sameLoaded))
      | exact .some (alike_lift sameStored)
      | exact .some (alike_lift same.1)
      | exact .some (alike_lift same.2)

/-! ### Trees -/

namespace Assembly

theorem alike_wrapped {ι : Type} {lower? otherLower? : Option (Emit (List ι))}
    (wrap : ι → MachineInstruction) (alike : Option.Rel LowersAlike lower? otherLower?) :
    Option.Rel LowersAlike (lower?.map (wrapped wrap)) (otherLower?.map (wrapped wrap)) := by
  cases alike with
  | none => exact .none
  | some alike =>
    refine .some (alike.bind ?_)
    rintro lowered _ rfl
    exact .pure rfl

theorem alike_instructions? (opcode : Opcode) :
    Option.Rel LowersAlike (instructions? config stmt opcode)
      (instructions? config stmt.placeless opcode) := by
  refine machine_cases (fun lower? => Option.Rel LowersAlike (lower? stmt) (lower? stmt.placeless))
    ?_ ?_ ?_ ?_
  · exact alike_wrapped _ ((X86.alike_machine stmt).lower? stmt opcode)
  · exact alike_wrapped _ ((Riscv.alike_machine stmt).lower? stmt opcode)
  · exact alike_wrapped _ ((Armv7.alike_machine stmt).lower? stmt opcode)
  · exact alike_wrapped _ ((Arm64.alike_machine stmt).lower? stmt opcode)

theorem verbatimText_placeless (operands : List Node) :
    verbatimText (operands.map Node.placeless) = verbatimText operands := by
  have parts : (operands.map Node.placeless).mapM verbatimPart = operands.mapM verbatimPart := by
    rw [List.mapM_map]
    refine Checked.mapM_congr fun operand _ => ?_
    cases operand with
    | text => rfl
    | _ => exact spelling_stripped _
  unfold verbatimText
  rw [parts]

theorem alike_lowerStatement : LowersAlike (lowerStatement config stmt)
      (lowerStatement config stmt.placeless) := by
  unfold lowerStatement
  rw [Statement.opcode_placeless, Statement.operands_placeless, Statement.comment_placeless,
    verbatimText_placeless, Statement.toNode_placeless, construct_stripped]
  split
  · exact .pure rfl
  split
  · exact (alike_lift rfl).bind_eq fun _ => .pure rfl
  · have rejects : LowersAlike (do
        let construct ← liftM stmt.toNode.construct
        liftM (report (.unhandledOpcode stmt.opcode config.architecture.name)
          stmt.origin construct : Checked (List Line))) (do
        let construct ← liftM stmt.toNode.construct
        liftM (report (.unhandledOpcode stmt.opcode config.architecture.name)
          stmt.placeless.origin construct : Checked (List Line))) := by
      refine (alike_lift rfl).bind fun _ _ _ => alike_lift rfl
    cases Opcode.ofName? stmt.opcode with
    | none => exact rejects
    | some opcode =>
      have lowers := @alike_instructions? config stmt opcode
      dsimp only [Option.bind]
      generalize instructions? config stmt opcode = found at lowers
      generalize instructions? config stmt.placeless opcode = otherFound at lowers
      cases lowers with
      | none => exact rejects
      | some lowers =>
        exact lowers.bind_eq fun _ => .pure rfl

@[simp]
theorem classed_rejectNode_placeless (cause : Cause) (node : Node) :
    (rejectNode cause node.placeless : Checked α).classed =
      (rejectNode cause node : Checked α).classed := by
  simp [rejectNode]

theorem classed_memoryText_placeless (memory : Memory) :
    (memoryText config memory.placeless).classed = (memoryText config memory).classed := by
  unfold memoryText
  split <;> simp

theorem classed_valueText_placeless (node : Node) :
    (valueText config node.placeless).classed = (valueText config node).classed := by
  simp [valueText]

theorem classed_plainText_placeless (node : Node) :
    (plainText config node.placeless).classed = (plainText config node).classed := by
  cases node with
  | register origin kind name => exact classed_registerText_placeless (.register origin kind name)
  | var binding => exact @classed_registerText_placeless config (.var binding)
  | address origin base offset => exact classed_memoryText_placeless (.direct origin base offset)
  | indexed origin base index scale offset =>
    exact classed_memoryText_placeless (.indexed origin base index scale offset)
  | absolute origin place => exact classed_memoryText_placeless (.absolute origin place)
  | text | setting | truth => exact classed_rejectNode_placeless _ _
  | binary origin operator left right =>
    have rejects := @classed_rejectNode_placeless String .unfoldedExpression
      (.binary origin operator left right)
    have value := @classed_valueText_placeless config (.binary origin operator left right)
    simp only [stripped] at rejects value
    simp [plainText, stripped, rejects, value]
  | unary origin operator child =>
    have rejects := @classed_rejectNode_placeless String .unfoldedExpression
      (.unary origin operator child)
    have value := @classed_valueText_placeless config (.unary origin operator child)
    simp only [stripped] at rejects value
    simp [plainText, stripped, rejects, value]
  | _ => exact classed_valueText_placeless _

theorem alike_lowerOperand (node : Node) :
    LowersAlike (lowerOperand config node) (lowerOperand config node.placeless) := by
  refine (alike_target? node).bind_eq fun target => ?_
  cases target with
  | some target => exact .pure rfl
  | none =>
    exact (alike_lift (classed_plainText_placeless node)).bind_eq fun _ => .pure rfl

theorem lower_eq_lowerOperand {node : Node} (isOperand : node.isOperand) : lower config node =
      lowerOperand config node >>= fun operand => pure (.operand operand) := by
  cases node <;> first | rfl | cases isOperand

theorem alike_lowerItems {items : List Node} (each : ∀ item ∈ items, LowersAlike (lower config item)
      (lower config item.placeless)) : LowersAlike (lowerItems config items)
      (lowerItems config (items.map Node.placeless)) := by
  induction items with
  | nil => exact .pure rfl
  | cons item rest ih =>
    obtain ⟨first, others⟩ := forall_mem_cons.mp each
    rw [map_cons, lowerItems, lowerItems]
    refine first.bind_eq fun code => ?_
    exact (ih others).bind_eq fun _ => .pure rfl

theorem alike_lower (node : Node) :
    LowersAlike (lower config node) (lower config node.placeless) := by
  induction node with
  | step node ih =>
    by_cases isOperand : node.isOperand
    · have otherOperand : node.placeless.isOperand :=
        (sameClasses_stripped node).operand.trans isOperand
      rw [lower_eq_lowerOperand isOperand, lower_eq_lowerOperand otherOperand]
      exact (alike_lowerOperand node).bind_eq fun _ => .pure rfl
    cases node with
    | label mark =>
      simp only [stripped, lower]
      refine .get ?_
      rintro table _ rfl
      rw [SymbolTable.flagsOf_placeless]
      exact .pure rfl
    | localLabel mark =>
      simp only [stripped, lower]
      exact (alike_lift rfl).bind_eq fun _ => .pure rfl
    | conditional origin predicate thenCase elseCase =>
      simp only [stripped, lower]
      exact (alike_lift (by simp)).bind fun _ _ _ => alike_lift rfl
    | definition =>
      simp only [stripped, lower]
      exact alike_lift rfl
    | call origin name operands comment writtenName =>
      simp only [lower]
      exact alike_lift
        (classed_rejectNode_placeless _ (.call origin name operands comment writtenName))
    | instruction origin opcode operands comment =>
      simp only [stripped, strippedAll_eq_map, lower]
      exact (alike_lowerStatement ⟨origin, opcode, operands, comment⟩).bind_eq fun _ => .pure rfl
    | sequence origin items =>
      simp only [stripped, strippedAll_eq_map, lower]
      exact (alike_lowerItems ih).bind_eq fun _ => .pure rfl
    | skip | constant | trap => exact .pure rfl
    | _ => exact absurd rfl isOperand

end Assembly

theorem Backend.alike_lowerStatements
    (machine : config.architecture.emitsHostCode = false) (tree : Node) :
    LowersAlike (Backend.lowerStatements config tree)
      (Backend.lowerStatements config tree.placeless) := by
  unfold Backend.lowerStatements Backend.lower
  rw [machine]
  refine .bind ?_ fun code _ same => .pure (congrArg _ same)
  refine (Assembly.alike_lower tree).bind_eq fun code => ?_
  cases code <;> exact .pure rfl

end MacroAssembler
