/-
This module follows labels from a tree to the lines of its assembly unit.

A line says which labels it writes and which it declares. The labels that are written have all been
noted, so the table that is left accounts for them, and local labels stand in the tree. The labels
that are declared are those that stand as statements in the tree; a conditional would hide some of
them, but a tree with a conditional has no lines.
-/
import MacroAssembler.Proofs.LoweredInstructions
import MacroAssembler.Proofs.WrittenLabels

namespace MacroAssembler

open Action List

def MachineInstruction.symbols : MachineInstruction → List String
  | .arm64 instruction => instruction.symbols
  | .x86 instruction => instruction.symbols
  | .riscv instruction => instruction.symbols
  | .armv7 instruction => instruction.symbols

def LoweredOperand.symbols : LoweredOperand → List String
  | .target place => place.symbols
  | .plain _ => []

/-- The labels that a line writes other than to declare them. -/
def Line.symbols : Line → List String
  | .code instruction _ => instruction.symbols
  | .operand content => content.symbols
  | _ => []

def MachineInstruction.targets : MachineInstruction → List Target
  | .arm64 instruction => instruction.targets
  | .x86 instruction => instruction.targets
  | .riscv instruction => instruction.targets
  | .armv7 instruction => instruction.targets

def LoweredOperand.targets : LoweredOperand → List Target
  | .target place => [place]
  | .plain _ => []

/-- The targets that a line writes, a local label among them where the line declares it. -/
def Line.targets : Line → List Target
  | .code instruction _ => instruction.targets
  | .operand content => content.targets
  | .localLabel symbol => [.localSymbol symbol]
  | _ => []

def Line.declared : Line → List String
  | .label _ name => [name]
  | _ => []

/-! ### Texts -/

def Contains (text piece : String) : Prop := ∃ before after, text = before ++ piece ++ after

theorem Contains.after {text piece : String} (contains : Contains text piece) (front : String) :
    Contains (front ++ text) piece := by
  obtain ⟨before, after, rfl⟩ := contains
  exact ⟨front ++ before, after, by simp only [String.append_assoc]⟩

theorem Contains.before {text piece : String} (contains : Contains text piece) (back : String) :
    Contains (text ++ back) piece := by
  obtain ⟨before, after, rfl⟩ := contains
  exact ⟨before, after ++ back, by simp only [String.append_assoc]⟩

/-- How a label is written in the text of an instruction. -/
def symbolText (name : String) : String := "SYMBOL_STRING(" ++ name ++ ")"

/-- The piece of text by which a target is recognised. -/
def Target.shown : Target → String
  | .symbol name _ => symbolText name
  | .localSymbol name => "(" ++ name ++ ")"

theorem contains_target (target : Target) : Contains target.text target.shown := by
  cases target with
  | symbol name offset =>
    have reference : Contains ("\" SYMBOL_STRING(" ++ name ++ ") \"") (symbolText name) := by
      refine ⟨"\" ", " \"", ?_⟩
      show ("\" " ++ "SYMBOL_STRING(") ++ name ++ (")" ++ " \"") =
        "\" " ++ ("SYMBOL_STRING(" ++ name ++ ")") ++ " \""
      simp only [String.append_assoc, -String.reduceAppend]
    unfold Target.text
    dsimp only
    split
    · exact reference
    · exact (reference.before _).before _
  | localSymbol name =>
    refine ⟨"\" LOCAL_LABEL_STRING", " \"", ?_⟩
    show ("\" LOCAL_LABEL_STRING" ++ "(") ++ name ++ (")" ++ " \"") =
      "\" LOCAL_LABEL_STRING" ++ ("(" ++ name ++ ")") ++ " \""
    simp only [String.append_assoc, -String.reduceAppend]

variable {target : Target}

theorem Arm64.contains_instruction {instruction : Arm64.Instruction}
    (mem : target ∈ instruction.targets) : Contains instruction.text target.shown := by
  cases instruction with
  | addressOf | branch | call | branchIf =>
    obtain rfl := mem_singleton.mp mem
    exact (contains_target _).after _
  | _ => cases mem

theorem Armv7.contains_instruction {instruction : Armv7.Instruction}
    (mem : target ∈ instruction.targets) : Contains instruction.text target.shown := by
  cases instruction with
  | addressOf | branch | call | branchIf =>
    obtain rfl := mem_singleton.mp mem
    exact (contains_target _).after _
  | _ => cases mem

theorem Riscv.contains_instruction {instruction : Riscv.Instruction}
    (mem : target ∈ instruction.targets) : Contains instruction.text target.shown := by
  cases instruction with
  | loadAddress | jump | call =>
    obtain rfl := mem_singleton.mp mem
    exact (contains_target _).after _
  | branchIf condition =>
    obtain rfl := mem_singleton.mp mem
    cases condition <;> exact (contains_target _).after _
  | _ => cases mem

theorem X86.contains_instruction {instruction : X86.Instruction}
    (mem : target ∈ instruction.targets) : Contains instruction.text target.shown := by
  cases instruction with
  | addressOf =>
    obtain rfl := mem_singleton.mp mem
    exact (((contains_target _).after _).before _).before _
  | jump | call =>
    obtain rfl := mem_singleton.mp mem
    exact (contains_target _).after _
  | jumpIf condition =>
    obtain rfl := mem_singleton.mp mem
    cases condition <;> exact (contains_target _).after _
  | _ => cases mem

theorem contains_shown {line : Line} (mem : target ∈ line.targets) :
    Contains line.text target.shown := by
  cases line with
  | code instruction comment =>
    have code : Contains instruction.text target.shown := by
      cases instruction with
      | arm64 => exact Arm64.contains_instruction mem
      | x86 => exact X86.contains_instruction mem
      | riscv => exact Riscv.contains_instruction mem
      | armv7 => exact Armv7.contains_instruction mem
    unfold Line.text
    dsimp only
    split
    · exact (((code.after _).before _).before _).before _
    · exact (code.after _).before _
  | operand operand =>
    cases operand with
    | target target =>
      obtain rfl := mem_singleton.mp mem
      exact contains_target _
    | plain text => cases mem
  | localLabel symbol =>
    obtain rfl := mem_singleton.mp mem
    refine ⟨"OFFLINE_ASM_LOCAL_LABEL", "", ?_⟩
    show ("OFFLINE_ASM_LOCAL_LABEL" ++ "(") ++ symbol ++ ")" =
      "OFFLINE_ASM_LOCAL_LABEL" ++ ("(" ++ symbol ++ ")") ++ ""
    simp only [String.append_assoc, String.append_empty, -String.reduceAppend]
  | _ => cases mem

variable {name : String}

namespace Assembly

variable {config : Configuration} {stmt : Statement} {known : List Target}

/-! ### Statements -/

theorem flatMap_targets_map {ι : Type} {written : ι → List Target} {wrap : ι → MachineInstruction}
    (same : ∀ instruction, (wrap instruction).targets = written instruction)
    (instructions : List ι) :
    (instructions.map wrap).flatMap MachineInstruction.targets = instructions.flatMap written := by
  rw [flatMap_map]
  exact flatMap_congr fun instruction _ => same instruction

theorem emits_wrapped {ι : Type} {machine : InstructionSet ι} {written : ι → List Target}
    {opcode : Opcode} {wrap : ι → MachineInstruction} (writes : machine.Writes config stmt written)
    (same : ∀ instruction, (wrap instruction).targets = written instruction)
    (step : Emit (List MachineInstruction))
    (found : (machine.lower? config stmt opcode).map (wrapped wrap) = some step) :
    Emits config stmt.operands known (List.flatMap MachineInstruction.targets) step := by
  obtain ⟨lower, lowers, rfl⟩ := Option.map_eq_some_iff.mp found
  refine (writes.emits lowers).bind fun lowered => .pure ?_
  rw [flatMap_targets_map same]
  exact subset_append_left _ _

theorem emits_instructions? {opcode : Opcode} {step : Emit (List MachineInstruction)}
    (handled : instructions? config stmt opcode = some step) :
    Emits config stmt.operands known (List.flatMap MachineInstruction.targets) step := by
  refine machine_cases (fun lower? => ∀ step, lower? stmt = some step →
    Emits config stmt.operands known (List.flatMap MachineInstruction.targets) step)
    ?_ ?_ ?_ ?_ step handled
  · exact emits_wrapped X86.writes_machine fun _ => rfl
  · exact emits_wrapped Riscv.writes_machine fun _ => rfl
  · exact emits_wrapped Armv7.writes_machine fun _ => rfl
  · exact emits_wrapped Arm64.writes_machine fun _ => rfl

theorem targets_ofInstructions (comment : Value) (instructions : List MachineInstruction) :
    (Line.ofInstructions comment instructions).flatMap Line.targets =
      instructions.flatMap MachineInstruction.targets := by
  cases instructions with
  | nil => rfl
  | cons first rest =>
    simp only [Line.ofInstructions, flatMap_cons, flatMap_map, Line.targets]

theorem lowers_verbatimText (operands : List Node) {nodes : List Node} :
    Lowers config nodes anything (verbatimText operands) := by
  have part : ∀ node, Lowers config nodes anything (verbatimPart node) := by
    intro node
    unfold verbatimPart
    split
    · exact .pure trivial
    · exact .of_silent (silent_spelling _)
  exact (Lowers.mapM fun node _ => part node).bind fun _ _ _ =>
    .of_silent (silent_joinTexts _ _)

theorem emits_lowerStatement : Emits config stmt.operands known (List.flatMap Line.targets)
      (lowerStatement config stmt) := by
  unfold lowerStatement
  split
  · exact .pure (nil_subset _)
  split
  · exact .check (lowers_verbatimText _) fun _ _ _ => .pure (nil_subset _)
  split
  · rename_i lower handled
    obtain ⟨opcode, -, found⟩ := Option.bind_eq_some_iff.mp handled
    refine (emits_instructions? found).bind fun lowered => .pure ?_
    rw [targets_ofInstructions]
    exact subset_append_left _ _
  · exact .check (lowers_construct _) fun _ _ _ => .lift (.report rfl)

/-! ### Operands -/

theorem lowers_rejectNode {α : Type} {nodes : List Node} {ensured : α → Prop} {cause : Cause}
    (node : Node) (ordinary : cause.isOrdinary) :
    Lowers config nodes ensured (rejectNode cause node : Checked α) :=
  (lowers_construct node).bind fun _ _ _ => .report ordinary

theorem lowers_rejectUnfinished {α : Type} {ensured : α → Prop} {cause : Cause} {node : Node}
    (about : cause.isUnfinished) (unfinished : node.isUnfinished) :
    Lowers config [node] ensured (rejectNode cause node : Checked α) :=
  (lowers_construct node).bind fun _ _ _ => .reportUnfinished about unfinished

theorem lowers_valueText (node : Node) : Lowers config [node] anything (valueText config node) :=
  (lowers_immediateValue config node).bind fun _ _ _ => .pure trivial

theorem lowers_memoryText (memory : Memory) :
    Lowers config [memory.toNode] anything (memoryText config memory) := by
  unfold memoryText
  split
  · exact (X86.lowers_addressOf memory).map
  · exact (Riscv.lowers_addressOf memory).map
  · exact (Armv7.lowers_addressOf memory).map
  · exact (Arm64.lowers_addressOf memory).map

theorem lowers_plainText (node : Node) : Lowers config [node] anything (plainText config node) := by
  unfold plainText
  split
  · exact lowers_rejectNode _ rfl
  · exact lowers_registerText config _
  · exact lowers_registerText config _
  · exact lowers_rejectUnfinished rfl rfl
  · exact lowers_rejectUnfinished rfl rfl
  · split
    · rename_i logical
      exact lowers_rejectUnfinished rfl (by simp [Node.isUnfinished, Node.isCondition, logical])
    · exact lowers_valueText _
  · split
    · rename_i logical
      exact lowers_rejectUnfinished rfl (by simp [Node.isUnfinished, Node.isCondition, logical])
    · exact lowers_valueText _
  · exact lowers_memoryText (.direct _ _ _)
  · exact lowers_memoryText (.indexed _ _ _ _ _)
  · exact lowers_memoryText (.absolute _ _)
  · exact lowers_valueText _

theorem emits_lowerOperand (node : Node) :
    Emits config [node] known LoweredOperand.targets (lowerOperand config node) := by
  refine (emits_target? mem_cons_self).bind fun target => ?_
  cases target with
  | some target => exact .pure (subset_append_left _ _)
  | none => exact .check (lowers_plainText node) fun _ _ _ => .pure (nil_subset _)

/-! ### Trees -/

def Code.targets (code : Code) : List Target := (linesOf code).flatMap Line.targets

theorem targets_linesOf_operand (operand : LoweredOperand) :
    Code.targets (.operand operand) ⊆ operand.targets := by
  show (if operand.text = "" then [] else [Line.operand operand]).flatMap Line.targets ⊆ _
  split
  · exact nil_subset _
  · exact fun target mem => by simpa [Line.targets] using mem

theorem emits_lowerItems {nodes items : List Node} (subset : items ⊆ nodes)
    (each : ∀ item ∈ items, ∀ known, Emits config [item] known Code.targets (lower config item)) :
    Emits config nodes known (List.flatMap Line.targets) (lowerItems config items) := by
  induction items generalizing known with
  | nil => exact .pure (nil_subset _)
  | cons item rest ih =>
    have first := (each item mem_cons_self known).of_subset
      (by simpa using subset mem_cons_self : [item] ⊆ nodes)
    have others : ∀ known, Emits config nodes known (List.flatMap Line.targets)
        (lowerItems config rest) := fun known =>
      ih (subset_of_cons_subset subset) fun item mem => each item (mem_cons_of_mem _ mem)
    refine first.bind fun code => (others _).bind fun lines => .pure ?_
    rw [flatMap_append]
    exact append_subset.mpr ⟨fun target mem => mem_append_right _
      (mem_append_left _ mem), subset_append_left _ _⟩

/-- Lowering a tree accounts for every label that its lines write. It reports an unbound variable
only if the tree has a variable, and a node that an earlier pass should have removed only if it has
one. -/
theorem emits_lower (node : Node) : Emits config [node] known Code.targets (lower config node) := by
  induction node generalizing known with
  | step node ih =>
    cases node with
    | label mark =>
      refine ⟨?_, fun _ _ _ impossible => (by cases impossible),
        fun _ tracks => .get (fun _ _ related => ?_) fun _ => .pure _⟩
      · intro table code after ran
        cases ran
        exact ⟨.refl _, nofun⟩
      · rw [tracks.flagsOf _ _ _ related]
    | localLabel mark =>
      exact emits_localSymbol mem_cons_self (by simp [Node.flatten]) fun _ =>
        List.Subset.refl _
    | skip | constant => exact .pure (nil_subset _)
    | trap =>
      refine .pure ?_
      unfold trap
      split <;> exact nil_subset _
    | conditional =>
      exact .check (lowers_dump _) fun _ _ _ => .lift (.reportUnfinished rfl rfl)
    | definition => exact .lift (.reportUnfinished rfl rfl)
    | call => exact .lift (lowers_rejectUnfinished rfl rfl)
    | instruction origin opcode operands comment =>
      have lines : Emits config [.instruction origin opcode operands comment] known
          (List.flatMap Line.targets)
          (lowerStatement config ⟨origin, opcode, operands, comment⟩) :=
        emits_lowerStatement.of_parts rfl (List.Subset.refl _)
      exact lines.bind fun lines => .pure (subset_append_left _ _)
    | sequence origin items =>
      have lines : Emits config [.sequence origin items] known (List.flatMap Line.targets)
          (lowerItems config items) :=
        (emits_lowerItems (List.Subset.refl items) fun item mem _ =>
          ih item mem).of_parts rfl (List.Subset.refl _)
      exact lines.bind fun lines => .pure (subset_append_left _ _)
    | _ =>
      refine (emits_lowerOperand _).bind fun operand => .pure ?_
      exact List.Subset.trans (targets_linesOf_operand operand) (subset_append_left _ _)

variable {table after : SymbolTable}

theorem lower_localSymbol {node : Node} {code : Code} {symbol : String}
    (ran : (lower config node).perform table = (.ok code, after))
    (written : .localSymbol symbol ∈ (linesOf code).flatMap Line.targets) :
    ∃ mark, .localLabel mark ∈ node.flatten ∧ mark.symbol = .ok symbol := by
  obtain ⟨-, noted⟩ := (@emits_lower config [] node).accounts _ _ _ ran
  obtain ⟨_, single, part, inside, spelled⟩ := (noted _ written).resolve_left not_mem_nil
  obtain rfl := mem_singleton.mp single
  cases part with
  | localLabel mark =>
    exact ⟨mark, inside, Except.eq_ok_of_toOption (of_decide_eq_true spelled)⟩
  | _ => cases spelled

/-! ### Declarations -/

theorem declared_ofInstructions (comment : Value) (instructions : List MachineInstruction) :
    (Line.ofInstructions comment instructions).flatMap Line.declared = [] := by
  cases instructions with
  | nil => rfl
  | cons first rest => simp [Line.ofInstructions, Line.declared]

theorem lowerStatement_declares {lines : List Line}
    (ran : (lowerStatement config stmt).perform table = (.ok lines, after)) :
    lines.flatMap Line.declared = [] := by
  unfold lowerStatement at ran
  split at ran
  · cases ran
    rfl
  split at ran
  · simp only [perform_bind_ok, perform_lift, perform_pure, Prod.mk.injEq, Except.ok.injEq] at ran
    obtain ⟨text, _, -, rfl, rfl⟩ := ran
    rfl
  split at ran
  · simp only [perform_bind_ok, pure_ok] at ran
    obtain ⟨lowered, _, -, rfl, rfl⟩ := ran
    exact declared_ofInstructions _ _
  · simp only [perform_bind_ok, perform_lift, report, Prod.mk.injEq, reduceCtorEq,
      false_and, and_false, exists_false] at ran

theorem linesOf_operand_declares (operand : LoweredOperand) :
    (linesOf (.operand operand)).flatMap Line.declared = [] := by
  show (if operand.text = "" then [] else [Line.operand operand]).flatMap Line.declared = _
  split <;> rfl

theorem lowerItems_declares {items : List Node} {lines : List Line}
    (each : ∀ item ∈ items, ∀ table code after,
      (lower config item).perform table = (.ok code, after) →
        (name ∈ (linesOf code).flatMap Line.declared ↔ item.DefinesLabel name))
    (ran : (lowerItems config items).perform table = (.ok lines, after)) :
    name ∈ lines.flatMap Line.declared ↔ ∃ item ∈ items, item.DefinesLabel name := by
  induction items generalizing table lines with
  | nil =>
    cases ran
    simp
  | cons item rest ih =>
    simp only [lowerItems, perform_bind_ok, pure_ok] at ran
    obtain ⟨code, middle, first, others, _, later, rfl, rfl⟩ := ran
    have tail := ih (fun item mem => each item (mem_cons_of_mem _ mem)) later
    rw [flatMap_append, mem_append, tail, each item mem_cons_self _ _ _ first]
    simp

theorem lower_declares (node : Node) {code : Code}
    (ran : (lower config node).perform table = (.ok code, after)) :
    name ∈ (linesOf code).flatMap Line.declared ↔ node.DefinesLabel name := by
  induction node generalizing table code after with
  | step node ih =>
    cases node with
    | label mark =>
      cases ran
      simp only [linesOf, flatMap_singleton, Line.declared, mem_singleton]
      refine ⟨fun same => .label same.symm, fun defined => ?_⟩
      cases defined with
      | label same => exact same.symm
    | sequence origin items =>
      simp only [lower, perform_bind_ok, pure_ok] at ran
      obtain ⟨lines, _, lowered, rfl, rfl⟩ := ran
      have inside := lowerItems_declares (fun item mem _ _ _ => ih item mem) lowered
      refine inside.trans ⟨fun ⟨item, mem, defined⟩ => .item mem defined, fun defined => ?_⟩
      cases defined with
      | item mem defined => exact ⟨_, mem, defined⟩
    | instruction origin opcode operands comment =>
      simp only [lower, perform_bind_ok, pure_ok] at ran
      obtain ⟨lines, _, lowered, rfl, rfl⟩ := ran
      rw [linesOf, lowerStatement_declares lowered]
      exact iff_of_false not_mem_nil fun defined => by cases defined
    | localLabel mark =>
      simp only [lower, perform_bind_ok, perform_lift, perform_pure,
        Prod.mk.injEq, Except.ok.injEq] at ran
      obtain ⟨symbol, _, -, rfl, rfl⟩ := ran
      exact iff_of_false not_mem_nil fun defined => by cases defined
    | skip | constant | trap =>
      cases ran
      exact iff_of_false not_mem_nil fun defined => by cases defined
    | conditional | definition | call =>
      simp only [lower, rejectNode, perform_bind_ok, perform_lift, Checked.bind_ok,
        report, Prod.mk.injEq, reduceCtorEq, false_and, and_false, exists_false] at ran
    | _ =>
      simp only [lower, perform_bind_ok, pure_ok] at ran
      obtain ⟨operand, _, -, rfl, rfl⟩ := ran
      rw [linesOf_operand_declares]
      exact iff_of_false not_mem_nil fun defined => by cases defined

end Assembly

end MacroAssembler
