/-
This module says which registers of a machine the operands of a statement stand for.

A register operand is spelled as the register table says, and the machine knows the spelling. Two
operands may be spelled alike, and some machines have two spellings for one register. The registers
that emission uses for itself are not in the tables of their machines.
-/
import MacroAssembler.Proofs.MachineExecution

namespace MacroAssembler

theorem Association.mem_of_get? {α : Type} {entries : List (String × α)} {key : String} {value : α}
    (found : get? entries key = some value) : (key, value) ∈ entries := by
  obtain ⟨entry, isFound, rfl⟩ := Option.map_eq_some_iff.mp found
  have same : entry.1 = key := by simpa using List.find?_some isFound
  rw [← same]
  exact List.mem_of_find?_eq_some isFound

theorem Checked.ok_bind {α β : Type} (value : α) (next : α → Checked β) :
    ((.ok value : Checked α) >>= next) = next value := rfl

/-! ### Registers -/

def Configuration.SpellsOwnRegisters (config : Configuration) : Prop :=
  config.registerNames = RegisterTable.ofArchitecture config.architecture

def Configuration.ofArchitecture (architecture : Architecture) : Configuration :=
  ⟨architecture, [], RegisterTable.ofArchitecture architecture, []⟩

theorem Configuration.ofArchitecture_spellsOwnRegisters (architecture : Architecture) :
    (ofArchitecture architecture).SpellsOwnRegisters := rfl

namespace Node

def machineRegister? (config : Configuration) (isTaken : MachineRegister → Bool) :
    Node → Option MachineRegister
  | .register _ .special _ => none
  | .register _ _ name => do
    let spelled ← Association.get? config.registerNames name
    config.architecture.registerFile.taken? isTaken spelled
  | _ => none

/-- Whether a register operand is spelled as a name of a register that emission does not use for
itself. -/
structure Spells (config : Configuration) (file : RegisterFile)
    (isTaken : MachineRegister → Bool) (node : Node) (spelled : String)
    (register : MachineRegister) : Prop where
  text : node.registerText config = .ok spelled
  operand : ∀ statement : Statement, statement.register config node = .ok spelled
  named : file.taken? isTaken spelled = some register
  notLiteral : node.isLiteral = false
  spare : register ∉ file.scratch

end Node

/-- No register table spells a register that emission uses for itself. -/
theorem RegisterTable.register?_not_mem_scratch (architecture : Architecture) :
    ∀ entry ∈ ofArchitecture architecture, ∀ register ∈ architecture.registerFile.scratch,
      architecture.registerFile.register? entry.2 ≠ some register := by
  cases architecture <;> decide +kernel

variable {config : Configuration} {isTaken : MachineRegister → Bool} {node : Node}

theorem Node.exists_spells (own : config.SpellsOwnRegisters) {register : MachineRegister}
    (stands : node.machineRegister? config isTaken = some register) :
    ∃ spelled, node.Spells config config.architecture.registerFile isTaken spelled register := by
  cases node with
  | register origin file name =>
    cases file
    case special => cases stands
    all_goals
      obtain ⟨spelled, found, named⟩ := Option.bind_eq_some_iff.mp stands
      have text : config.spellRegister origin name = .ok spelled := by
        simp only [Configuration.spellRegister, Configuration.registerName?, found]
      refine ⟨spelled, text, fun _ => text, named, rfl, fun mem => ?_⟩
      rw [own] at found
      exact RegisterTable.register?_not_mem_scratch _ (name, spelled)
        (Association.mem_of_get? found) register mem (Option.filter_eq_some_iff.mp named).1
  | _ => cases stands

/-! ### Sources -/

inductive Source
  | immediate (value : Int)
  | register (held : MachineRegister)
deriving DecidableEq, Repr

def Source.value {bits : Nat} (state : MachineState bits) : Source → BitVec bits
  | .immediate value => BitVec.ofInt bits value
  | .register held => state.registers held

/-- What an operand stands for that is an immediate expression or a register that is taken. -/
def Node.source? (config : Configuration) (isTaken : MachineRegister → Bool) (node : Node) :
    Option Source :=
  if node.isLiteral then (node.immediateValue config).toOption.map .immediate
  else (node.machineRegister? config isTaken).map .register

/-- Whether an operand is written as an immediate or spelled as a name of a register. -/
inductive Node.Gives (config : Configuration) (file : RegisterFile)
    (isTaken : MachineRegister → Bool) (node : Node) : Source → Prop
  | immediate {value : Int} (isLiteral : node.isLiteral = true)
      (evaluated : node.immediateValue config = .ok value) :
      Gives config file isTaken node (.immediate value)
  | register {spelled : String} {register : MachineRegister}
      (spells : node.Spells config file isTaken spelled register) :
      Gives config file isTaken node (.register register)

theorem Node.gives_of_source? (own : config.SpellsOwnRegisters) {source : Source}
    (stands : node.source? config isTaken = some source) :
    node.Gives config config.architecture.registerFile isTaken source := by
  unfold source? at stands
  split at stands
  next isLiteral =>
    obtain ⟨value, found, rfl⟩ := Option.map_eq_some_iff.mp stands
    exact .immediate isLiteral (Except.eq_ok_of_toOption found)
  next =>
    obtain ⟨register, isRegister, rfl⟩ := Option.map_eq_some_iff.mp stands
    obtain ⟨spelled, spells⟩ := node.exists_spells own isRegister
    exact .register spells

end MacroAssembler
