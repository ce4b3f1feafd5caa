/-
This module says what reading the operands of a statement can lead to.

Reading an operand may fail in many ways, but a variable that is bound to nothing is only reported
where a variable stands in the operand, a node that an earlier pass should have removed only where
one stands, and a missing value only for a layout constant that the configuration does not have. A
statement that writes labels notes the use of each of them first, so they are accounted for in the
table it leaves. Of the table it asks only what is known about labels.
-/
import MacroAssembler.Emission.Form
import MacroAssembler.Proofs.Agreement
import MacroAssembler.Proofs.Avoidance
import MacroAssembler.Proofs.Construction
import MacroAssembler.Proofs.Labels

namespace MacroAssembler

open Action List

variable {node : Node} {nodes : List Node} {cause : Cause} {location : Option Origin}
  {construct : Option String}

def Failure.isUnbound : Failure → Bool
  | .diagnostic problem => decide (problem.cause.kind = .unboundVariable)
  | .fault _ => false

def Cause.isUnfinished : Cause → Bool
  | .unfoldedExpression | .unfoldedConditional | .unexpandedMacro _ | .unexpandedCall _ => true
  | _ => false

/-- Whether a failure reports a node that folding or expansion should have removed. -/
def Failure.isUnfinished : Failure → Bool
  | .diagnostic problem => problem.cause.isUnfinished
  | .fault _ => false

def Cause.isMissing : Cause → Bool
  | .noLayoutValue _ => true
  | _ => false

def Failure.isMissing : Failure → Bool
  | .diagnostic problem => problem.cause.isMissing
  | .fault _ => false

theorem isMissing_of_not_isDiagnostic {failure : Failure} (isFault : ¬ failure.IsDiagnostic) :
    failure.isMissing = false := by
  cases failure with
  | diagnostic problem => exact absurd ⟨problem, rfl⟩ isFault
  | fault => rfl

/-- Whether a cause has to do with an operand itself: not with an unbound variable, nor with a node
that an earlier pass should have removed, nor with a layout constant without a value. -/
def Cause.isOrdinary (cause : Cause) : Bool :=
  decide (cause.kind ≠ .unboundVariable) && !cause.isUnfinished && !cause.isMissing

/-- Whether a variable of a name occurs in a tree, other than as the name that a constant
declares. -/
inductive Node.Mentions (name : String) : Node → Prop
  | var {binding : Variable} (same : binding.name = name) : Mentions name (.var binding)
  | value {origin : Origin} {binding : Variable} {value : Node} (inside : Mentions name value) :
      Mentions name (.constant origin binding value)
  | part {node child : Node} (notConstant : node.isConstant = false)
      (member : child ∈ node.children) (inside : Mentions name child) : Mentions name node

/-- A variable in a node that is neither a variable nor a declaration is in one of its parts. -/
theorem Node.Mentions.inside {name : String} (mentioned : node.Mentions name)
    (notVariable : node.isVariable = false) (notConstant : node.isConstant = false) :
    ∃ child ∈ node.children, child.Mentions name := by
  cases mentioned with
  | var => cases notVariable
  | value => cases notConstant
  | part _ mem inside => exact ⟨_, mem, inside⟩

def AnyVariable (nodes : List Node) : Prop := ∃ node ∈ nodes, ∃ name, node.Mentions name

theorem AnyVariable.of_subset {others : List Node} (any : AnyVariable nodes)
    (subset : nodes ⊆ others) : AnyVariable others := by
  obtain ⟨node, mem, mentioned⟩ := any
  exact ⟨node, subset mem, mentioned⟩

/-- Whether a node is the invocation of a named macro. -/
def Node.isCall : Node → Bool
  | .call .. => true
  | _ => false

/-- Whether a node has to be removed by folding or expansion before a tree is lowered. -/
def Node.isUnfinished (node : Node) : Bool :=
  node.isCondition || node.isConditional || node.isDefinition || node.isCall

def Node.isMissing (config : Configuration) : Node → Bool
  | .layout _ which => (config.layoutValue? which.key).isNone
  | _ => false

/-- Whether one of some trees has a node of a kind. -/
def AnyPart (wanted : Node → Bool) (nodes : List Node) : Prop :=
  ∃ node ∈ nodes, ∃ part ∈ node.flatten, wanted part

namespace AnyPart

variable {wanted : Node → Bool} {nodes others : List Node} {node : Node}

theorem of_subset (any : AnyPart wanted nodes) (subset : nodes ⊆ others) :
    AnyPart wanted others := by
  obtain ⟨node, mem, inside⟩ := any
  exact ⟨node, subset mem, inside⟩

theorem of_parts (any : AnyPart wanted nodes) (parts : nodes ⊆ node.children) :
    AnyPart wanted [node] := by
  obtain ⟨child, mem, part, inside, holds⟩ := any
  refine ⟨node, mem_cons_self, part, ?_, holds⟩
  rw [Node.flatten_eq]
  exact mem_cons_of_mem _ (Node.mem_flattenAll.mpr ⟨child, parts mem, inside⟩)

theorem single (holds : wanted node) : AnyPart wanted [node] :=
  ⟨node, mem_cons_self, node, by rw [Node.flatten_eq]; exact mem_cons_self, holds⟩

end AnyPart

abbrev AnyUnfinished (nodes : List Node) : Prop := AnyPart Node.isUnfinished nodes

/-- Whether a failure is explained by some trees: an unbound variable by a variable in one of them,
a node that an earlier pass should have removed by such a node, and a missing value by a layout
constant that the configuration does not have. -/
structure Failure.Explained (config : Configuration) (nodes : List Node)
    (failure : Failure) : Prop where
  unbound : failure.isUnbound → AnyVariable nodes
  unfinished : failure.isUnfinished → AnyUnfinished nodes
  missing : failure.isMissing → AnyPart (Node.isMissing config) nodes

variable {config : Configuration}

namespace Failure.Explained

variable {nodes others : List Node} {node : Node} {failure : Failure}

theorem of_subset (explained : failure.Explained config nodes) (subset : nodes ⊆ others) :
    failure.Explained config others where
  unbound isUnbound := (explained.unbound isUnbound).of_subset subset
  unfinished isUnfinished := (explained.unfinished isUnfinished).of_subset subset
  missing isMissing := (explained.missing isMissing).of_subset subset

theorem of_parts (explained : failure.Explained config nodes)
    (notConstant : node.isConstant = false) (parts : nodes ⊆ node.children) :
    failure.Explained config [node] where
  unbound isUnbound := by
    obtain ⟨child, mem, name, inside⟩ := explained.unbound isUnbound
    exact ⟨node, mem_cons_self, name, .part notConstant (parts mem) inside⟩
  unfinished isUnfinished := (explained.unfinished isUnfinished).of_parts parts
  missing isMissing := (explained.missing isMissing).of_parts parts

theorem of_ordinary
    (ordinary : cause.isOrdinary) :
    (Failure.diagnostic ⟨cause, location, construct⟩).Explained config nodes := by
  simp only [Cause.isOrdinary, Bool.and_eq_true, decide_eq_true_eq, Bool.not_eq_true'] at ordinary
  refine ⟨fun isUnbound => ?_, fun isUnfinished => ?_, fun isMissing => ?_⟩
  · exact absurd (of_decide_eq_true isUnbound) ordinary.1.1
  · exact absurd (isUnfinished.symm.trans ordinary.1.2) (by simp)
  · exact absurd (isMissing.symm.trans ordinary.2) (by simp)

end Failure.Explained

/-! ### Checks -/

/-- Whether a check only gives what is ensured, and fails only with what the given trees explain. -/
structure Lowers {α : Type} (config : Configuration) (nodes : List Node)
    (ensured : α → Prop) (outcome : Checked α) : Prop where
  ensures : ∀ value, outcome = .ok value → ensured value
  explains : ∀ failure, outcome = .error failure → failure.Explained config nodes

/-- The condition on a value of which nothing is ensured. -/
def anything {α : Type} (_ : α) : Prop := True

@[simp]
theorem anything_iff {α : Type} (value : α) : anything value ↔ True := Iff.rfl

namespace Lowers

variable {α β : Type} {nodes others : List Node} {ensured : α → Prop} {nextEnsured : β → Prop}

theorem pure {value : α} (holds : ensured value) :
    Lowers config nodes ensured (Pure.pure value : Checked α) where
  ensures _ same := by cases same; exact holds
  explains _ impossible := by cases impossible

theorem bind {first : Checked α} {next : α → Checked β} (checks : Lowers config nodes ensured first)
    (continues : ∀ value, first = .ok value → ensured value →
      Lowers config nodes nextEnsured (next value)) :
    Lowers config nodes nextEnsured (first >>= next) where
  ensures result ran := by
    obtain ⟨value, passed, last⟩ := Checked.bind_ok.mp ran
    exact (continues value passed (checks.ensures value passed)).ensures result last
  explains failure failed := by
    rcases Checked.bind_error.mp failed with early | ⟨value, passed, late⟩
    · exact checks.explains failure early
    · exact (continues value passed (checks.ensures value passed)).explains failure late

@[simp]
theorem pure_iff {value : α} :
    Lowers config nodes ensured (Pure.pure value : Checked α) ↔ ensured value :=
  ⟨fun lowers => lowers.ensures value rfl, .pure⟩

/-- After a check that is explained by itself only what comes next has to be looked at. -/
@[simp]
theorem bind_iff {first : Checked α} {next : α → Checked β}
    (checks : Lowers config nodes anything first) :
    Lowers config nodes nextEnsured (first >>= next) ↔
      ∀ value, first = .ok value → Lowers config nodes nextEnsured (next value) := by
  refine ⟨fun lowers value passed => ?_, fun continues => checks.bind fun value passed _ =>
    continues value passed⟩
  rwa [passed] at lowers

@[simp]
theorem map_iff {first : Checked α} {change : α → β} (checks : Lowers config nodes anything first) :
    Lowers config nodes nextEnsured (change <$> first) ↔
      ∀ value, first = .ok value → nextEnsured (change value) := by
  rw [← bind_pure_comp, bind_iff checks]
  simp

@[simp]
theorem ite_iff {condition : Prop} [Decidable condition] {outcome other : Checked α} :
    Lowers config nodes ensured (if condition then outcome else other) ↔
      (condition → Lowers config nodes ensured outcome) ∧
        (¬ condition → Lowers config nodes ensured other) := by
  split <;> simp [*]

theorem report
    (ordinary : cause.isOrdinary) : Lowers config nodes ensured
      (MacroAssembler.report cause location construct : Checked α) where
  ensures _ impossible := by cases impossible
  explains failure failed := by
    cases failed
    exact .of_ordinary ordinary

theorem reportUnfinished (about : cause.isUnfinished) (unfinished : node.isUnfinished) :
    Lowers config [node] ensured (MacroAssembler.report cause location construct : Checked α) where
  ensures _ impossible := by cases impossible
  explains failure failed := by
    cases failed
    refine ⟨fun isUnbound => ?_, fun _ => .single unfinished, fun isMissing => ?_⟩
    · have unbound := of_decide_eq_true isUnbound
      cases cause <;> cases about <;> cases unbound
    · cases cause <;> cases about <;> cases isMissing

theorem refuse (fault : Fault) :
    Lowers config nodes ensured (MacroAssembler.refuse fault : Checked α) where
  ensures _ impossible := by cases impossible
  explains failure failed := by
    cases failed
    exact ⟨nofun, nofun, nofun⟩

theorem of_subset {outcome : Checked α} (lowers : Lowers config nodes ensured outcome)
    (subset : nodes ⊆ others) : Lowers config others ensured outcome where
  ensures := lowers.ensures
  explains failure failed := (lowers.explains failure failed).of_subset subset

theorem of_mem {outcome : Checked α}
    (lowers : Lowers config [node] ensured outcome) (mem : node ∈ nodes) :
    Lowers config nodes ensured outcome :=
  lowers.of_subset (by simpa using mem)

theorem of_part {child : Node} {outcome : Checked α}
    (lowers : Lowers config [child] ensured outcome)
    (notConstant : node.isConstant = false) (mem : child ∈ node.children) :
    Lowers config [node] ensured outcome where
  ensures := lowers.ensures
  explains failure failed :=
    (lowers.explains failure failed).of_parts notConstant (by simpa using mem)

theorem map {first : Checked α} {next : α → β} (checks : Lowers config nodes anything first) :
    Lowers config nodes anything (first.map next) := by
  cases first with
  | ok value => exact .pure trivial
  | error problem =>
    refine ⟨fun _ impossible => ?_, fun failure failed => ?_⟩
    · cases impossible
    · cases failed
      exact checks.explains _ rfl

theorem mapM {items : List α} {check : α → Checked β}
    (each : ∀ item ∈ items, Lowers config nodes anything (check item)) :
    Lowers config nodes anything (items.mapM check) := by
  induction items with
  | nil => exact .pure trivial
  | cons item rest ih =>
    rw [mapM_cons]
    refine (each item mem_cons_self).bind fun _ _ _ => ?_
    refine (ih fun item mem => each item (mem_cons_of_mem _ mem)).bind fun _ _ _ => ?_
    exact .pure trivial

end Lowers

/-! ### Spellings -/

theorem silent_textsFrom (position : Nat) (parts : List Value) :
    (textsFrom position parts).IsSilent := by
  induction parts generalizing position with
  | nil => exact .pure _
  | cons part rest ih =>
    cases part with
    | text part => exact (ih _).bind fun _ => .pure _
    | _ => exact .fault _

theorem silent_joinTexts (separator : String) (parts : List Value) :
    (joinTexts separator parts).IsSilent :=
  (silent_textsFrom 0 parts).bind fun _ => .pure _

theorem silent_spellings {items : List Node} (each : ∀ item ∈ items, item.spelling.IsSilent) :
    (Node.spellings items).IsSilent := by
  induction items with
  | nil => exact .pure _
  | cons item rest ih =>
    obtain ⟨first, others⟩ := forall_mem_cons.mp each
    exact first.bind fun _ => (ih others).bind fun _ => .pure _

theorem silent_spelling (node : Node) : node.spelling.IsSilent := by
  induction node with
  | step node ih =>
    have part : ∀ child ∈ node.children, child.spelling.IsSilent := ih
    cases node with
    | address | binary =>
      refine (part _ (by simp [Node.children])).bind fun _ => ?_
      exact (part _ (by simp [Node.children])).bind fun _ => .pure _
    | indexed =>
      refine (part _ (by simp [Node.children])).bind fun _ => ?_
      refine (part _ (by simp [Node.children])).bind fun _ => ?_
      refine (part _ (by simp [Node.children])).bind fun _ => ?_
      exact (part _ (by simp [Node.children])).bind fun _ => .pure _
    | absolute | unary | constant =>
      exact (part _ (by simp [Node.children])).bind fun _ => .pure _
    | conditional =>
      refine (part _ (by simp [Node.children])).bind fun _ => ?_
      refine (part _ (by simp [Node.children])).bind fun _ => ?_
      exact (part _ (by simp [Node.children])).bind fun _ => .pure _
    | instruction | call | sequence =>
      exact (silent_spellings part).bind fun _ => (silent_joinTexts _ _).bind fun _ => .pure _
    | definition =>
      refine (silent_spellings fun item mem => part item (by simp [Node.children, mem])).bind
        fun _ => (silent_joinTexts _ _).bind fun _ => ?_
      exact (part _ (by simp [Node.children])).bind fun _ => .pure _
    | labelReference =>
      rw [Node.spelling]
      split <;> exact .pure _
    | plain origin value =>
      cases value with
      | truth value => cases value with
        | true => exact .pure _
        | false => exact .fault _
      | _ => exact .fault _
    | _ => exact .pure _

theorem silent_dump (node : Node) : node.dump.IsSilent :=
  (silent_spelling node).bind fun _ => .pure _

theorem silent_construct (node : Node) : node.construct.IsSilent := by
  refine (silent_spelling node).bind fun spelled => ?_
  split
  · refine ((silent_spelling node).bind fun spelled => ?_).bind fun _ => .pure _
    cases spelled with
    | text => exact .pure _
    | _ => exact .fault _
  · exact .pure _

theorem Lowers.of_silent {α : Type} {outcome : Checked α}
    (silent : outcome.IsSilent) : Lowers config nodes anything outcome where
  ensures _ _ := trivial
  explains failure failed := by
    cases failure with
    | diagnostic problem => exact absurd ⟨problem, rfl⟩ (silent _ failed)
    | fault fault => exact ⟨nofun, nofun, nofun⟩

theorem lowers_dump (node : Node) :
    Lowers config nodes anything node.dump := .of_silent (silent_dump node)

theorem lowers_construct (node : Node) :
    Lowers config nodes anything node.construct := .of_silent (silent_construct node)

/-! ### Operands -/

section Operands

variable {α : Type} {stmt : Statement} {node : Node}
  {nodes : List Node} {ensured : α → Prop}

theorem lowers_rejectUnbound {binding : Variable} :
    Lowers config [.var binding] ensured (binding.rejectUnbound construct : Checked α) where
  ensures _ impossible := by cases impossible
  explains failure failed := by
    cases failed
    exact ⟨fun _ => ⟨.var binding, mem_cons_self, binding.name, .var rfl⟩, nofun, nofun⟩

theorem lowers_rejectValue (node : Node) :
    Lowers config nodes ensured (node.rejectValue : Checked α) :=
  (lowers_dump node).bind fun _ _ _ => .report rfl

theorem lowers_reject {cause : String → String → Cause} (operand : Node)
    (ordinary : ∀ opcode shown, (cause opcode shown).isOrdinary) :
    Lowers config nodes ensured (stmt.reject cause operand : Checked α) := by
  refine (lowers_dump operand).bind fun _ _ _ => ?_
  exact (lowers_construct _).bind fun _ _ _ => .report (ordinary _ _)

@[simp]
theorem lowers_rejectCount (expected : List Nat) :
    Lowers config nodes ensured (stmt.rejectCount expected : Checked α) :=
  (lowers_construct _).bind fun _ _ _ => .report rfl

theorem lowers_noLayoutValue {origin : Origin} {which : LayoutConstant}
    (absent : config.layoutValue? which.key = none) :
    Lowers config [.layout origin which] ensured
      (report (.noLayoutValue which.key) location construct : Checked α) where
  ensures _ impossible := by cases impossible
  explains failure failed := by
    cases failed
    refine ⟨nofun, nofun, fun _ => .single ?_⟩
    rw [Node.isMissing, absent]
    rfl

/-- Evaluating an immediate expression finds an unbound variable only if there is a variable, and a
layout constant without a value only if there is one. -/
theorem lowers_immediateValue (config : Configuration) (node : Node) :
    Lowers config [node] anything (node.immediateValue config) := by
  induction node with
  | step node ih =>
    cases node with
    | immediate => exact .pure trivial
    | var binding =>
      rw [Node.immediateValue]
      exact (lowers_construct _).bind fun _ _ _ => lowers_rejectUnbound
    | layout origin constant =>
      rw [Node.immediateValue]
      split
      · exact .pure trivial
      · exact lowers_noLayoutValue ‹_›
    | binary origin operator left right =>
      rw [Node.immediateValue]
      split
      · exact lowers_rejectValue _
      · refine ((ih left (by simp [Node.children])).of_part rfl
          (by simp [Node.children])).bind fun _ _ _ => ?_
        refine ((ih right (by simp [Node.children])).of_part rfl
          (by simp [Node.children])).bind fun _ _ _ => ?_
        exact .pure trivial
    | unary origin operator child =>
      have part : Lowers config [.unary origin operator child] anything
          (child.immediateValue config) :=
        (ih child (by simp [Node.children])).of_part rfl (by simp [Node.children])
      cases operator with
      | not => exact lowers_rejectValue _
      | _ => exact part.bind fun _ _ _ => .pure trivial
    | plain origin value =>
      cases value with
      | truth value => cases value with
        | true => exact .pure trivial
        | false => exact lowers_rejectValue _
      | _ => exact lowers_rejectValue _
    | _ => exact lowers_rejectValue _

theorem lowers_spellRegister (origin : Origin) (name : String) :
    Lowers config nodes anything (config.spellRegister origin name) := by
  unfold Configuration.spellRegister
  split
  · exact .pure trivial
  · exact .report rfl

theorem lowers_registerText (config : Configuration) (node : Node) :
    Lowers config [node] anything (node.registerText config) := by
  unfold Node.registerText
  split
  · exact .pure trivial
  · exact lowers_spellRegister _ _
  · exact (lowers_construct _).bind fun _ _ _ => lowers_rejectUnbound
  · exact (lowers_dump _).bind fun _ _ _ => .report rfl

@[simp]
theorem lowers_register (config : Configuration) (mem : node ∈ stmt.operands) :
    Lowers config stmt.operands anything (stmt.register config node) := by
  refine Lowers.of_mem ?_ mem
  unfold Statement.register
  split
  · exact (lowers_construct _).bind fun _ _ _ => lowers_rejectUnbound
  · split
    · exact lowers_registerText config node
    · exact lowers_reject _ fun _ _ => rfl

theorem lowers_registers (config : Configuration) : Lowers config stmt.operands anything
      (stmt.operands.mapM (stmt.register config)) :=
  .mapM fun _ mem => lowers_register config mem

@[simp]
theorem lowers_immediate (config : Configuration) (mem : node ∈ stmt.operands) :
    Lowers config stmt.operands anything (node.immediateValue config) :=
  (lowers_immediateValue config node).of_mem mem

/-! ### Memory -/

theorem isConstant_toNode (memory : Memory) : memory.toNode.isConstant = false := by
  cases memory <;> rfl

/-- Nothing that is reported of a memory operand is about a variable or an unfinished tree. -/
@[simp]
theorem isOrdinary_memory : Cause.indexedWithOffset.isOrdinary ∧
    Cause.indexedWithOffsetOrScale.isOrdinary ∧ (∀ value, (Cause.offsetTooWide value).isOrdinary) ∧
    ∀ name, (Cause.absoluteUnsupported name).isOrdinary :=
  ⟨rfl, rfl, fun _ => rfl, fun _ => rfl⟩

@[simp]
theorem lowers_memoryReject (memory : Memory) (ordinary : cause.isOrdinary) :
    Lowers config nodes ensured (memory.reject cause : Checked α) :=
  (lowers_construct _).bind fun _ _ _ => .report ordinary

@[simp]
theorem lowers_scaleOf (origin : Origin) (scale : Node) :
    Lowers config nodes anything (Node.scaleOf origin scale) := by
  unfold Node.scaleOf
  split
  · exact .pure trivial
  · exact (lowers_dump _).bind fun _ _ _ => .report rfl

@[simp]
theorem children_direct {origin : Origin} {base offset : Node} :
    (Memory.direct origin base offset).toNode.children = [base, offset] := by
  rw [Memory.toNode, Node.children]

@[simp]
theorem children_indexed {origin : Origin} {base index scale offset : Node} :
    (Memory.indexed origin base index scale offset).toNode.children =
      [base, index, scale, offset] := by
  rw [Memory.toNode, Node.children]

@[simp]
theorem children_absolute {origin : Origin} {place : Node} :
    (Memory.absolute origin place).toNode.children = [place] := by
  rw [Memory.toNode, Node.children]

@[simp]
theorem lowers_memoryRegister (config : Configuration) {memory : Memory}
    (mem : node ∈ memory.toNode.children) :
    Lowers config [memory.toNode] anything (node.registerText config) :=
  (lowers_registerText config node).of_part (isConstant_toNode memory) mem

@[simp]
theorem lowers_memoryImmediate (config : Configuration) {memory : Memory}
    (mem : node ∈ memory.toNode.children) :
    Lowers config [memory.toNode] anything (node.immediateValue config) :=
  (lowers_immediateValue config node).of_part (isConstant_toNode memory) mem

theorem memory_ok {memory : Memory} (ran : stmt.memory node = .ok memory) :
    memory.toNode = node := by
  unfold Statement.memory at ran
  split at ran
  · rename_i found
    cases ran
    cases node <;> simp only [Memory.ofNode?, Option.some.injEq, reduceCtorEq] at found <;>
      subst found <;> rfl
  · simp only [Statement.reject, Checked.bind_ok, report, reduceCtorEq, and_false,
      exists_false] at ran

@[simp]
theorem lowers_memory : Lowers config nodes anything (stmt.memory node) := by
  unfold Statement.memory
  split
  · exact .pure trivial
  · exact lowers_reject _ fun _ _ => rfl

theorem lowers_foundOperand (mem : node ∈ stmt.operands) {memory : Memory}
    (found : stmt.memory node = .ok memory) {outcome : Checked α}
    (lowers : Lowers config [memory.toNode] ensured outcome) :
    Lowers config stmt.operands ensured outcome :=
  lowers.of_mem (memory_ok found ▸ mem)

theorem lowers_memoryOperand (mem : node ∈ stmt.operands) {form : Memory → Checked α}
    (forms : ∀ memory, Lowers config [memory.toNode] ensured (form memory)) :
    Lowers config stmt.operands ensured (stmt.memory node >>= form) :=
  lowers_memory.bind fun memory found _ => lowers_foundOperand mem found (forms memory)

/-- The parts of the memory operand some bytes further on are parts of the memory operand, or a
literal offset. -/
theorem shifted_children {extra : Int} {memory next : Memory}
    (ran : memory.shifted config extra = .ok next) :
    ∀ child ∈ next.toNode.children, child ∈ memory.toNode.children ∨
      ∃ origin value, child = .immediate origin value := by
  cases memory <;>
    simp only [Memory.shifted, Checked.bind_ok, pure, Except.pure, Except.ok.injEq] at ran <;>
    obtain ⟨value, -, rfl⟩ := ran <;>
    simp [Memory.toNode, Node.children]

/-- A part of the memory operand some bytes further on, other than the operand itself and the new
offset, is a part of the memory operand. -/
theorem shifted_anyPart {wanted : Node → Bool} {extra : Int} {memory next : Memory}
    (ran : memory.shifted config extra = .ok next) (notMemory : wanted next.toNode = false)
    (notImmediate : ∀ origin value, wanted (.immediate origin value) = false)
    (any : AnyPart wanted [next.toNode]) : AnyPart wanted [memory.toNode] := by
  obtain ⟨_, single, part, inside, holds⟩ := any
  obtain rfl := mem_singleton.mp single
  rw [Node.flatten_eq, mem_cons, Node.mem_flattenAll] at inside
  rcases inside with rfl | ⟨child, mem, inside⟩
  · exact absurd (holds.symm.trans notMemory) (by simp)
  rcases shifted_children ran child mem with old | ⟨origin, value, rfl⟩
  · have any : AnyPart wanted [child] := ⟨child, mem_cons_self, part, inside, holds⟩
    exact any.of_parts (by simpa using old)
  · obtain rfl := mem_singleton.mp inside
    exact absurd (holds.symm.trans (notImmediate origin value)) (by simp)

theorem shifted_explained {extra : Int} {memory next : Memory} {failure : Failure}
    (ran : memory.shifted config extra = .ok next)
    (explained : failure.Explained config [next.toNode]) :
    failure.Explained config [memory.toNode] where
  unbound isUnbound := by
    obtain ⟨_, single, name, inside⟩ := explained.unbound isUnbound
    obtain rfl := mem_singleton.mp single
    obtain ⟨child, mem, mentioned⟩ :=
      inside.inside (by cases next <;> rfl) (isConstant_toNode next)
    rcases shifted_children ran child mem with old | ⟨origin, value, rfl⟩
    · exact ⟨_, mem_cons_self, name, .part (isConstant_toNode memory) old mentioned⟩
    · obtain ⟨_, impossible, -⟩ := mentioned.inside rfl rfl
      cases impossible
  unfinished isUnfinished :=
    shifted_anyPart ran (by cases next <;> rfl) (fun _ _ => rfl) (explained.unfinished isUnfinished)
  missing isMissing :=
    shifted_anyPart ran (by cases next <;> rfl) (fun _ _ => rfl) (explained.missing isMissing)

theorem lowers_shifted (config : Configuration) (extra : Int) (memory : Memory) :
    Lowers config [memory.toNode] anything (memory.shifted config extra) := by
  cases memory <;> simp [Memory.shifted]

theorem lowers_shiftedOperand (mem : node ∈ stmt.operands) {extra : Int}
    {memory next : Memory} (found : stmt.memory node = .ok memory)
    (shifted : memory.shifted config extra = .ok next) {outcome : Checked α}
    (lowers : Lowers config [next.toNode] ensured outcome) :
    Lowers config stmt.operands ensured outcome :=
  lowers_foundOperand mem found
    ⟨lowers.ensures, fun failure failed => shifted_explained shifted (lowers.explains failure failed)⟩

end Operands

/-! ### Targets -/

def Target.symbols : Target → List String
  | .symbol name _ => [name]
  | .localSymbol _ => []

def Node.isSpelled (symbol : String) : Node → Bool
  | .localLabel mark => decide (mark.symbol.toOption = some symbol)
  | _ => false

/-- Whether what a target writes is accounted for: a label in a table, and a local label by one that
stands in some trees. -/
def Target.Noted (nodes : List Node) (table : SymbolTable) : Target → Prop
  | .symbol name _ => table.Accounts name
  | .localSymbol spelling => AnyPart (Node.isSpelled spelling) nodes

namespace Target.Noted

variable {nodes others : List Node} {table after : SymbolTable} {target : Target}

theorem later (noted : target.Noted nodes table) (uses : table.Uses after) :
    target.Noted nodes after := by
  cases target with
  | symbol => exact uses.accounts noted
  | localSymbol => exact noted

theorem of_nodes (noted : target.Noted nodes table)
    (above : ∀ wanted, AnyPart wanted nodes → AnyPart wanted others) :
    target.Noted others table := by
  cases target with
  | symbol => exact noted
  | localSymbol => exact above _ noted

end Target.Noted

/-- Whether something writes no labels. -/
def Silent {α : Type} (targets : α → List Target) (value : α) : Prop := targets value = []

section Silent

variable {ι : Type} {targets : ι → List Target}

@[simp]
theorem silent_nil : Silent (List.flatMap targets) [] := rfl

@[simp]
theorem silent_cons {first : ι} {rest : List ι} : Silent (List.flatMap targets) (first :: rest) ↔
      targets first = [] ∧ Silent (List.flatMap targets) rest := by
  simp only [Silent, flatMap_cons, append_eq_nil_iff]

theorem silent_single {item : ι} : Silent (List.flatMap targets) [item] ↔ Silent targets item := by
  rw [Silent, flatMap_singleton, Silent]

@[simp]
theorem silent_append {left right : List ι} : Silent (List.flatMap targets) (left ++ right) ↔
      Silent (List.flatMap targets) left ∧ Silent (List.flatMap targets) right := by
  simp only [Silent, flatMap_append, append_eq_nil_iff]

end Silent

/-! ### Steps -/

/-- Whether a step accounts for all labels it writes, except for those that are known already, fails
only with what the given trees explain, and does the same in tables that know the same about
labels. -/
structure Emits {α : Type} (config : Configuration) (nodes : List Node)
    (known : List Target) (targets : α → List Target) (step : Emit α) : Prop where
  accounts : ∀ table value after, step.perform table = (.ok value, after) →
    table.Uses after ∧ ∀ target ∈ targets value, target ∈ known ∨ target.Noted nodes after
  explains : ∀ table failure after, step.perform table = (.error failure, after) →
    failure.Explained config nodes
  respects : ∀ relation, SymbolTable.TracksUses relation → step.Respects relation

namespace Emits

variable {α β : Type} {nodes : List Node} {known : List Target} {targets : α → List Target}
  {nextTargets : β → List Target}

theorem pure {value : α} (noted : targets value ⊆ known) :
    Emits config nodes known targets (Pure.pure value : Emit α) where
  accounts table _ _ ran := by
    cases ran
    exact ⟨.refl _, fun target mem => .inl (noted mem)⟩
  explains _ _ _ impossible := by cases impossible
  respects _ _ := .pure value

theorem blames {step : Emit α} (emits : Emits config nodes known targets step)
    (table : SymbolTable) (failure : Failure) (after : SymbolTable)
    (failed : step.perform table = (.error failure, after)) :
    failure.isUnbound → AnyVariable nodes :=
  (emits.explains table failure after failed).unbound

theorem lift {outcome : Checked α} (lowers : Lowers config nodes (Silent targets) outcome) :
    Emits config nodes known targets (liftM outcome : Emit α) where
  accounts table value after ran := by
    rw [perform_lift, Prod.mk.injEq] at ran
    obtain ⟨passed, rfl⟩ := ran
    rw [lowers.ensures value passed]
    exact ⟨.refl _, by simp⟩
  explains _ failure _ failed := by
    rw [perform_lift, Prod.mk.injEq] at failed
    exact lowers.explains failure failed.1
  respects _ _ := .lift outcome

theorem bind {first : Emit α} {next : α → Emit β} (emits : Emits config nodes known targets first)
    (continues : ∀ value, Emits config nodes (targets value ++ known) nextTargets (next value)) :
    Emits config nodes known nextTargets (first >>= next) where
  accounts table result after ran := by
    obtain ⟨value, middle, passed, last⟩ := perform_bind_ok.mp ran
    obtain ⟨uses, noted⟩ := emits.accounts table value middle passed
    obtain ⟨usesLast, notedLast⟩ := (continues value).accounts middle result after last
    refine ⟨uses.trans usesLast, fun target mem => ?_⟩
    rcases notedLast target mem with before | now
    · rcases mem_append.mp before with early | old
      · exact (noted target early).imp_right fun noted => noted.later usesLast
      · exact .inl old
    · exact .inr now
  explains table failure after failed := by
    rcases perform_bind_error.mp failed with early | ⟨value, middle, _, late⟩
    · exact emits.explains table failure after early
    · exact (continues value).explains middle failure after late
  respects relation tracks := (emits.respects relation tracks).bind fun value =>
    (continues value).respects relation tracks

theorem check {ensured : α → Prop} {outcome : Checked α} {next : α → Emit β}
    (lowers : Lowers config nodes ensured outcome)
    (continues : ∀ value, outcome = .ok value → ensured value →
      Emits config nodes known nextTargets (next value)) :
    Emits config nodes known nextTargets (liftM outcome >>= next) := by
  cases outcome with
  | ok value => exact continues value rfl (lowers.ensures value rfl)
  | error problem =>
    refine ⟨?_, ?_, fun _ _ => .lift (.error problem)⟩
    · intro table result after ran
      cases ran
    · intro table failure after failed
      cases failed
      exact lowers.explains _ rfl

theorem of_nodes {others : List Node} {step : Emit α}
    (emits : Emits config nodes known targets step)
    (above : ∀ wanted, AnyPart wanted nodes → AnyPart wanted others)
    (explained : ∀ failure : Failure, failure.Explained config nodes →
      failure.Explained config others) : Emits config others known targets step where
  accounts table value after ran := by
    obtain ⟨uses, noted⟩ := emits.accounts table value after ran
    exact ⟨uses, fun target mem => (noted target mem).imp_right (·.of_nodes above)⟩
  explains table failure after failed :=
    explained failure (emits.explains table failure after failed)
  respects := emits.respects

theorem of_subset {others : List Node} {step : Emit α}
    (emits : Emits config nodes known targets step) (subset : nodes ⊆ others) :
    Emits config others known targets step :=
  emits.of_nodes (fun _ any => any.of_subset subset) fun _ explained => explained.of_subset subset

theorem of_parts {step : Emit α} (emits : Emits config nodes known targets step)
    (notConstant : node.isConstant = false) (parts : nodes ⊆ node.children) :
    Emits config [node] known targets step :=
  emits.of_nodes (fun _ any => any.of_parts parts) fun _ explained =>
    explained.of_parts notConstant parts

end Emits

theorem lowers_symbol (mark : LocalLabel) :
    Lowers config nodes anything mark.symbol := by
  have clean : Lowers config nodes anything mark.cleanName := by
    unfold LocalLabel.cleanName
    split
    · split <;> exact .pure trivial
    · exact .refuse _
  exact clean.bind fun _ _ _ => .pure trivial

theorem emits_localSymbol {α : Type} {known : List Target}
    {targets : α → List Target} {mark : LocalLabel} {build : String → α}
    (mem : node ∈ nodes) (stands : Node.localLabel mark ∈ node.flatten)
    (writes : ∀ symbol, targets (build symbol) ⊆ [.localSymbol symbol]) :
    Emits config nodes known targets (do
      let symbol ← mark.symbol
      return build symbol) := by
  refine .check (lowers_symbol mark) fun symbol spelled _ =>
    ⟨?_, fun _ _ _ impossible => (by cases impossible), fun _ _ => .pure _⟩
  intro table value after ran
  cases ran
  refine ⟨.refl _, fun target written => .inr ?_⟩
  obtain rfl := mem_singleton.mp (writes symbol written)
  exact ⟨node, mem, _, stands, by simp [Node.isSpelled, spelled, Except.toOption]⟩

theorem respects_noteLabelUse {relation : SymbolTable → SymbolTable → Prop}
    (tracks : SymbolTable.TracksUses relation) {mark : Label} :
    (noteLabelUse mark).Respects relation :=
  .modify fun first second related => tracks.noteUse first second mark.name related

theorem emits_target? {known : List Target} (mem : node ∈ nodes) :
    Emits config nodes known Option.toList node.target? := by
  unfold Node.target?
  split
  · refine ⟨?_, fun _ _ _ impossible => (by cases impossible),
      fun _ tracks => (respects_noteLabelUse tracks).bind fun _ => .pure _⟩
    intro table value after ran
    simp only [noteLabelUse, perform_bind_ok, perform_modify, perform_pure,
      Prod.mk.injEq, Except.ok.injEq, true_and] at ran
    obtain ⟨_, _, rfl, rfl, rfl⟩ := ran
    refine ⟨SymbolTable.uses_noteUse, fun target written => .inr ?_⟩
    obtain rfl := mem_singleton.mp written
    exact SymbolTable.accounts_noteUse
  · exact emits_localSymbol mem (by simp [Node.flatten]) fun _ => List.Subset.refl _
  · exact .pure (nil_subset _)

theorem emits_target {stmt : Statement} {known : List Target}
    (mem : node ∈ nodes) : Emits config nodes known ([·]) (stmt.target node) := by
  refine (emits_target? mem).bind fun target => ?_
  cases target with
  | some target => exact .pure (subset_append_left _ _)
  | none => exact .lift (lowers_reject _ fun _ _ => rfl)

end MacroAssembler
