/-
This module follows labels through macro expansion.

Expansion defines a label where a template stands as a statement, and puts the label in its place.
So a label that becomes internal stands as a statement in the expanded unit, and a label that was
internal stays so. The labels that an expanded unit writes are those it was given, in its statements
and in the operands and macros that names are bound to, and the ones that were defined on the way.
-/
import MacroAssembler.Proofs.Bindings
import MacroAssembler.Proofs.WrittenLabels

namespace MacroAssembler

open List Node

/-! ### Labels that become internal -/

/-- Whether the labels that are internal in one table are so in another, and any further one is
defined by one of some statements. -/
structure SymbolTable.Defines (before after : SymbolTable) (results : List Node) : Prop where
  kept : ∀ name, before.IsInternal name → after.IsInternal name
  new : ∀ name, after.IsInternal name →
    before.IsInternal name ∨ ∃ result ∈ results, result.DefinesLabel name

namespace SymbolTable.Defines

variable {before middle after : SymbolTable} {results others : List Node}

theorem none (same : ∀ name, after.IsInternal name ↔ before.IsInternal name) :
    before.Defines after results :=
  ⟨fun name => (same name).mpr, fun name internal => .inl ((same name).mp internal)⟩

theorem append (first : before.Defines middle results) (second : middle.Defines after others) :
    before.Defines after (results ++ others) where
  kept name internal := second.kept name (first.kept name internal)
  new name internal := by
    rcases second.new name internal with earlier | ⟨result, mem, defines⟩
    · rcases first.new name earlier with old | ⟨result, mem, defines⟩
      · exact .inl old
      · exact .inr ⟨result, mem_append_left _ mem, defines⟩
    · exact .inr ⟨result, mem_append_right _ mem, defines⟩

end SymbolTable.Defines

variable {task : Task} {name : String}

/-- The labels that become internal in a run stand in its results. -/
theorem Expands.defines {before after : Expander} {results : List Node} {trace : Trace}
    (expands : Expands before task results trace after) :
    before.table.Defines after.table results := by
  induction expands with
  | nothing | literalLabel | localLabel | definition | skip | trap => exact .none fun _ => Iff.rfl
  | statements _ _ first rest => exact first.append rest
  | sequence _ _ ih => exact ih
  | call _ ih => exact ih
  | macroInstruction _ ih => exact ih
  | instruction _ _ _ uses => exact .none fun _ => uses.table.isInternal
  | operand _ uses => exact .none fun _ => uses.table.isInternal
  | constant origin binding uses =>
    rw [Expander.withBinding_table]
    exact .none fun _ => uses.table.isInternal
  | templateLabel state mark name =>
    refine ⟨fun other internal => SymbolTable.isInternal_defineLabel _ |>.mpr (.inl internal), ?_⟩
    intro other internal
    refine (SymbolTable.isInternal_defineLabel _).mp internal |>.imp id fun same => ?_
    exact ⟨_, mem_cons_self, .label (same ▸ SymbolTable.defineLabel_name _)⟩
  | conditional origin predicate _ _ first second =>
    refine ⟨(first.append second).kept, fun name internal => ?_⟩
    refine (first.append second).new name internal |>.imp id fun ⟨result, mem, defines⟩ => ?_
    refine ⟨_, mem_cons_self, ?_⟩
    rcases mem_append.mp mem with inside | inside
    · exact .thenCase (.item inside defines)
    · exact .elseCase (.item inside defines)
  | invocation _ _ opens _ ih =>
    have opened : SymbolTable.Defines _ _ [] := .none fun _ => opens.mints.isInternal
    exact opened.append ih

/-! ### Labels that stay -/

def Task.DefinesLabel (name : String) : Task → Prop
  | .statement node => node.DefinesLabel name
  | .statements items => ∃ item ∈ items, item.DefinesLabel name
  | .invocation _ => False

/-- Whether a label stands as a statement in the body of a macro that a run invoked. -/
def Trace.DefinesLabel (name : String) (trace : Trace) : Prop :=
  ∃ opening ∈ trace.openings, opening.definition.body.DefinesLabel name

theorem Trace.definesLabel_append {first second : Trace} : (first.append second).DefinesLabel name ↔
      first.DefinesLabel name ∨ second.DefinesLabel name := by
  simp only [DefinesLabel, append, mem_append, or_and_right, exists_or]

theorem Trace.not_definesLabel_empty : ¬ Trace.DefinesLabel name {} := by
  rintro ⟨_, mem, _⟩
  cases mem

/-- A label that stands in a task, or in the body of a macro that the run invoked, stands in the
results, unless it is a template. -/
theorem Expands.stands {before after : Expander} {results : List Node} {trace : Trace}
    (expands : Expands before task results trace after)
    (literal : SymbolTable.isTemplate name = false)
    (stands : task.DefinesLabel name ∨ trace.DefinesLabel name) :
    ∃ result ∈ results, result.DefinesLabel name := by
  induction expands with
  | nothing =>
    rcases stands with ⟨_, mem, _⟩ | invoked
    · cases mem
    · exact absurd invoked Trace.not_definesLabel_empty
  | statements _ _ first rest =>
    simp only [mem_append, or_and_right, exists_or]
    rw [Trace.definesLabel_append] at stands
    rcases stands with ⟨item, mem, inside⟩ | invoked | invoked
    · rcases mem_cons.mp mem with rfl | mem
      · exact .inl (first (.inl inside))
      · exact .inr (rest (.inl ⟨item, mem, inside⟩))
    · exact .inl (first (.inr invoked))
    · exact .inr (rest (.inr invoked))
  | sequence origin _ ih =>
    refine ih (stands.imp ?_ id)
    rintro ⟨⟩
    exact ⟨_, ‹_›, ‹_›⟩
  | call _ ih | macroInstruction _ ih => exact ih (stands.imp nofun id)
  | instruction =>
    exact stands.elim nofun fun invoked => absurd invoked Trace.not_definesLabel_empty
  | literalLabel state mark =>
    refine stands.elim (fun inside => ⟨_, mem_cons_self, inside⟩) fun invoked => ?_
    exact absurd invoked Trace.not_definesLabel_empty
  | templateLabel state mark text template =>
    refine stands.elim (fun inside => ?_) fun invoked => absurd invoked Trace.not_definesLabel_empty
    cases inside with
    | label same =>
      rw [same, literal] at template
      cases template
  | localLabel | definition | skip | trap | constant =>
    exact stands.elim nofun fun invoked => absurd invoked Trace.not_definesLabel_empty
  | conditional origin predicate _ _ first second =>
    refine ⟨_, mem_cons_self, ?_⟩
    rw [Trace.definesLabel_append] at stands
    rename_i thenItems elseItems _ _ _ _
    have inCase : (∃ result ∈ thenItems, DefinesLabel name result) ∨
        ∃ result ∈ elseItems, DefinesLabel name result := by
      rcases stands with inside | invoked | invoked
      · cases inside with
        | thenCase inside => exact .inl (first (.inl inside))
        | elseCase inside => exact .inr (second (.inl inside))
      · exact .inl (first (.inr invoked))
      · exact .inr (second (.inr invoked))
    rcases inCase with ⟨result, mem, inside⟩ | ⟨result, mem, inside⟩
    · exact .thenCase (.item mem inside)
    · exact .elseCase (.item mem inside)
  | operand isOperand =>
    refine stands.elim (fun inside => ?_) fun invoked => absurd invoked Trace.not_definesLabel_empty
    cases inside <;> cases isOperand
  | invocation callee arity opens expands ih =>
    rcases stands with impossible | ⟨opening, mem, inside⟩
    · cases impossible
    · rcases mem_cons.mp mem with rfl | mem
      · exact ih (.inl inside)
      · exact ih (.inr ⟨opening, mem, inside⟩)

/-! ### Labels that are written -/

section Written

variable {allowed : String → Prop}

variable {renamed? : Name → Option LocalLabel} {meaning? : String → Option Bound} {tree : Node}

theorem Resolves.writesOnly
    (bound : ∀ name operand, meaning? name = some (.operand operand) → operand.WritesOnly allowed)
    (node : Node) : ∀ result, Resolves meaning? renamed? node result → node.WritesOnly allowed →
      result.WritesOnly allowed := by
  induction node with
  | step node ih =>
    intro result resolves only
    cases resolves with
    | bound meaning => exact bound _ _ meaning
    | free => exact only
    | localReference | labelReference =>
      exact fun name writes => absurd writes (not_writes_reference rfl)
    | parts _ notReference _ built resolved =>
      obtain ⟨-, -, same⟩ := rebuild_ok built resolved.length_eq.symm
      by_cases isLabel : node.isLabel
      · cases node with
        | label | localLabel =>
          cases built
          exact only
        | _ => cases isLabel
      · rw [Bool.not_eq_true] at isLabel
        rw [writesOnly_iff (same.label.trans isLabel) (same.reference.trans notReference)]
        intro part mem
        obtain ⟨child, childMem, resolves⟩ := exists_left_of_forall₂ resolved part mem
        exact ih child childMem part resolves (only.below notReference childMem)

theorem writesOnly_of_forall₂
    (bound : ∀ name operand, meaning? name = some (.operand operand) → operand.WritesOnly allowed)
    {operands results : List Node}
    (resolved : List.Forall₂ (Resolves meaning? renamed?) operands results)
    (only : ∀ operand ∈ operands, operand.WritesOnly allowed) :
    ∀ result ∈ results, result.WritesOnly allowed := by
  intro result mem
  obtain ⟨operand, operandMem, resolves⟩ := exists_left_of_forall₂ resolved result mem
  exact resolves.writesOnly bound operand result (only operand operandMem)

/-- Whether everything that a state of expansion knows writes only what is allowed. -/
abbrev Expander.WritesOnly (allowed : String → Prop) : Expander → Prop :=
  Expander.Holds (Node.WritesOnly allowed) fun definition _ => definition.body.WritesOnly allowed

def Task.WritesOnly (allowed : String → Prop) : Task → Prop
  | .statement node => node.WritesOnly allowed
  | .statements items => ∀ item ∈ items, item.WritesOnly allowed
  | .invocation made => ∀ operand ∈ made.operands, operand.WritesOnly allowed

variable {state : Expander}

theorem Expander.WritesOnly.bound (holds : state.WritesOnly allowed) (name : String)
    (operand : Node) (meaning : state.meaning? name = some (.operand operand)) :
    operand.WritesOnly allowed := by
  cases holds.meaning? meaning with
  | operand only => exact only

theorem Expander.WritesOnly.evaluates (holds : state.WritesOnly allowed) {operand : Node}
    {bound : Bound} (evaluates : state.Evaluates operand bound)
    (only : operand.WritesOnly allowed) : bound.Holds (Node.WritesOnly allowed) fun definition _ =>
      definition.body.WritesOnly allowed := by
  cases evaluates with
  | closure => exact .closure (writesOnly_definition.mp only).2 holds.frame
  | bound meaning => exact holds.meaning? meaning
  | operand resolves => exact .operand (resolves.writesOnly holds.bound operand _ only)

/-- A run writes only what is allowed if the task and the state do, and if it is allowed to write
the labels that are internal at the end. -/
theorem Expands.writesOnly {before after : Expander} {results : List Node} {trace : Trace}
    (expands : Expands before task results trace after) (holds : before.WritesOnly allowed)
    (only : task.WritesOnly allowed)
    (internal : ∀ name, after.table.IsInternal name → allowed name) :
    after.WritesOnly allowed ∧ ∀ result ∈ results, result.WritesOnly allowed := by
  induction expands with
  | nothing | localLabel | definition | skip | trap => exact ⟨holds, by simp⟩
  | statements first rest firstIh restIh =>
    obtain ⟨middle, firstOnly⟩ := firstIh holds (only _ mem_cons_self)
      fun name known => internal name (rest.defines.kept name known)
    obtain ⟨after, restOnly⟩ := restIh middle
      (fun item mem => only item (mem_cons_of_mem _ mem)) internal
    refine ⟨after, fun result mem => ?_⟩
    exact (mem_append.mp mem).elim (firstOnly result) (restOnly result)
  | sequence _ _ ih =>
    exact ih holds (writesOnly_sequence.mp only) internal
  | call _ ih =>
    exact ih holds (writesOnly_call.mp only) internal
  | macroInstruction _ ih =>
    exact ih holds (writesOnly_instruction.mp only) internal
  | instruction origin opcode comment uses resolves =>
    refine ⟨holds.ofRest uses.rest, fun result mem => ?_⟩
    obtain rfl := mem_singleton.mp mem
    exact writesOnly_instruction.mpr
      (writesOnly_of_forall₂ holds.bound resolves (writesOnly_instruction.mp only))
  | literalLabel state mark literal =>
    refine ⟨holds, fun result mem => ?_⟩
    obtain rfl := mem_singleton.mp mem
    exact only
  | templateLabel state mark name =>
    refine ⟨holds.ofRest rfl, fun result mem => ?_⟩
    obtain rfl := mem_singleton.mp mem
    rw [writesOnly_label, SymbolTable.defineLabel_name]
    exact internal name ((SymbolTable.isInternal_defineLabel _).mpr (.inr rfl))
  | constant origin binding uses resolves =>
    have value := resolves.writesOnly holds.bound _ _ (writesOnly_constant.mp only)
    exact ⟨(holds.ofRest uses.rest).withBinding (.operand value), by simpa using value⟩
  | conditional origin predicate first second firstIh secondHypothesis =>
    obtain ⟨predicateOnly, thenOnly, elseOnly⟩ := writesOnly_conditional.mp only
    obtain ⟨middle, firstOnly⟩ := firstIh holds thenOnly
      fun name known => internal name (second.defines.kept name known)
    obtain ⟨after, secondOnly⟩ := secondHypothesis middle elseOnly internal
    exact ⟨after, by simpa using ⟨predicateOnly, firstOnly, secondOnly⟩⟩
  | operand isOperand uses resolves =>
    refine ⟨holds.ofRest uses.rest, fun result mem => ?_⟩
    obtain rfl := mem_singleton.mp mem
    exact resolves.writesOnly holds.bound _ _ only
  | invocation callee arity opens expands ih =>
    have entered := holds.entered callee opens fun operand mem _ evaluates =>
      holds.evaluates evaluates (only operand mem)
    cases holds.callee? callee with
    | closure body =>
      obtain ⟨inside, results⟩ := ih entered body internal
      exact ⟨inside.left holds, results⟩

/-! ### Units -/

variable {before after : Expander} {parts : List (Node ⊕ Node)} {items results : List Node}
  {trace : Trace}

theorem Expander.Declares.isInternal (declares : before.Declares items parts after) :
    ∀ name, after.table.IsInternal name ↔ before.table.IsInternal name := by
  induction declares with
  | nothing => exact fun _ => Iff.rfl
  | constant _ _ _ uses _ _ ih =>
    exact fun name => (ih name).trans uses.table.isInternal
  | other _ _ ih => exact ih

theorem Expander.ExpandsUnit.defines (expands : before.ExpandsUnit parts results trace after) :
    before.table.Defines after.table results := by
  induction expands with
  | nothing => exact .none fun _ => Iff.rfl
  | resolved declaration _ ih =>
    refine ⟨ih.kept, fun name internal => ?_⟩
    exact (ih.new name internal).imp id fun ⟨result, mem, defines⟩ =>
      ⟨result, mem_cons_of_mem _ mem, defines⟩
  | statement first _ ih => exact first.defines.append ih

theorem Expander.ExpandsTree.defines (expands : before.ExpandsTree tree results trace after) :
    before.table.Defines after.table results := by
  obtain ⟨declares, expands⟩ := expands
  have declared : SymbolTable.Defines _ _ [] := .none declares.isInternal
  exact declared.append expands.defines

theorem Expander.Declares.stands (declares : before.Declares items parts after) {item : Node}
    (mem : item ∈ items) (stands : item.DefinesLabel name) : .inr item ∈ parts := by
  induction declares with
  | nothing => cases mem
  | constant _ _ _ _ _ _ ih =>
    rcases mem_cons.mp mem with rfl | mem
    · cases stands
    · exact mem_cons_of_mem _ (ih mem)
  | other _ _ ih =>
    rcases mem_cons.mp mem with rfl | mem
    · exact mem_cons_self
    · exact mem_cons_of_mem _ (ih mem)

theorem Expander.ExpandsUnit.stands (expands : before.ExpandsUnit parts results trace after)
    (literal : SymbolTable.isTemplate name = false)
    (stands : (∃ item, .inr item ∈ parts ∧ item.DefinesLabel name) ∨ trace.DefinesLabel name) :
    ∃ result ∈ results, result.DefinesLabel name := by
  induction expands with
  | nothing =>
    rcases stands with ⟨_, mem, _⟩ | invoked
    · cases mem
    · exact absurd invoked Trace.not_definesLabel_empty
  | resolved declaration _ ih =>
    have below := ih <| stands.imp_left fun ⟨item, mem, inside⟩ =>
      ⟨item, by simpa using mem, inside⟩
    exact below.imp fun result => And.imp_left (mem_cons_of_mem _)
  | statement first _ ih =>
    simp only [mem_append, or_and_right, exists_or]
    rw [Trace.definesLabel_append] at stands
    rcases stands with ⟨item, mem, inside⟩ | invoked | invoked
    · rcases mem_cons.mp mem with same | mem
      · cases same
        exact .inl (first.stands literal (.inl inside))
      · exact .inr (ih (.inl ⟨item, mem, inside⟩))
    · exact .inl (first.stands literal (.inr invoked))
    · exact .inr (ih (.inr invoked))

theorem Expander.ExpandsTree.stands (expands : before.ExpandsTree tree results trace after)
    (literal : SymbolTable.isTemplate name = false)
    (stands : tree.DefinesLabel name ∨ trace.DefinesLabel name) :
    ∃ result ∈ results, result.DefinesLabel name := by
  obtain ⟨declares, expands⟩ := expands
  refine expands.stands literal (stands.imp_left fun inside => ?_)
  obtain ⟨stmt, mem, inside⟩ := inside.statement
  exact ⟨stmt, declares.stands mem inside, inside⟩

theorem Expander.Declares.writesOnly (declares : before.Declares items parts after)
    (holds : before.WritesOnly allowed) (only : ∀ item ∈ items, item.WritesOnly allowed) :
    after.WritesOnly allowed ∧
      ∀ part ∈ parts, Sum.elim (Node.WritesOnly allowed) (Node.WritesOnly allowed) part := by
  induction declares with
  | nothing => exact ⟨holds, by simp⟩
  | constant origin binding notices uses resolves _ ih =>
    rw [forall_mem_cons] at only
    have value := resolves.writesOnly holds.bound _ _ (writesOnly_constant.mp only.1)
    obtain ⟨after, others⟩ :=
      ih ((holds.ofRest uses.rest).withConstant value notices) only.2
    exact ⟨after, forall_mem_cons.mpr ⟨writesOnly_constant.mpr value, others⟩⟩
  | other _ _ ih =>
    rw [forall_mem_cons] at only
    obtain ⟨after, others⟩ := ih holds only.2
    exact ⟨after, forall_mem_cons.mpr ⟨only.1, others⟩⟩

theorem Expander.ExpandsUnit.writesOnly (expands : before.ExpandsUnit parts results trace after)
    (holds : before.WritesOnly allowed)
    (only : ∀ part ∈ parts, Sum.elim (Node.WritesOnly allowed) (Node.WritesOnly allowed) part)
    (internal : ∀ name, after.table.IsInternal name → allowed name) :
    ∀ result ∈ results, result.WritesOnly allowed := by
  induction expands with
  | nothing => simp
  | resolved declaration _ ih =>
    rw [forall_mem_cons] at only
    exact forall_mem_cons.mpr ⟨only.1, ih holds only.2 internal⟩
  | statement first rest ih =>
    rw [forall_mem_cons] at only
    obtain ⟨middle, firstOnly⟩ := first.writesOnly holds only.1
      fun name known => internal name (rest.defines.kept name known)
    exact forall_mem_append.mpr ⟨firstOnly, ih middle only.2 internal⟩

theorem Expander.ExpandsTree.writesOnly {table : SymbolTable}
    (expands : Expander.ExpandsTree { table := table } tree results trace after)
    (only : tree.WritesOnly allowed)
    (internal : ∀ name, after.table.IsInternal name → allowed name) :
    ∀ result ∈ results, result.WritesOnly allowed := by
  have statements : ∀ stmt ∈ tree.statements, stmt.WritesOnly allowed :=
    fun stmt mem name writes =>
      only name ((exists_statement_writes tree).mp ⟨stmt, mem, writes⟩)
  have fresh : Expander.WritesOnly allowed (Expander.readied { table := table } tree) :=
    holds_readied fun _ _ _ _ mem => (writesOnly_definition.mp (statements _ mem)).2
  obtain ⟨declares, expands⟩ := expands
  obtain ⟨declared, parts⟩ := declares.writesOnly fresh statements
  exact expands.writesOnly declared parts internal

end Written

end MacroAssembler
