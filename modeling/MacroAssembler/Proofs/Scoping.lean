/-
This module proves that expanding a closed unit leaves no variable behind.

A unit is closed when every variable in it is in scope: it names a parameter of a macro around it, a
constant that is declared earlier in a macro around it, a constant of the unit, or, where it is
passed as an operand, a macro of the unit. While a closed unit is expanded, every operand that is
bound has no variable left in it, and every macro that is bound is closed with respect to the names
that its frame binds. So each variable that is met means something, and its meaning has no variable
in it.
-/
import MacroAssembler.Emission.Backend
import MacroAssembler.Proofs.DeclaredNames
import MacroAssembler.Proofs.EmittedLines

namespace MacroAssembler

open Expander List

section

variable {node tree : Node} {names : List String}

/-! ### Variables of operands -/

mutual

/-- The names of the variables that are replaced when an operand is resolved. A macro inside an
operand is never resolved, so its variables do not count. -/
def Node.readNames : Node → List String
  | .var binding => [binding.name]
  | .address _ base offset => base.readNames ++ offset.readNames
  | .indexed _ base index scale offset =>
    base.readNames ++ index.readNames ++ scale.readNames ++ offset.readNames
  | .absolute _ place => place.readNames
  | .binary _ _ left right => left.readNames ++ right.readNames
  | .unary _ _ child => child.readNames
  | .instruction _ _ operands _ | .call _ _ operands _ _ => Node.readNamesOf operands
  | .sequence _ items => Node.readNamesOf items
  | .conditional _ predicate thenCase elseCase =>
    predicate.readNames ++ thenCase.readNames ++ elseCase.readNames
  | .constant _ _ value => value.readNames
  | _ => []

def Node.readNamesOf : List Node → List String
  | [] => []
  | node :: rest => node.readNames ++ Node.readNamesOf rest

end

theorem Node.readNames_subset_readNamesOf {nodes : List Node} (mem : node ∈ nodes) :
    node.readNames ⊆ readNamesOf nodes := by
  induction nodes with
  | nil => cases mem
  | cons first rest ih =>
    rw [readNamesOf]
    rcases mem_cons.mp mem with rfl | mem
    · exact subset_append_left _ _
    · exact List.Subset.trans (ih mem) (subset_append_right _ _)

theorem Node.readNames_subset {child : Node} (notConstant : node.isConstant = false)
    (notDefinition : node.isDefinition = false) (mem : child ∈ node.children) :
    child.readNames ⊆ node.readNames := by
  cases node with
  | constant => cases notConstant
  | definition => cases notDefinition
  | instruction | call | sequence => exact readNames_subset_readNamesOf mem
  | address | indexed | absolute | binary | unary | conditional =>
    intro name reads
    simp only [children, mem_cons, not_mem_nil, or_false] at mem
    simp only [readNames, mem_append]
    rcases mem with rfl | rfl | rfl | rfl <;> simp [reads]
  | labelReference | localReference =>
    obtain rfl := mem_singleton.mp mem
    exact nil_subset _
  | _ => cases mem

/-- Whether no variable occurs in a tree, other than as the name that a constant declares. -/
def Node.IsResolved (node : Node) : Prop := ∀ name, ¬ node.Mentions name

namespace Node

theorem isResolved_of_children (notVariable : node.isVariable = false)
    (resolved : ∀ child ∈ node.children, child.IsResolved) : node.IsResolved := by
  intro name mentioned
  cases mentioned with
  | var => cases notVariable
  | value inside => exact resolved _ (by simp [children]) name inside
  | part _ mem inside => exact resolved _ mem name inside

theorem isResolved_constant {origin : Origin} {binding : Variable} {value : Node}
    (resolved : value.IsResolved) : (Node.constant origin binding value).IsResolved := by
  intro name mentioned
  cases mentioned with
  | value inside => exact resolved name inside
  | part notConstant => cases notConstant

theorem isResolved_leaf (notVariable : node.isVariable = false)
    (leaf : node.children = []) : node.IsResolved :=
  isResolved_of_children notVariable (by simp [leaf])

theorem isResolved_localReference (origin : Origin) (mark : LocalLabel) :
    (Node.localReference origin mark).IsResolved :=
  isResolved_of_children rfl (by simpa [children] using isResolved_leaf rfl rfl)

theorem isResolved_labelReference (origin : Origin) (mark : Label) (offset : Int) :
    (Node.labelReference origin mark offset).IsResolved :=
  isResolved_of_children rfl (by simpa [children] using isResolved_leaf rfl rfl)

end Node

theorem Resolves.isResolved {meaning? : String → Option Bound} {renamed? : Name → Option LocalLabel}
    (bound : ∀ name operand, meaning? name = some (.operand operand) → operand.IsResolved)
    (node : Node) : ∀ result, Resolves meaning? renamed? node result →
      (∀ name ∈ node.readNames, (meaning? name).isSome) → result.IsResolved := by
  induction node with
  | step node ih =>
    intro result resolves known
    cases resolves with
    | bound meaning => exact bound _ _ meaning
    | free meaning =>
      have impossible := known _ (mem_singleton_self _)
      rw [meaning] at impossible
      cases impossible
    | localReference => exact Node.isResolved_localReference _ _
    | labelReference => exact Node.isResolved_labelReference _ _ _
    | parts notVariable _ notDefinition built resolved =>
      cases isConstant : node.isConstant with
      | true =>
        cases node with
        | constant origin binding value =>
          obtain ⟨_, _, -, valueResolved, same⟩ := forall₂_cons_left_iff.mp resolved
          obtain ⟨_, _, resolves, nothingLeft, rfl⟩ := forall₂_cons_left_iff.mp valueResolved
          obtain rfl := forall₂_nil_left_iff.mp nothingLeft
          rw [same] at built
          obtain ⟨_, _, rfl⟩ := Node.makeConstant_ok.mp built
          refine Node.isResolved_constant ?_
          exact ih value (by simp [Node.children]) _ resolves known
        | _ => cases isConstant
      | false =>
        obtain ⟨-, -, same⟩ := Node.rebuild_ok built resolved.length_eq.symm
        refine Node.isResolved_of_children (same.isVariable.trans notVariable) ?_
        intro part mem
        obtain ⟨child, childMem, resolves⟩ := exists_left_of_forall₂ resolved part mem
        exact ih child childMem part resolves fun name reads =>
          known name (Node.readNames_subset isConstant notDefinition childMem reads)

/-! ### Closed trees -/

def parameterNames (parameters : List Node) : List String := parameters.filterMap boundName?

mutual

/-- Whether the variables of a statement are among the names in scope. A folded tree has no
conditionals. -/
def Node.isClosedIn : List String → Node → Bool
  | names, .sequence _ items => Node.areClosedIn names items
  | names, .call _ _ operands _ _ => Node.areClosedOperands names operands
  | names, .instruction _ _ operands _ => Node.areClosedOperands names operands
  | names, .definition _ _ parameters body => body.isClosedIn (names ++ parameterNames parameters)
  | _, .conditional .. => false
  | names, node => decide (node.readNames ⊆ names)

/-- Whether the variables of statements are in scope, of which each may use the constants that those
before it declare. -/
def Node.areClosedIn : List String → List Node → Bool
  | _, [] => true
  | names, item :: rest =>
    item.isClosedIn names && Node.areClosedIn (names ++ item.declaredNames) rest

/-- Whether the variables of an operand, which may be a macro, are in scope. -/
def Node.isClosedOperand : List String → Node → Bool
  | names, .definition _ _ parameters body => body.isClosedIn (names ++ parameterNames parameters)
  | names, node => decide (node.readNames ⊆ names)

def Node.areClosedOperands : List String → List Node → Bool
  | _, [] => true
  | names, operand :: rest => operand.isClosedOperand names && Node.areClosedOperands names rest

end

theorem Node.isClosedIn_of_isOperand
    (isOperand : node.isOperand) : node.isClosedIn names ↔ node.readNames ⊆ names := by
  cases node <;> first | exact decide_eq_true_iff | cases isOperand

theorem Node.isClosedIn_constant {origin : Origin} {binding : Variable}
    {value : Node} :
    (Node.constant origin binding value).isClosedIn names ↔ value.readNames ⊆ names :=
  decide_eq_true_iff

theorem Node.isClosedOperand_iff
    (notDefinition : node.isDefinition = false) :
    node.isClosedOperand names ↔ node.readNames ⊆ names := by
  cases node with
  | definition => cases notDefinition
  | _ => simp only [isClosedOperand, decide_eq_true_iff]

theorem Node.areClosedOperands_iff {operands : List Node} :
    areClosedOperands names operands ↔ ∀ operand ∈ operands, operand.isClosedOperand names := by
  induction operands with
  | nil => simp [areClosedOperands]
  | cons operand rest ih =>
    rw [areClosedOperands, Bool.and_eq_true, ih, forall_mem_cons]

/-! ### What a state knows -/

def Frame.Knows (unit : List String) (frame : Frame) (names : List String) : Prop :=
  ∀ name ∈ names, name ∈ unit ∨ (binding? frame name).isSome

/-- Whether a macro is closed in the names that its frame knows. -/
def Definition.ClosedIn (unit : List String) (definition : Definition) (frame : Frame) : Prop :=
  ∃ names, frame.Knows unit names ∧
    definition.body.isClosedIn (names ++ parameterNames definition.parameters)

def Expander.Defines (state : Expander) (name : String) : Prop :=
  (Association.get? state.constants name).isSome ∨ (state.findMacro? (.text name)).isSome

structure Expander.IsClosed (unit : List String) (state : Expander) : Prop where
  holds : state.Holds Node.IsResolved (Definition.ClosedIn unit)
  defines : ∀ name ∈ unit, state.Defines name

namespace Expander

variable {unit names : List String} {state before opened after : Expander} {name : String}
  {operand result : Node}

theorem Defines.isSome_meaning? (defines : state.Defines name) : (state.meaning? name).isSome := by
  unfold meaning?
  split
  · rfl
  · split
    · rfl
    · rename_i missing
      rw [Defines, missing] at defines
      rw [Option.isSome_map]
      exact defines.resolve_left nofun

theorem isSome_meaning?_of_frame (known : (Frame.binding? state.frame name).isSome) :
    (state.meaning? name).isSome := by
  have bound : (state.binding? name).isSome := by
    unfold binding? Frame.binding?
    rw [List.findSome?_append, Option.isSome_or]
    exact Bool.or_eq_true_iff.mpr (.inl known)
  obtain ⟨found, same⟩ := Option.isSome_iff_exists.mp bound
  simp [meaning?, same]

theorem isResolved_of_meaning?
    (holds : state.Holds Node.IsResolved (Definition.ClosedIn unit)) (name : String)
    (operand : Node) (meaning : state.meaning? name = some (.operand operand)) :
    operand.IsResolved := by
  cases holds.meaning? meaning with
  | operand resolved => exact resolved

namespace IsClosed

theorem isSome_meaning? (stateClosed : state.IsClosed unit)
    (knows : state.frame.Knows unit names) (mem : name ∈ names) : (state.meaning? name).isSome :=
  (knows name mem).elim (fun ofUnit => (stateClosed.defines name ofUnit).isSome_meaning?)
    isSome_meaning?_of_frame

theorem resolves (stateClosed : state.IsClosed unit) (knows : state.frame.Knows unit names)
    (closed : operand.readNames ⊆ names)
    (resolves : Resolves state.meaning? state.renamed? operand result) : result.IsResolved :=
  resolves.isResolved (isResolved_of_meaning? stateClosed.holds) operand result fun _ reads =>
    stateClosed.isSome_meaning? knows (closed reads)

theorem resolvesOperand (stateClosed : state.IsClosed unit)
    (knows : state.frame.Knows unit names) (closed : operand.isClosedOperand names)
    (resolves : Resolves state.meaning? state.renamed? operand result) : result.IsResolved := by
  cases operand with
  | definition =>
    cases resolves with
    | parts _ _ notDefinition => cases notDefinition
  | _ => exact stateClosed.resolves knows ((Node.isClosedOperand_iff rfl).mp closed) resolves

theorem evaluates (stateClosed : state.IsClosed unit) (knows : state.frame.Knows unit names)
    (closed : operand.isClosedOperand names) {argument : Bound}
    (evaluates : state.Evaluates operand argument) :
    argument.Holds Node.IsResolved (Definition.ClosedIn unit) := by
  cases evaluates with
  | closure => exact .closure ⟨names, knows, closed⟩ stateClosed.holds.frame
  | bound meaning => exact stateClosed.holds.meaning? meaning
  | operand resolves => exact .operand (stateClosed.resolvesOperand knows closed resolves)

theorem ofRest (stateClosed : before.IsClosed unit)
    (rest : after = { before with table := after.table }) : after.IsClosed unit := by
  have holds := stateClosed.holds.ofRest rest
  rw [rest] at holds ⊢
  exact ⟨holds, stateClosed.defines⟩

theorem withBinding (stateClosed : state.IsClosed unit) {bound : Bound}
    (new : bound.Holds Node.IsResolved (Definition.ClosedIn unit)) :
    (state.withBinding name bound).IsClosed unit := by
  have binds := Binds.withBinding state name bound
  refine ⟨stateClosed.holds.withBinding new, ?_⟩
  unfold Defines findMacro?
  rw [binds.constants, binds.macros]
  exact stateClosed.defines

end IsClosed

end Expander

section Knows

variable {unit names : List String} {before opened after : Expander}

theorem Expands.knows {task : Task} {results : List Node} {trace : Trace}
    (expands : Expands before task results trace after) (knows : before.frame.Knows unit names)
    (outermost : before.frame = [] → task.declaredNames = []) :
    after.frame.Knows unit (names ++ task.declaredNames) := by
  intro name mem
  rcases mem_append.mp mem with old | new
  · exact (knows name old).imp_right expands.binds.isSome_binding?
  · refine .inr (expands.bound (fun empty => ?_) name new)
    rw [outermost empty] at new
    cases new

theorem Expander.Opens.knows {definition : Definition} {invocation : Invocation}
    {arguments : List Bound} {scope : Scope Bound} {captured : Frame}
    (opens : before.Opens definition invocation arguments scope opened)
    (arity : invocation.operands.length = definition.parameters.length)
    (knows : captured.Knows unit names) :
    Frame.Knows unit (scope :: captured) (names ++ parameterNames definition.parameters) := by
  intro name mem
  rw [Frame.isSome_binding?_cons]
  rcases mem_append.mp mem with old | new
  · exact (knows name old).imp_right .inr
  · obtain ⟨parameter, parameterMem, named⟩ := mem_filterMap.mp new
    refine .inr (.inl ?_)
    rw [opens.bindings]
    exact isSome_argument? (arity.symm.trans opens.evaluated.length_eq) parameterMem named

end Knows

def Task.isClosedIn (names : List String) : Task → Bool
  | .statement node => node.isClosedIn names
  | .statements items => Node.areClosedIn names items
  | .invocation made => Node.areClosedOperands names made.operands

theorem Expands.isResolved {unit : List String} {before after : Expander} {task : Task}
    {results : List Node} {trace : Trace} (expands : Expands before task results trace after)
    (stateClosed : before.IsClosed unit)
    (knows : before.frame.Knows unit names) (closed : task.isClosedIn names)
    (outermost : before.frame = [] → task.declaredNames = []) :
    after.IsClosed unit ∧ ∀ result ∈ results, result.IsResolved := by
  induction expands generalizing names with
  | nothing => exact ⟨stateClosed, by simp⟩
  | statements first _ firstIh restIh =>
    rw [Task.isClosedIn, Node.areClosedIn, Bool.and_eq_true] at closed
    have separate := fun empty => append_eq_nil_iff.mp (outermost empty)
    obtain ⟨middle, firstResolved⟩ :=
      firstIh stateClosed knows closed.1 fun empty => (separate empty).1
    have middleKnows := first.knows knows fun empty => (separate empty).1
    obtain ⟨after, restResolved⟩ := restIh middle middleKnows closed.2 fun empty =>
      (separate (first.binds.frame_eq_nil.mp empty)).2
    exact ⟨after, forall_mem_append.mpr ⟨firstResolved, restResolved⟩⟩
  | sequence _ _ ih =>
    rw [Task.isClosedIn, Node.isClosedIn] at closed
    exact ih stateClosed knows closed outermost
  | call _ ih | macroInstruction _ ih =>
    rw [Task.isClosedIn, Node.isClosedIn] at closed
    exact ih stateClosed knows closed fun _ => rfl
  | instruction origin opcode comment uses resolves =>
    rw [Task.isClosedIn, Node.isClosedIn, Node.areClosedOperands_iff] at closed
    refine ⟨stateClosed.ofRest uses.rest, ?_⟩
    rw [forall_mem_singleton]
    refine Node.isResolved_of_children rfl fun part mem => ?_
    obtain ⟨operand, operandMem, resolves⟩ := exists_left_of_forall₂ resolves part mem
    exact stateClosed.resolvesOperand knows (closed operand operandMem) resolves
  | literalLabel | localLabel | trap =>
    refine ⟨stateClosed, forall_mem_singleton.mpr ?_⟩
    exact Node.isResolved_leaf rfl rfl
  | templateLabel =>
    refine ⟨stateClosed.ofRest rfl, forall_mem_singleton.mpr ?_⟩
    exact Node.isResolved_leaf rfl rfl
  | constant origin binding uses resolves =>
    rw [Task.isClosedIn, Node.isClosedIn_constant] at closed
    have value := stateClosed.resolves knows closed resolves
    refine ⟨(stateClosed.ofRest uses.rest).withBinding (.operand value), ?_⟩
    exact forall_mem_singleton.mpr (Node.isResolved_constant value)
  | definition | skip => exact ⟨stateClosed, by simp⟩
  | conditional =>
    rw [Task.isClosedIn, Node.isClosedIn] at closed
    cases closed
  | operand isOperand uses resolves =>
    rw [Task.isClosedIn, Node.isClosedIn_of_isOperand isOperand] at closed
    refine ⟨stateClosed.ofRest uses.rest, ?_⟩
    exact forall_mem_singleton.mpr (stateClosed.resolves knows closed resolves)
  | invocation callee arity opens expands ih =>
    rw [Task.isClosedIn, Node.areClosedOperands_iff] at closed
    have entered := stateClosed.holds.entered callee opens fun operand mem _ evaluates =>
      stateClosed.evaluates knows (closed operand mem) evaluates
    have openedClosed := stateClosed.ofRest opens.rest
    cases stateClosed.holds.callee? callee with
    | closure definitionClosed =>
      obtain ⟨around, capturedKnows, bodyClosed⟩ := definitionClosed
      obtain ⟨inside, resolved⟩ := ih
        ⟨entered, openedClosed.defines⟩ (opens.knows arity capturedKnows) bodyClosed nofun
      exact ⟨⟨inside.holds.left stateClosed.holds, inside.defines⟩, resolved⟩

/-! ### Units -/

/-- The name of a macro of a unit. -/
def globalName? : Node → Option String
  | .definition _ (.text name) _ _ => some name
  | _ => none

def Node.globalNames (tree : Node) : List String := tree.statements.filterMap globalName?

/-- Whether the values of constants use only constants that are declared before them. -/
def areClosedConstants : List String → List Node → Bool
  | _, [] => true
  | earlier, .constant _ binding value :: rest =>
    decide (value.readNames ⊆ earlier) && areClosedConstants (earlier ++ [binding.name]) rest
  | earlier, _ :: rest => areClosedConstants earlier rest

def Node.unitNames (tree : Node) : List String := tree.globalNames ++ tree.declaredNames

/-- Whether a unit is closed: every variable is in scope where it stands. The constants of the unit
are in scope everywhere, but the value of one may use only those before it. The macros of the unit
are in scope too, to be passed as operands. Anywhere else the name of a macro makes expansion fail,
so it need not be ruled out here. -/
def Node.isClosed (tree : Node) : Bool :=
  areClosedConstants tree.globalNames tree.statements && tree.statements.all fun stmt =>
    stmt.isConstant || stmt.isClosedIn tree.unitNames

theorem areClosedConstants_cons {earlier : List String} {item : Node} {rest : List Node}
    (notConstant : item.isConstant = false) :
    areClosedConstants earlier (item :: rest) = areClosedConstants earlier rest := by
  cases item with
  | constant => cases notConstant
  | _ => rfl

theorem Node.isClosed_iff :
    tree.isClosed ↔ areClosedConstants tree.globalNames tree.statements ∧
      ∀ stmt ∈ tree.statements, stmt.isConstant = false → stmt.isClosedIn tree.unitNames := by
  simp only [isClosed, Bool.and_eq_true, all_eq_true, Bool.or_eq_true, or_iff_not_imp_left,
    Bool.not_eq_true]

/-- A closed statement of a unit declares nothing, unless it is a constant. -/
theorem Node.declaredNames_of_isClosedIn {stmt : Node}
    (single : stmt.isSequence = false) (notConstant : stmt.isConstant = false)
    (closed : stmt.isClosedIn names) : stmt.declaredNames = [] := by
  cases stmt with
  | constant => cases notConstant
  | sequence => cases single
  | conditional =>
    rw [isClosedIn] at closed
    cases closed
  | _ => rfl

section Units

variable {unit : List String} {before after : Expander} {items results : List Node}
  {parts : List (Node ⊕ Node)} {trace : Trace}

theorem Expander.Declares.isResolved {earlier : List String} {property : Node → Prop}
    (declares : before.Declares items parts after)
    (holds : before.Holds Node.IsResolved (Definition.ClosedIn unit))
    (known : ∀ name ∈ earlier, before.Defines name) (closed : areClosedConstants earlier items)
    (others : ∀ item ∈ items, item.isConstant = false → property item) :
    after.Holds Node.IsResolved (Definition.ClosedIn unit) ∧
      (∀ name ∈ earlier, after.Defines name) ∧
      (∀ item ∈ items, item.isConstant → ∀ name ∈ item.declaredNames, after.Defines name) ∧
      ∀ part ∈ parts, part.elim Node.IsResolved property := by
  induction declares generalizing earlier with
  | nothing => exact ⟨holds, known, by simp, by simp⟩
  | @constant before middle _ value result rest _ origin binding notices uses resolves _
      ih =>
    rw [areClosedConstants, Bool.and_eq_true, decide_eq_true_iff] at closed
    obtain ⟨valueClosed, restClosed⟩ := closed
    have resolved : result.IsResolved :=
      resolves.isResolved (isResolved_of_meaning? holds) _ _ fun name reads =>
        (known name (valueClosed reads)).isSome_meaning?
    have stillKnown : ∀ name ∈ earlier ++ [binding.name], Defines { middle with
        constants := Association.set middle.constants binding.name result
        notices := notices } name := by
      intro name mem
      rw [Defines, Association.get?_set]
      split
      · exact .inl rfl
      · rename_i different
        rcases mem_append.mp mem with old | new
        · rw [uses.rest]
          exact known name old
        · exact absurd (mem_singleton.mp new).symm different
    obtain ⟨afterHolds, afterKnown, declared, rest⟩ := ih
      ((holds.ofRest uses.rest).withConstant resolved notices) stillKnown restClosed
      (forall_mem_cons.mp others).2
    obtain ⟨earlierKnown, ownKnown⟩ := forall_mem_append.mp afterKnown
    refine ⟨afterHolds, earlierKnown, ?_, ?_⟩
    · exact forall_mem_cons.mpr ⟨fun _ => ownKnown, declared⟩
    · exact forall_mem_cons.mpr ⟨Node.isResolved_constant resolved, rest⟩
  | other notConstant _ ih =>
    rw [areClosedConstants_cons notConstant] at closed
    obtain ⟨itemOther, restOthers⟩ := forall_mem_cons.mp others
    obtain ⟨afterHolds, afterKnown, declared, rest⟩ :=
      ih holds known closed restOthers
    refine ⟨afterHolds, afterKnown, ?_, ?_⟩
    · refine forall_mem_cons.mpr ⟨fun isConstant => ?_, declared⟩
      rw [notConstant] at isConstant
      cases isConstant
    · exact forall_mem_cons.mpr ⟨itemOther notConstant, rest⟩

theorem Expander.ExpandsUnit.isResolved (expands : before.ExpandsUnit parts results trace after)
    (stateClosed : before.IsClosed unit) (outermost : before.frame = [])
    (closed : ∀ part ∈ parts, part.elim Node.IsResolved fun item =>
      item.isClosedIn unit ∧ item.declaredNames = []) : ∀ result ∈ results, result.IsResolved := by
  induction expands with
  | nothing => simp
  | resolved declaration _ ih =>
    obtain ⟨resolved, others⟩ := forall_mem_cons.mp closed
    exact forall_mem_cons.mpr ⟨resolved, ih stateClosed outermost others⟩
  | statement first _ ih =>
    obtain ⟨⟨itemClosed, nothingDeclared⟩, others⟩ := forall_mem_cons.mp closed
    obtain ⟨middle, resolved⟩ :=
      first.isResolved stateClosed (fun _ => .inl) itemClosed fun _ => nothingDeclared
    refine forall_mem_append.mpr ⟨resolved, ?_⟩
    exact ih middle (first.binds.outermost outermost).1 others

end Units

theorem Node.mem_declaredNamesOf {name : String} {items : List Node} :
    name ∈ declaredNamesOf items ↔ ∃ item ∈ items, name ∈ item.declaredNames := by
  induction items with
  | nil => simp [declaredNamesOf]
  | cons item rest ih =>
    rw [declaredNamesOf, mem_append, ih, List.exists_mem_cons_iff]

theorem Node.exists_statement_declares {name : String}
    (mem : name ∈ tree.declaredNames) : ∃ stmt ∈ tree.statements, name ∈ stmt.declaredNames := by
  induction tree with
  | step node ih =>
    cases node with
    | sequence origin items =>
      obtain ⟨item, itemMem, inside⟩ := mem_declaredNamesOf.mp mem
      obtain ⟨stmt, statementMem, declares⟩ := ih item itemMem inside
      exact ⟨stmt, mem_statementsOf.mpr ⟨item, itemMem, statementMem⟩, declares⟩
    | _ => exact ⟨_, mem_singleton_self _, mem⟩

theorem Expander.isSome_findMacro?_readied {state : Expander} {name : String}
    (mem : name ∈ tree.globalNames) : ((state.readied tree).findMacro? (.text name)).isSome := by
  obtain ⟨stmt, statementMem, named⟩ := mem_filterMap.mp mem
  unfold globalName? at named
  split at named
  · cases named
    rename_i origin parameters body
    unfold findMacro?
    rw [Option.isSome_map, find?_isSome]
    refine ⟨(.text name, ⟨origin, .text name, parameters, body⟩), ?_, by simp⟩
    exact mem_append_right _ (mem_filterMap.mpr ⟨_, statementMem, rfl⟩)
  · cases named

theorem Expander.ExpandsTree.isResolved {table : SymbolTable} {results : List Node}
    {trace : Trace} {after : Expander}
    (expands : ExpandsTree { table := table } tree results trace after) (closed : tree.isClosed) :
    ∀ result ∈ results, result.IsResolved := by
  obtain ⟨constantsClosed, statementsClosed⟩ := Node.isClosed_iff.mp closed
  obtain ⟨declares, expands⟩ := expands
  have fresh : (readied { table := table } tree).Holds Node.IsResolved
      (Definition.ClosedIn tree.unitNames) :=
    holds_readied fun _ _ _ _ mem => by
      have body := statementsClosed _ mem rfl
      rw [Node.isClosedIn] at body
      exact ⟨tree.unitNames, fun _ => .inl, body⟩
  have macros : ∀ name ∈ tree.globalNames, (readied { table := table } tree).Defines name :=
    fun name mem => .inr (isSome_findMacro?_readied mem)
  have statements : ∀ stmt ∈ tree.statements, stmt.isConstant = false →
      stmt.isClosedIn tree.unitNames ∧ stmt.declaredNames = [] := by
    intro stmt mem notConstant
    have statementClosed := statementsClosed stmt mem notConstant
    exact ⟨statementClosed, Node.declaredNames_of_isClosedIn
      (Node.isSequence_of_mem_statements mem) notConstant statementClosed⟩
  obtain ⟨holds, macrosKnown, declared, parts⟩ :=
    declares.isResolved fresh macros constantsClosed statements
  refine expands.isResolved ⟨holds, ?_⟩ (by rw [declares.rest.1]; rfl) parts
  refine forall_mem_append.mpr ⟨macrosKnown, fun name mem => ?_⟩
  obtain ⟨stmt, statementMem, declaring⟩ := Node.exists_statement_declares mem
  cases isConstant : stmt.isConstant with
  | true => exact declared stmt statementMem isConstant name declaring
  | false =>
    rw [(statements stmt statementMem isConstant).2] at declaring
    cases declaring

theorem Backend.lower_error {config : Configuration} {table : SymbolTable}
    {failure : Failure} (machine : config.architecture.emitsHostCode = false)
    (failed : ((Backend.lower config tree).perform table).1 = .error failure) :
    ∃ after, (Assembly.lower config tree).perform table = (.error failure, after) := by
  have performed := Action.perform_of_fst failed
  simp only [Backend.lower, machine, Bool.false_eq_true, if_false, Action.perform_bind_error]
    at performed
  rcases performed with early | ⟨code, middle, -, late⟩
  · exact ⟨_, early⟩
  · cases code <;> cases late

/-- Expanding a closed unit leaves no variable other than the names that constants declare, so no
machine reports an unbound variable for what comes out of it. -/
theorem Expander.expand_closed {table : SymbolTable} {limit : Int} {tree result : Node}
    {after : Expander} (closed : tree.isClosed)
    (succeeded : (expand limit tree).perform { table := table } = (.ok result, after)) :
    (∀ name, ¬ result.Mentions name) ∧
      ∀ configuration symbols failure, configuration.architecture.emitsHostCode = false →
        ((Backend.lower configuration result).perform symbols).1 = .error failure →
          failure.isUnbound = false := by
  obtain ⟨results, trace, final, rfl, -, expands⟩ := expand_ok succeeded
  have resolved : (Node.sequence tree.origin results).IsResolved :=
    Node.isResolved_of_children rfl (expands.isResolved closed)
  refine ⟨resolved, fun configuration symbols failure machine failed => ?_⟩
  rw [← Bool.not_eq_true]
  intro unbound
  obtain ⟨_, lowering⟩ := Backend.lower_error machine failed
  obtain ⟨_, member, name, mentioned⟩ :=
    (@Assembly.emits_lower configuration [] _).blames _ _ _ lowering unbound
  obtain rfl := List.mem_singleton.mp member
  exact resolved name mentioned

end

/-! ### A closed unit -/

namespace Closing

def named (name : String) : Node := .var ⟨.nowhere, name, .null⟩

def number (value : Int) : Node := .immediate .nowhere value

def sum (left right : Node) : Node := .binary .nowhere .add left right

def declared (name : String) (value : Node) : Node :=
  .constant .nowhere ⟨.nowhere, name, .null⟩ value

def statement (left right : Node) : Node := .instruction .nowhere "addi" [left, right] .null

def invoked (name : String) (operand : Node) : Node := .call .nowhere name [operand] .null .null

def defined (name : Value) (parameter : String) (body : List Node) : Node :=
  .definition .nowhere name [named parameter] (.sequence .nowhere body)

/-- A unit whose macros use the constants of the unit, constants of their own, their parameters and
those of a macro around them, and pass on each other. -/
def tree : Node := .sequence .nowhere [
  declared "base" (number 4),
  declared "size" (sum (named "base") (number 1)),
  defined (.text "show") "value" [statement (named "value") (named "base")],
  defined (.text "twice") "body" [declared "step" (named "size"), invoked "body" (named "step"),
    invoked "body" (number 7)],
  defined (.text "outer") "start" [declared "origin" (sum (named "start") (named "size")),
    invoked "twice" (defined .null "offset" [statement (named "origin") (named "offset")])],
  invoked "outer" (named "base"),
  invoked "twice" (named "show")]

def size : Node := sum (number 4) (number 1)

def expanded : Node := .sequence .nowhere [
  declared "base" (number 4), declared "size" size,
  declared "origin" (sum (number 4) size), declared "step" size,
  statement (sum (number 4) size) size, statement (sum (number 4) size) (number 7),
  declared "step" size, statement size (number 4), statement (number 7) (number 4)]

end Closing

/-- Every variable of the unit is replaced, wherever the macro that uses it is passed to. -/
theorem Expander.expand_closed_closures :
    Closing.tree.isClosed ∧
      ((expand defaultLimit Closing.tree).perform { table := .empty }).1 = .ok Closing.expanded ∧
      (∀ name, ¬ Closing.expanded.Mentions name) ∧
      ∀ configuration symbols failure, configuration.architecture.emitsHostCode = false →
        ((Backend.lower configuration Closing.expanded).perform symbols).1 = .error failure →
          failure.isUnbound = false := by
  have closed : Closing.tree.isClosed := by decide +kernel
  have succeeded : ((expand defaultLimit Closing.tree).perform { table := .empty }).1 =
      .ok Closing.expanded := rfl
  exact ⟨closed, succeeded, expand_closed closed (Action.perform_of_fst succeeded)⟩

end MacroAssembler
