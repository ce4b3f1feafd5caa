/-
This module is about the states in which the expansion of a unit comes to its statements.

The macros of a unit are collected and its constants resolved before its first statement is
expanded, and the expansion of a statement adds to neither. So wherever the expansion of a folded
unit has come to, the names are those of the unit: a name means a macro if the unit defines one of
that name, and a constant if the unit declares one, and no scope binds anything, since the only
constants of a folded unit that stand outside its macros are statements of the unit itself.
-/
import MacroAssembler.Proofs.Hygiene
import MacroAssembler.Proofs.PlainExpansion
import MacroAssembler.Proofs.Scoping

namespace MacroAssembler

open Action List

/-! ### Names of a unit -/

namespace Node

def DefinesMacro (unit : Node) (name : String) : Prop :=
  ∃ origin parameters body, .definition origin (.text name) parameters body ∈ unit.statements

def DeclaresConstant (unit : Node) (name : String) : Prop :=
  ∃ origin binding value, .constant origin binding value ∈ unit.statements ∧ binding.name = name

/-- Whether an operand of a statement of a unit is a macro: one that is written there without a
name, or the name of one of the unit, if no constant of the unit has that name. -/
inductive GivesMacro (unit : Node) : Node → Definition → Prop
  | anonymous (definition : Definition) : GivesMacro unit definition.node definition
  | global {binding : Variable} {definition : Definition} (defined : definition.node ∈ unit.statements)
      (named : definition.name = .text binding.name)
      (undeclared : ¬ unit.DeclaresConstant binding.name) :
      GivesMacro unit (.var binding) definition

theorem declaredNames_of_settled {unit stmt : Node} (settled : unit.Throughout IsSettled)
    (mem : stmt ∈ unit.statements) (notConstant : stmt.isConstant = false) :
    stmt.declaredNames = [] := by
  have single := isSequence_of_mem_statements mem
  have decided := (settled.statement mem).here.1
  cases stmt with
  | constant => cases notConstant
  | sequence => cases single
  | conditional => exact absurd decided.conditional (by simp [isConditional])
  | _ => rfl

end Node

namespace Expander

variable {state before after : Expander} {unit : Node} {name : String}

/-! ### Macros -/

variable {definition : Definition} {key : Name} {parts : List (Node ⊕ Node)} {items : List Node}

theorem findMacro?_append (found : state.findMacro? key = some definition)
    (more : List (Name × Definition)) :
    { state with macros := state.macros ++ more }.findMacro? key = some definition := by
  unfold findMacro? at found ⊢
  obtain ⟨entry, known, rfl⟩ := Option.map_eq_some_iff.mp found
  rw [find?_append, known]
  rfl

theorem findMacro?_added (missing : state.findMacro? key = none) (definition : Definition) :
    { state with macros := state.macros ++ [(key, definition)] }.findMacro? key =
      some definition := by
  unfold findMacro? at missing ⊢
  rw [find?_append, Option.map_eq_none_iff.mp missing]
  simp

theorem findMacro?_collectMacros {statements : List Node} {done : Unit}
    (ran : (collectMacros statements).perform state = (.ok done, after))
    (mem : (key, definition) ∈ statements.filterMap collected?) :
    after.findMacro? key = some definition := by
  induction statements generalizing state with
  | nil => cases mem
  | cons stmt rest ih =>
    unfold collectMacros at ran
    split at ran
    · contradiction
    · rename_i same
      cases same
      exact ih ran mem
    · rename_i origin value parameters body _ named same
      cases same
      simp only [perform_bind_ok, perform_lift, perform_get, Prod.mk.injEq, Except.ok.injEq] at ran
      obtain ⟨own, _, ⟨spelled, rfl⟩, _, _, ⟨rfl, rfl⟩, decided⟩ := ran
      split at decided
      · simp [report] at decided
      · rename_i missing
        simp only [perform_bind_ok, perform_modify, Prod.mk.injEq, true_and] at decided
        obtain ⟨_, _, rfl, collects⟩ := decided
        have present : value.isNull = false := by
          cases value with
          | null => exact absurd rfl named
          | _ => rfl
        have collected : collected? (.definition origin value parameters body) =
            some (own, ⟨origin, value, parameters, body⟩) := by
          simp [collected?, present, toName_ok.mp spelled]
        rw [filterMap_cons_some collected] at mem
        rcases mem_cons.mp mem with first | later
        · cases first
          rw [collectMacros_ok collects]
          exact findMacro?_append (findMacro?_added missing _) _
        · exact ih collects later
    · rename_i other _ unnamed named same
      cases same
      refine ih ran ?_
      cases stmt with
      | definition origin name parameters body =>
        exact absurd rfl (named origin name parameters body)
      | _ => exact mem

theorem findMacro?_of_undefined (macros : state.macros = unit.statements.filterMap collected?)
    (undefined : ¬ unit.DefinesMacro name) : state.findMacro? (.text name) = none := by
  unfold findMacro?
  rw [Option.map_eq_none_iff, find?_eq_none, macros]
  rintro ⟨key, definition⟩ mem same
  obtain ⟨stmt, statementMem, collected⟩ := mem_filterMap.mp mem
  obtain rfl := Name.eq_text_of_key (of_decide_eq_true same)
  cases stmt with
  | definition origin value parameters body =>
    simp only [collected?, Option.ite_none_left_eq_some, Option.map_eq_some_iff, Prod.mk.injEq]
      at collected
    obtain ⟨-, _, spelled, rfl, -⟩ := collected
    cases value with
    | text =>
      cases spelled
      exact undefined ⟨origin, parameters, body, statementMem⟩
    | _ => cases spelled
  | _ => cases collected

/-! ### Constants -/

theorem Declares.constants (declares : before.Declares items parts after)
    (undeclared : ∀ origin binding value, .constant origin binding value ∈ items →
      binding.name ≠ name) :
    Association.get? after.constants name = Association.get? before.constants name := by
  induction declares with
  | nothing => rfl
  | constant origin binding notices uses resolves declares ih =>
    rw [ih fun origin binding value mem =>
      undeclared origin binding value (mem_cons_of_mem _ mem)]
    dsimp only
    rw [Association.get?_set, if_neg (undeclared _ _ _ mem_cons_self), uses.rest]
  | other _ _ ih =>
    exact ih fun origin binding value mem =>
      undeclared origin binding value (mem_cons_of_mem _ mem)

theorem Declares.mem (declares : before.Declares items parts after) {item : Node}
    (mem : .inr item ∈ parts) : item ∈ items ∧ item.isConstant = false := by
  induction declares with
  | nothing => cases mem
  | constant _ _ _ _ _ _ ih =>
    obtain ⟨inside, notConstant⟩ := ih (by simpa using mem)
    exact ⟨mem_cons_of_mem _ inside, notConstant⟩
  | other notConstant _ ih =>
    rcases mem_cons.mp mem with same | later
    · cases same
      exact ⟨mem_cons_self, notConstant⟩
    · obtain ⟨inside, notConstant⟩ := ih later
      exact ⟨mem_cons_of_mem _ inside, notConstant⟩

theorem Declares.exists_mem (declares : before.Declares items parts after) {item : Node}
    (mem : item ∈ items) (notConstant : item.isConstant = false) : .inr item ∈ parts := by
  induction declares with
  | nothing => cases mem
  | constant _ _ _ _ _ _ ih =>
    rcases mem_cons.mp mem with rfl | later
    · cases notConstant
    · exact mem_cons_of_mem _ (ih later)
  | other _ _ ih =>
    rcases mem_cons.mp mem with rfl | later
    · exact mem_cons_self
    · exact mem_cons_of_mem _ (ih later)

theorem ExpandsUnit.binds {results : List Node} {trace : Trace}
    (expands : before.ExpandsUnit parts results trace after)
    (each : ∀ item, .inr item ∈ parts → item.declaredNames = []) : before.Binds [] after := by
  induction expands with
  | nothing => exact .refl _
  | resolved _ _ ih =>
    exact ih fun item mem => each item (mem_cons_of_mem _ mem)
  | @statement _ _ _ item _ _ _ _ _ expandsFirst _ ih =>
    have first := expandsFirst.binds
    rw [Task.declaredNames, each item mem_cons_self] at first
    exact first.trans (ih fun item mem =>
      each item (mem_cons_of_mem _ mem))

/-! ### The run of a unit -/

/-- Whether a state knows the macros and the constants of a unit, and nothing is bound outside its
frame. -/
structure KnowsUnit (state : Expander) (unit : Node) : Prop where
  unbound : ∀ name, Association.get? state.root.bindings name = none
  collected : ∀ (definition : Definition) (name : String), definition.name = .text name →
    definition.node ∈ unit.statements → state.findMacro? (.text name) = some definition
  uncollected : ∀ name, ¬ unit.DefinesMacro name → state.findMacro? (.text name) = none
  undeclared : ∀ name, ¬ unit.DeclaresConstant name → Association.get? state.constants name = none

/-- Whether the expansion of a unit comes to one of its statements in a state, and expands it to
some results and leaves it in another state. -/
inductive ExpandsPart (limit : Int) (start : Expander) (unit : Node) (stmt : Node)
    (before : Expander) (results : List Node) (after : Expander) : Prop
  | intro {collected declared : Expander} {front back : List (Node ⊕ Node)} {earlier : List Node}
      (collects : (collectMacros unit.statements).perform { start with frame := [] } =
        (.ok (), collected))
      (resolves : (resolveConstants unit.statements).perform collected =
        (.ok (front ++ .inr stmt :: back), declared))
      (comes : (expandUnit (invoke limit limit.toNat) front).perform declared =
        (.ok earlier, before))
      (expands : (expandNode (invoke limit limit.toNat) stmt).perform before = (.ok results, after))

theorem expandUnit_append {invoke : Invocation → Expand (List Node)}
    {front back : List (Node ⊕ Node)}
    (ran : (expandUnit invoke (front ++ back)).perform before = (.ok items, after)) :
    ∃ earlier middle later, (expandUnit invoke front).perform before = (.ok earlier, middle) ∧
      (expandUnit invoke back).perform middle = (.ok later, after) ∧ items = earlier ++ later := by
  induction front generalizing before items with
  | nil => exact ⟨[], before, items, rfl, ran, rfl⟩
  | cons part rest ih =>
    cases part with
    | inl resolved =>
      simp only [cons_append, expandUnit, perform_bind_ok, pure_ok] at ran ⊢
      obtain ⟨others, _, expanded, rfl, rfl⟩ := ran
      obtain ⟨earlier, middle, later, first, second, rfl⟩ := ih expanded
      exact ⟨_, middle, later, ⟨earlier, _, first, rfl, rfl⟩, second, rfl⟩
    | inr item =>
      simp only [cons_append, expandUnit, perform_bind_ok, pure_ok] at ran ⊢
      obtain ⟨own, next, expandsItem, others, _, expanded, rfl, rfl⟩ := ran
      obtain ⟨earlier, middle, later, first, second, rfl⟩ := ih expanded
      exact ⟨_, middle, later, ⟨own, next, expandsItem, earlier, _, first, rfl, rfl⟩, second,
        (append_assoc ..).symm⟩

/-- The expansion of a unit comes to each of its statements, and what it expands the statement to
stands among its results. -/
theorem exists_expandsPart {limit : Int} {start final : Expander} {result stmt : Node}
    (ran : (expand limit unit).perform start = (.ok result, final))
    (mem : stmt ∈ unit.statements) (notConstant : stmt.isConstant = false) :
    ∃ before results after earlier later, ExpandsPart limit start unit stmt before results after ∧
        result = .sequence unit.origin (earlier ++ results ++ later) := by
  simp only [expand, note, perform_bind_ok, perform_modify, perform_get,
    perform_pure, Prod.mk.injEq, Except.ok.injEq, true_and] at ran
  obtain ⟨_, _, rfl, _, collected, collects, parts, declared, resolved, items, expanded, expands,
    _, _, ⟨rfl, rfl⟩, _, _, rfl, rfl, rfl⟩ := ran
  obtain ⟨front, back, rfl⟩ := append_of_mem
    ((resolveConstants_ok resolved).exists_mem mem notConstant)
  obtain ⟨earlier, before, _, comes, rest, rfl⟩ := expandUnit_append expands
  simp only [expandUnit, perform_bind_ok, pure_ok] at rest
  obtain ⟨results, after, expandsStatement, later, _, _, rfl, rfl⟩ := rest
  exact ⟨before, results, after, earlier, later, .intro collects resolved comes expandsStatement,
    by rw [append_assoc]⟩

namespace ExpandsPart

variable {limit : Int} {table : SymbolTable} {stmt : Node} {results : List Node}

/-- The expansion of a folded unit comes to its statements outside all macros, and knows the unit
there. -/
theorem knowsUnit (part : ExpandsPart limit { table := table } unit stmt before results after)
    (settled : unit.Throughout Node.IsSettled) : before.frame = [] ∧ before.KnowsUnit unit := by
  obtain ⟨collects, resolves, comes, -⟩ := part
  rename_i collected declared front back earlier
  have collectedMacros := collectMacros_ok collects
  have declares := resolveConstants_ok resolves
  obtain ⟨sameFrame, sameRoot, sameMacros, -⟩ := declares.rest
  obtain ⟨_, expands⟩ := expandUnit_ok comes
  have binds := expands.binds fun item mem => by
    obtain ⟨inside, notConstant⟩ := declares.mem (mem_append_left _ mem)
    exact Node.declaredNames_of_settled settled inside notConstant
  have noFrame : declared.frame = [] := by rw [sameFrame, collectedMacros]
  obtain ⟨atTop, root⟩ := binds.outermost noFrame
  have macros : before.macros = unit.statements.filterMap collected? := by
    rw [binds.macros, sameMacros, collectedMacros]
    rfl
  refine ⟨atTop, fun name => ?_, fun definition name named defined => ?_, fun name undefined => ?_,
    fun name undeclared => ?_⟩
  · rcases root.bindings name with same | ⟨anew, -⟩
    · rw [same, sameRoot, collectedMacros]
      rfl
    · cases anew
  · have found : collected.findMacro? (.text name) = some definition := by
      refine findMacro?_collectMacros collects (mem_filterMap.mpr ⟨_, defined, ?_⟩)
      obtain ⟨origin, value, parameters, body⟩ := definition
      cases named
      rfl
    unfold findMacro? at found ⊢
    rw [binds.macros, sameMacros]
    exact found
  · exact findMacro?_of_undefined macros undefined
  · rw [binds.constants, declares.constants fun origin binding value mem same =>
      undeclared ⟨origin, binding, value, mem, same⟩, collectedMacros]
    rfl

end ExpandsPart

/-! ### What names mean in a unit -/

namespace KnowsUnit

variable {frame : Frame}

variable (knows : state.KnowsUnit unit)

include knows

theorem inFrame (frame : Frame) : { state with frame := frame }.KnowsUnit unit :=
  ⟨knows.unbound, knows.collected, knows.uncollected, knows.undeclared⟩

theorem binding? (name : String) : state.binding? name = Frame.binding? state.frame name := by
  unfold Expander.binding? Frame.binding?
  rw [List.findSome?_append, List.findSome?_singleton, knows.unbound, Option.or_none]

theorem meaning?_eq_none
    (unbound : Frame.binding? state.frame name = none) (undefined : ¬ unit.DefinesMacro name)
    (undeclared : ¬ unit.DeclaresConstant name) : state.meaning? name = none := by
  unfold Expander.meaning?
  rw [knows.binding?, unbound, knows.undeclared name undeclared, knows.uncollected name undefined]
  rfl

theorem callee?_eq_none
    (unbound : Frame.binding? state.frame name = none) (undefined : ¬ unit.DefinesMacro name) :
    state.callee? name = none := by
  unfold Expander.callee?
  rw [knows.binding?, unbound, knows.uncollected name undefined]
  rfl

theorem meaning?_of_bound {bound : Bound}
    (isBound : Frame.binding? state.frame name = some bound) : state.meaning? name = some bound := by
  unfold Expander.meaning?
  rw [knows.binding?, isBound]

theorem callee?_of_bound {captured : Frame} (isBound : Frame.binding? state.frame name =
      some (.closure definition captured)) : state.callee? name = some (definition, captured) := by
  unfold Expander.callee?
  rw [knows.binding?, isBound]

theorem meaning?_of_macro (unbound : Frame.binding? state.frame name = none)
    (found : state.findMacro? (.text name) = some definition)
    (undeclared : ¬ unit.DeclaresConstant name) :
    state.meaning? name = some (.closure definition []) := by
  unfold Expander.meaning?
  rw [knows.binding?, unbound, knows.undeclared name undeclared, found]
  rfl

theorem callee?_of_macro (unbound : Frame.binding? state.frame name = none)
    (found : state.findMacro? (.text name) = some definition) :
    state.callee? name = some (definition, []) := by
  unfold Expander.callee?
  rw [knows.binding?, unbound, found]
  rfl

theorem yields_of_givesMacro (outside : state.frame = [])
    {operand : Node} (gives : unit.GivesMacro operand definition) :
    state.Yields (evaluateOperand operand) (.ok (.closure definition [])) := by
  cases gives with
  | anonymous =>
    rw [← outside]
    exact yields_evaluateMacro _ _ _ _
  | @global binding _ defined named undeclared =>
    have found := knows.collected definition binding.name named defined
    have meaning := knows.meaning?_of_macro (by rw [outside]; rfl) found undeclared
    have yields := state.yields_evaluateVariable binding
    rw [meaning] at yields
    exact yields

end KnowsUnit

end Expander

end MacroAssembler
