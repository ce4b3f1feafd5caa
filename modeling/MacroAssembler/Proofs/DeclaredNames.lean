/-
This module says which names a run of expansion binds.

A constant is bound in the innermost scope, and nothing else that is expanded changes a scope: an
invocation is expanded in a scope of its own, which is gone afterwards. So a run leaves the scopes
further out as they are, and in the innermost one it binds at most the names of the constants that
its statements declare. In particular every operand of a run is resolved in the scopes that the run
was started in, up to those names, and local labels mean the same throughout.
-/
import MacroAssembler.Proofs.Bindings

namespace MacroAssembler

open List

variable {before after : Expander} {results : List Node} {names : List String}

/-! ### Names of constants -/

mutual

/-- The names of the constants that a statement declares, those of macros inside it left out. -/
def Node.declaredNames : Node → List String
  | .constant _ binding _ => [binding.name]
  | .sequence _ items => declaredNamesOf items
  | .conditional _ _ thenCase elseCase => thenCase.declaredNames ++ elseCase.declaredNames
  | _ => []

def Node.declaredNamesOf : List Node → List String
  | [] => []
  | item :: rest => item.declaredNames ++ declaredNamesOf rest

end

theorem Node.declaredNames_of_isOperand {node : Node} (isOperand : node.isOperand) :
    node.declaredNames = [] := by
  cases node <;> first | rfl | cases isOperand

def Task.declaredNames : Task → List String
  | .statement node => node.declaredNames
  | .statements items => Node.declaredNamesOf items
  | .invocation _ => []

/-! ### Scopes -/

structure Scope.Binds (names : List String) (before after : Scope Bound) : Prop where
  labels : after.labels = before.labels
  bindings : ∀ name, Association.get? after.bindings name = Association.get? before.bindings name ∨
    (name ∈ names ∧ (Association.get? after.bindings name).isSome)

namespace Scope.Binds

variable {names others : List String} {before middle after : Scope Bound}

theorem refl (scope : Scope Bound) : scope.Binds names scope := ⟨rfl, fun _ => .inl rfl⟩

theorem trans (first : before.Binds names middle) (second : middle.Binds others after) :
    before.Binds (names ++ others) after where
  labels := second.labels.trans first.labels
  bindings name := by
    rcases second.bindings name with same | ⟨mem, bound⟩
    · rw [same]
      exact (first.bindings name).imp_right fun ⟨mem, bound⟩ =>
        ⟨mem_append_left _ mem, bound⟩
    · exact .inr ⟨mem_append_right _ mem, bound⟩

theorem set (scope : Scope Bound) (name : String) (bound : Bound) : scope.Binds [name]
      { scope with bindings := Association.set scope.bindings name bound } where
  labels := rfl
  bindings other := by
    rw [Association.get?_set]
    split
    · rename_i same
      exact .inr ⟨by simp [same], rfl⟩
    · exact .inl rfl

end Scope.Binds

theorem Frame.isSome_binding?_cons {scope : Scope Bound} {outer : Frame} {name : String} :
    (binding? (scope :: outer) name).isSome ↔
      (Association.get? scope.bindings name).isSome ∨ (binding? outer name).isSome := by
  unfold binding?
  rw [List.findSome?_cons]
  cases Association.get? scope.bindings name <;> simp

/-! ### States -/

/-- Whether one state differs from another at most in the symbol table, the counts and notices, and
in names that are bound anew in the innermost scope. -/
structure Expander.Binds (names : List String) (before after : Expander) : Prop where
  macros : after.macros = before.macros
  constants : after.constants = before.constants
  outermost : before.frame = [] → after.frame = [] ∧ before.root.Binds names after.root
  nested : ∀ scope outer, before.frame = scope :: outer → after.root = before.root ∧
    ∃ inner, after.frame = inner :: outer ∧ scope.Binds names inner

namespace Expander.Binds

variable {names others : List String} {before middle after : Expander}

theorem refl (state : Expander) : state.Binds names state where
  macros := rfl
  constants := rfl
  outermost empty := ⟨empty, .refl _⟩
  nested scope _ same := ⟨rfl, scope, same, .refl _⟩

theorem trans (first : before.Binds names middle) (second : middle.Binds others after) :
    before.Binds (names ++ others) after where
  macros := second.macros.trans first.macros
  constants := second.constants.trans first.constants
  outermost empty := by
    obtain ⟨middleEmpty, firstBinds⟩ := first.outermost empty
    obtain ⟨afterEmpty, secondBinds⟩ := second.outermost middleEmpty
    exact ⟨afterEmpty, firstBinds.trans secondBinds⟩
  nested scope outer same := by
    obtain ⟨firstRoot, inner, middleSame, firstBinds⟩ := first.nested scope outer same
    obtain ⟨secondRoot, innermost, afterSame, secondBinds⟩ := second.nested inner outer middleSame
    exact ⟨secondRoot.trans firstRoot, innermost, afterSame, firstBinds.trans secondBinds⟩

theorem append_left (binds : before.Binds names after) : before.Binds (names ++ others) after :=
  binds.trans (.refl after)

theorem ofUses (uses : before.Uses after) : before.Binds names after := by
  rw [uses.rest]
  have same : before.Binds names before := .refl before
  exact ⟨same.macros, same.constants, same.outermost, same.nested⟩

theorem withBinding (state : Expander) (name : String) (bound : Bound) :
    state.Binds [name] (state.withBinding name bound) := by
  obtain ⟨table, macros, constants, expansions, root, frame, notices⟩ := state
  cases frame with
  | nil => exact ⟨rfl, rfl, fun _ => ⟨rfl, .set root name bound⟩, nofun⟩
  | cons scope outer =>
    refine ⟨rfl, rfl, nofun, fun other rest same => ?_⟩
    cases same
    exact ⟨rfl, _, rfl, .set scope name bound⟩

theorem scopes (binds : before.Binds names after) :
    ∃ scope inner outer, before.frame ++ [before.root] = scope :: outer ∧
      after.frame ++ [after.root] = inner :: outer ∧ scope.Binds names inner := by
  cases same : before.frame with
  | nil =>
    obtain ⟨empty, binds⟩ := binds.outermost same
    exact ⟨_, _, [], rfl, by rw [empty]; rfl, binds⟩
  | cons scope outer =>
    obtain ⟨sameRoot, inner, afterSame, binds⟩ := binds.nested scope outer same
    exact ⟨scope, inner, outer ++ [before.root], rfl, by rw [afterSame, sameRoot]; rfl, binds⟩

theorem renamed? (binds : before.Binds names after) : after.renamed? = before.renamed? := by
  obtain ⟨scope, inner, outer, beforeScopes, afterScopes, binds⟩ := binds.scopes
  funext name
  unfold Expander.renamed? Frame.label?
  rw [beforeScopes, afterScopes, List.findSome?_cons, List.findSome?_cons, binds.labels]

theorem meaning? (binds : before.Binds names after) {name : String} (kept : name ∉ names) :
    after.meaning? name = before.meaning? name := by
  obtain ⟨scope, inner, outer, beforeScopes, afterScopes, innermost⟩ := binds.scopes
  have sameBinding : after.binding? name = before.binding? name := by
    unfold Expander.binding? Frame.binding?
    rw [beforeScopes, afterScopes, List.findSome?_cons, List.findSome?_cons,
      (innermost.bindings name).resolve_right fun anew => kept anew.1]
  unfold Expander.meaning? findMacro?
  rw [sameBinding, binds.constants, binds.macros]

theorem frame_eq_nil (binds : before.Binds names after) : after.frame = [] ↔ before.frame = [] := by
  cases same : before.frame with
  | nil => simp [binds.outermost same]
  | cons scope outer =>
    obtain ⟨-, inner, afterSame, -⟩ := binds.nested scope outer same
    simp [afterSame]

theorem isSome_binding? (binds : before.Binds names after) {name : String}
    (bound : (Frame.binding? before.frame name).isSome) :
    (Frame.binding? after.frame name).isSome := by
  cases same : before.frame with
  | nil =>
    rw [same] at bound
    cases bound
  | cons scope outer =>
    obtain ⟨-, inner, afterSame, innermost⟩ := binds.nested scope outer same
    rw [same, Frame.isSome_binding?_cons] at bound
    rw [afterSame, Frame.isSome_binding?_cons]
    refine bound.imp_left fun here => ?_
    rcases innermost.bindings name with kept | ⟨-, anew⟩
    · rw [kept]
      exact here
    · exact anew

end Expander.Binds

theorem Expander.isSome_binding?_withBinding (state : Expander) (inside : state.frame ≠ [])
    (name : String) (bound : Bound) :
    (Frame.binding? (state.withBinding name bound).frame name).isSome := by
  obtain ⟨table, macros, constants, expansions, root, frame, notices⟩ := state
  cases frame with
  | nil => exact absurd rfl inside
  | cons scope outer =>
    refine Frame.isSome_binding?_cons.mpr (.inl ?_)
    rw [Association.get?_set, if_pos rfl]
    rfl

/-! ### Runs -/

theorem Expands.binds {task : Task} {trace : Trace}
    (expands : Expands before task results trace after) :
    before.Binds task.declaredNames after := by
  induction expands with
  | nothing | literalLabel | localLabel | definition | skip | trap => exact .refl _
  | statements _ _ first rest => exact first.trans rest
  | sequence _ _ ih => exact ih
  | call _ ih => exact ih
  | macroInstruction _ ih => exact ih
  | instruction _ _ _ uses => exact .ofUses uses
  | operand _ uses => exact .ofUses uses
  | templateLabel state =>
    have same : state.Binds [] state := .refl state
    exact ⟨same.macros, same.constants, same.outermost, same.nested⟩
  | constant origin binding uses =>
    have used : Expander.Binds [] _ _ := .ofUses uses
    exact used.trans (.withBinding _ binding.name _)
  | conditional origin predicate _ _ first second => exact first.trans second
  | invocation _ _ opens _ inside =>
    rename_i before opened after _ _ captured _ scope _ _ _ _ _
    obtain ⟨sameRoot, -⟩ := inside.nested scope captured rfl
    have same : before.Binds [] before := .refl before
    have openedMacros : opened.macros = before.macros := by rw [opens.rest]
    have openedConstants : opened.constants = before.constants := by rw [opens.rest]
    have openedRoot : opened.root = before.root := by rw [opens.rest]
    have root : after.root = before.root := sameRoot.trans openedRoot
    refine ⟨inside.macros.trans openedMacros, inside.constants.trans openedConstants, ?_, ?_⟩
    · exact fun empty => ⟨empty, by rw [root]; exact .refl _⟩
    · exact fun innermost outer frame => ⟨root, innermost, frame, .refl _⟩

theorem Expands.bound {task : Task} {trace : Trace}
    (expands : Expands before task results trace after) (inside : before.frame ≠ []) :
    ∀ name ∈ task.declaredNames, (Frame.binding? after.frame name).isSome := by
  induction expands with
  | statements first rest firstIh restIh =>
    refine forall_mem_append.mpr ⟨fun name mem => ?_, restIh ?_⟩
    · exact rest.binds.isSome_binding? (firstIh inside name mem)
    · exact fun empty => inside (first.binds.frame_eq_nil.mp empty)
  | conditional _ _ first second firstIh secondHypothesis =>
    refine forall_mem_append.mpr ⟨fun name mem => ?_, secondHypothesis ?_⟩
    · exact second.binds.isSome_binding? (firstIh inside name mem)
    · exact fun empty => inside (first.binds.frame_eq_nil.mp empty)
  | sequence _ _ ih => exact ih inside
  | call | macroInstruction | invocation | nothing | instruction | literalLabel | templateLabel
  | localLabel | definition | skip | trap => exact nofun
  | operand isOperand =>
    rw [Task.declaredNames, Node.declaredNames_of_isOperand isOperand]
    exact nofun
  | @constant before middle _ result _ binding uses =>
    intro name mem
    obtain rfl := mem_singleton.mp mem
    have middleInside : middle.frame ≠ [] := by
      rw [uses.rest]
      exact inside
    exact middle.isSome_binding?_withBinding middleInside _ _

/-- Whether an operand was resolved as its state tells, in a state that a run may reach from another
one by binding names. -/
structure Resolution.ComesFrom (names : List String) (before : Expander) (resolution : Resolution) :
    Prop where
  binds : before.Binds names resolution.state
  resolves : Resolves resolution.state.meaning? resolution.state.renamed? resolution.written
    resolution.result

theorem Resolution.ComesFrom.later {others : List String} {middle : Expander}
    {resolution : Resolution} (comes : resolution.ComesFrom others middle)
    (binds : before.Binds names middle) : resolution.ComesFrom (names ++ others) before :=
  ⟨binds.trans comes.binds, comes.resolves⟩

theorem Resolution.ComesFrom.append_left {others : List String}
    {resolution : Resolution} (comes : resolution.ComesFrom names before) :
    resolution.ComesFrom (names ++ others) before :=
  ⟨comes.binds.append_left, comes.resolves⟩

theorem comesFrom_ofOperands {state : Expander} {written : List Node}
    (resolved : List.Forall₂ (Resolves state.meaning? state.renamed?) written results) :
    ∀ resolution ∈ (Trace.ofOperands state written results).resolutions,
      resolution.ComesFrom names state := by
  induction resolved with
  | nil => simp [Trace.ofOperands]
  | cons resolves _ ih =>
    simp only [Trace.ofOperands, List.zipWith_cons_cons, forall_mem_cons]
    exact ⟨⟨.refl state, resolves⟩, ih⟩

theorem comesFrom_ofArguments {state : Expander} {written : List Node}
    {arguments : List Bound} (evaluated : List.Forall₂ state.Evaluates written arguments) :
    ∀ resolution ∈ Trace.ofArguments state written arguments, resolution.ComesFrom names state := by
  induction evaluated with
  | nil => simp [Trace.ofArguments]
  | @cons _ argument _ _ evaluates _ ih =>
    intro resolution mem
    simp only [Trace.ofArguments, List.zipWith_cons_cons, filterMap_cons, id] at mem
    cases evaluates with
    | closure => exact ih resolution mem
    | bound meaning =>
      cases argument with
      | closure => exact ih resolution mem
      | operand node =>
        rcases mem_cons.mp mem with rfl | mem
        · exact ⟨.refl state, .bound meaning⟩
        · exact ih resolution mem
    | operand resolves =>
      rcases mem_cons.mp mem with rfl | mem
      · exact ⟨.refl state, resolves⟩
      · exact ih resolution mem

/-- Every operand that a run resolves where it started is resolved in the scopes it started in, up
to the names that its task declares. -/
theorem Expands.resolved {task : Task}
    {trace : Trace} (expands : Expands before task results trace after) :
    ∀ resolution ∈ trace.resolutions, resolution.ComesFrom task.declaredNames before := by
  induction expands with
  | nothing | literalLabel | templateLabel | localLabel | definition | skip | trap =>
    exact fun _ mem => nomatch mem
  | statements first _ firstIh restIh =>
    intro resolution mem
    rcases mem_append.mp mem with early | late
    · exact (firstIh resolution early).append_left
    · exact (restIh resolution late).later first.binds
  | sequence _ _ ih => exact ih
  | call _ ih => exact ih
  | macroInstruction _ ih => exact ih
  | instruction _ _ _ _ resolves => exact comesFrom_ofOperands resolves
  | operand _ _ resolves => exact comesFrom_ofOperands (.cons resolves .nil)
  | constant _ _ _ resolves => exact comesFrom_ofOperands (.cons resolves .nil)
  | conditional _ _ first _ firstIh secondHypothesis =>
    intro resolution mem
    rcases mem_append.mp mem with early | late
    · exact (firstIh resolution early).append_left
    · exact (secondHypothesis resolution late).later first.binds
  | invocation _ _ opens => exact comesFrom_ofArguments opens.evaluated

/-- Resolving the constants of a unit leaves the scopes, the macros and the symbols alone. -/
theorem Expander.Declares.rest {items : List Node}
    {parts : List (Node ⊕ Node)} (declares : before.Declares items parts after) :
    after.frame = before.frame ∧ after.root = before.root ∧ after.macros = before.macros ∧
      after.table.symbols = before.table.symbols := by
  induction declares with
  | nothing => exact ⟨rfl, rfl, rfl, rfl⟩
  | constant _ _ _ uses _ _ ih =>
    obtain ⟨frame, root, macros, symbols⟩ := ih
    have usesFrame : _ = _ := congrArg Expander.frame uses.rest
    have usesRoot : _ = _ := congrArg Expander.root uses.rest
    have usesMacros : _ = _ := congrArg Expander.macros uses.rest
    exact ⟨frame.trans usesFrame, root.trans usesRoot, macros.trans usesMacros,
      symbols.trans uses.table.symbols⟩
  | other _ _ ih => exact ih

end MacroAssembler
