/-
This module expands units in front of which macros were put.

The macros of a unit are collected before anything is expanded, so what stands in front of it is
known everywhere in it. If the unit defines none of the added macros itself and asks for none of
them, it is expanded as it is by itself: the added definitions are statements without a result, and
all that is left of them are the macros that the states know in addition. If the unit does define
one of them, it is not expanded at all: the definition that comes second is reported.
-/
import MacroAssembler.Proofs.FoldExpand
import MacroAssembler.Proofs.ForgetfulExpansion
import MacroAssembler.Proofs.PlacelessLoading
import MacroAssembler.Proofs.ResemblingTables
import MacroAssembler.Proofs.UnitStates

namespace MacroAssembler

open Action Expander List Node

variable {names : List String}

/-- Whether a unit is another one with macros in front that have different names, all of them among
some names. -/
structure Node.Extends (names : List String) (added : List Definition) (tree other : Node) :
    Prop where
  named : ∀ definition ∈ added, ∃ name ∈ names, definition.name = .text name
  distinct : added.Pairwise fun first second => first.name ≠ second.name
  statements : other.statements = added.map Definition.node ++ tree.statements

/-! ### Forgetting macros -/

/-- Locations other than those of traps are forgotten, and so are the macros of some names. -/
abbrev Forgetting.ofMacros (names : List String) : Forgetting where
  fails := Failure.Any
  tables table other := other.placeless = other ∧ table.Resembles other
  traps := id
  hidden := names

theorem Label.placeless_eq {mark other : Label} (same : mark.name = other.name) :
    mark.placeless = other.placeless := by
  rw [Label.placeless, Label.placeless, same]

theorem LocalLabel.placeless_eq {mark other : LocalLabel} (same : mark.name = other.name) :
    mark.placeless = other.placeless := by
  rw [LocalLabel.placeless, LocalLabel.placeless, same]

instance : (Forgetting.ofMacros names).Lawful where
  tolerates _ _ _ _ := trivial
  labelReference := by
    rintro table other ⟨placeless, resembles⟩ name origin offset
    have same := other.labelReference_placeless name .nowhere offset
    rw [placeless] at same
    refine ⟨?_, (congrArg Prod.snd same).symm, resembles.labelReference name origin _ offset⟩
    have names : (other.label name .nowhere).1.placeless = (table.label name origin).1.placeless :=
      Label.placeless_eq (by rw [SymbolTable.label_name, SymbolTable.label_name])
    exact (congrArg Prod.fst same).trans (congrArg (Node.labelReference _ · offset) names)
  defineLabel := by
    rintro table other ⟨placeless, resembles⟩ name origin
    have same := other.defineLabel_placeless name .nowhere
    rw [placeless] at same
    refine ⟨(congrArg Prod.fst same).trans (Label.placeless_eq ?_), (congrArg Prod.snd same).symm,
      resembles.defineLabel name origin _⟩
    rw [SymbolTable.defineLabel_name, SymbolTable.defineLabel_name]
  freshLocalLabel := by
    rintro table other ⟨placeless, resembles⟩ comment origin
    have same := other.freshLocalLabel_placeless .nowhere comment
    have draws := resembles.freshLocalLabel comment origin .nowhere
    rw [placeless] at same
    exact ⟨(congrArg Prod.fst same).trans (LocalLabel.placeless_eq draws.1),
      (congrArg Prod.snd same).symm, draws.2⟩
  hides _ _ _ := trivial

namespace Expander

/-- Whether the same is left of two states when the macros of some names are forgotten. -/
def Resembles (names : List String) (state other : Expander) : Prop :=
  ∃ left, state.Forgets (.ofMacros names) left ∧ other.Forgets (.ofMacros names) left

variable {state : Expander} {parameters items : List Node} {origin : Origin} {name : Value}
  {body : Node} {key : Name}

theorem Resembles.table {other : Expander} (resembles : state.Resembles names other) :
    state.table.Resembles other.table := by
  obtain ⟨_, here, there⟩ := resembles
  exact here.table.2.trans there.table.2.symm

/-- Whether two steps, from states of which the same is left, both fail or have related results and
leave states of which the same is left. -/
abbrev Shadows {α β : Type} (names : List String) (results : α → β → Prop) (first : Expand α)
    (second : Expand β) : Prop :=
  Action.Corresponds Failure.Any (Expander.Resembles names) results first second

theorem shadows_of_parallels {α β γ : Type} {results : α → γ → Prop} {otherResults : β → γ → Prop}
    {wanted : α → β → Prop} {first : Expand α} {second : Expand β} {left : Expand γ}
    (parallels : Parallels (.ofMacros names) results first left)
    (otherParallels : Parallels (.ofMacros names) otherResults second left)
    (values : ∀ value other common, results value common → otherResults other common →
      wanted value other) : Shadows names wanted first second :=
  parallels.meet (fun _ _ resembles => resembles) (fun _ _ left here there => ⟨left, here, there⟩)
    values (fun _ _ _ _ _ => trivial) otherParallels

/-! ### Collecting macros -/

theorem collectMacros_unnamed {item : Node} (unnamed : item.isNamed = false) (rest : List Node) :
    collectMacros (item :: rest) = collectMacros rest := by
  cases item with
  | definition origin name parameters body =>
    cases name with
    | null => rfl
    | _ => cases unnamed
  | _ => rfl

theorem collectMacros_named (named : (Node.definition origin name parameters body).isNamed)
    (rest : List Node) :
    collectMacros (.definition origin name parameters body :: rest) = (do
      let key ← name.toName
      match (← get).findMacro? key with
      | some first => report (.macroRedefined name.display first.origin.text) origin
      | none =>
        modify fun state =>
          { state with macros := state.macros ++ [(key, ⟨origin, name, parameters, body⟩)] }
        collectMacros rest) := by
  cases name with
  | null => cases named
  | _ => rfl

theorem collected?_named (named : (Node.definition origin name parameters body).isNamed)
    (spelled : name.toName = .ok key) : collected? (.definition origin name parameters body) =
      some (key, ⟨origin, name, parameters, body⟩) := by
  have present : name.isNull = false := by simpa [isNamed] using named
  simp [collected?, present, toName_ok.mp spelled]

theorem perform_collectMacros_named
    (named : (Node.definition origin name parameters body).isNamed)
    (spelled : name.toName = .ok key) (rest : List Node) (state : Expander) :
    (collectMacros (.definition origin name parameters body :: rest)).perform state =
      match state.findMacro? key with
      | some first => (.error (.diagnostic
          ⟨.macroRedefined name.display first.origin.text, some origin, none⟩), state)
      | none => (collectMacros rest).perform
          { state with macros := state.macros ++ [(key, ⟨origin, name, parameters, body⟩)] } := by
  rw [collectMacros_named named, spelled, lift_ok, pure_bind, perform_bind, perform_get]
  dsimp only
  cases state.findMacro? key <;> rfl

theorem collected?_some {stmt : Node} {entry : Name × Definition}
    (kept : collected? stmt = some entry) :
    stmt = entry.2.node ∧ entry.2.name.toName = .ok entry.1 := by
  cases stmt with
  | definition origin name parameters body =>
    simp only [collected?, Option.ite_none_left_eq_some, Option.map_eq_some_iff] at kept
    obtain ⟨-, key, spelled, rfl⟩ := kept
    exact ⟨rfl, toName_ok.mpr spelled⟩
  | _ => cases kept

theorem eq_text_of_toName {value : Value} {name : String}
    (spelled : value.toName = .ok (.text name)) : value = .text name := by
  have same := toName_ok.mp spelled
  cases value with
  | text => exact congrArg Value.text (Name.text.inj (Option.some.inj same))
  | list | object => cases same
  | _ => cases Option.some.inj same

theorem collectMacros_append (first second : List Node) :
    collectMacros (first ++ second) = collectMacros first >>= fun _ => collectMacros second := by
  induction first with
  | nil => rfl
  | cons item rest ih =>
    rw [cons_append]
    by_cases named : item.isNamed
    · cases item with
      | definition origin name parameters body =>
        rw [collectMacros_named named, collectMacros_named named, bind_assoc]
        refine congrArg _ (funext fun key => ?_)
        rw [bind_assoc]
        refine congrArg _ (funext fun state => ?_)
        cases state.findMacro? key with
        | some => rfl
        | none => rw [ih, bind_assoc]
      | _ => cases named
    · rw [Bool.not_eq_true] at named
      rw [collectMacros_unnamed named, collectMacros_unnamed named, ih]

theorem collectMacros_added {added : List Definition}
    (named : ∀ definition ∈ added, ∃ name, definition.name = .text name)
    (distinct : added.Pairwise fun first second => first.name ≠ second.name)
    (unknown : ∀ definition ∈ added, ∀ entry ∈ state.macros, entry.1.toValue ≠ definition.name) :
    ∃ after, (collectMacros (added.map Definition.node)).perform state = (.ok (), after) := by
  induction added generalizing state with
  | nil => exact ⟨state, rfl⟩
  | cons definition rest ih =>
    obtain ⟨⟨name, spelled⟩, others⟩ := forall_mem_cons.mp named
    obtain ⟨apart, distinctOthers⟩ := pairwise_cons.mp distinct
    obtain ⟨own, unknownOthers⟩ := forall_mem_cons.mp unknown
    have missing : state.findMacro? (.text name) = none := by
      unfold Expander.findMacro?
      rw [Option.map_eq_none_iff, find?_eq_none]
      intro entry mem same
      refine own entry mem ?_
      rw [Name.eq_text_of_key (of_decide_eq_true same), spelled]
      rfl
    obtain ⟨after, collects⟩ := @ih
      { state with macros := state.macros ++ [(.text name, definition)] } others distinctOthers
      (by
        intro other mem entry known
        rcases mem_append.mp known with before | new
        · exact unknownOthers other mem entry before
        · rw [mem_singleton.mp new]
          have different := apart other mem
          rwa [spelled] at different)
    obtain ⟨origin, value, parameters, body⟩ := definition
    obtain rfl : value = .text name := spelled
    refine ⟨after, ?_⟩
    have spelledName : Value.toName (.text name) = .ok (.text name) := rfl
    rw [map_cons, Definition.node, perform_collectMacros_named rfl spelledName, missing]
    exact collects

theorem spelled_of_collectMacros {after : Expander}
    (collects : (collectMacros items).perform state = (.ok (), after)) {definition : Definition}
    (mem : definition.node ∈ items) (present : definition.name.isNull = false) :
    ∃ key, definition.name.toName = .ok key := by
  induction items generalizing state with
  | nil => cases mem
  | cons item rest ih =>
    by_cases named : item.isNamed
    · cases item with
      | definition origin name parameters body =>
        cases spelled : name.toName with
        | error failure =>
          rw [collectMacros_named named, spelled, perform_bind] at collects
          cases collects
        | ok key =>
          rcases mem_cons.mp mem with first | later
          · cases first
            exact ⟨key, spelled⟩
          · rw [perform_collectMacros_named named spelled] at collects
            split at collects
            · cases collects
            · exact ih collects later
      | _ => cases named
    · rw [Bool.not_eq_true] at named
      rw [collectMacros_unnamed named] at collects
      rcases mem_cons.mp mem with rfl | later
      · simp [Definition.node, isNamed, present] at named
      · exact ih collects later

/-- A unit that has macros apart from the hidden ones, and whose macros spare those, is collected
alike. -/
theorem shadows_collectMacros (apart : ∀ entry ∈ items.filterMap collected?,
      entry.2.body.Spares names ∧ ∀ name ∈ names, entry.1 ≠ .text name) :
    Shadows names (fun _ _ => True) (collectMacros items) (collectMacros items) :=
  shadows_of_parallels (parallels_collectMacros apart) (parallels_collectMacros apart)
    fun _ _ _ _ _ => trivial

/-- A unit that defines one of the macros that are known before is refused: the definition that
comes second is reported. -/
theorem collectMacros_redefined {added : List (Name × Definition)} {after other : Expander}
    (known : other.macros = added ++ state.macros)
    (named : ∀ entry ∈ added, ∃ name, entry.1 = .text name)
    (collects : (collectMacros items).perform state = (.ok (), after))
    (clash : ∃ entry ∈ items.filterMap collected?, ∃ first ∈ added, first.1 = entry.1) :
    ∃ first ∈ added, ∃ name origin parameters body, first.1 = .text name ∧
      .definition origin (.text name) parameters body ∈ items ∧
      ((collectMacros items).perform other).1 =
        .error (.diagnostic ⟨.macroRedefined name first.2.origin.text, some origin, none⟩) := by
  induction items generalizing state other with
  | nil => simp at clash
  | cons item rest ih =>
    by_cases isNamed : item.isNamed
    · cases item with
      | definition origin value parameters body =>
        cases spelled : value.toName with
        | error failure =>
          rw [collectMacros_named isNamed, spelled, perform_bind] at collects
          cases collects
        | ok key =>
          rw [perform_collectMacros_named isNamed spelled] at collects
          rw [filterMap_cons_some (collected?_named isNamed spelled)] at clash
          cases missing : state.findMacro? key with
          | some first =>
            rw [missing] at collects
            cases collects
          | none =>
            rw [missing] at collects
            have unknown := Option.map_eq_none_iff.mp missing
            cases found : added.find? fun entry => decide (entry.1.key = key.key) with
            | some first =>
              -- This is the first definition of an added macro.
              obtain ⟨name, firstNamed⟩ := named first (mem_of_find?_eq_some found)
              have matching := find?_some found
              have sameKey := of_decide_eq_true matching
              rw [firstNamed] at sameKey
              obtain rfl := Name.eq_text_of_key sameKey.symm
              obtain rfl := eq_text_of_toName spelled
              have knownBefore : other.findMacro? (.text name) = some first.2 := by
                unfold Expander.findMacro?
                rw [known, find?_append, found]
                rfl
              refine ⟨first, mem_of_find?_eq_some found, name, origin, parameters, body,
                firstNamed, mem_cons_self, ?_⟩
              rw [perform_collectMacros_named isNamed spelled, knownBefore]
              rfl
            | none =>
              have unknownThere : other.findMacro? key = none := by
                unfold Expander.findMacro?
                rw [known, find?_append, found, unknown]
                rfl
              have later : ∃ entry ∈ rest.filterMap collected?, ∃ first ∈ added,
                  first.1 = entry.1 := by
                obtain ⟨entry, mem, first, isAdded, same⟩ := clash
                rcases mem_cons.mp mem with rfl | mem
                · exact absurd (by simp [same]) (find?_eq_none.mp found first isAdded)
                · exact ⟨entry, mem, first, isAdded, same⟩
              have knownLater : other.macros ++ [(key, ⟨origin, value, parameters, body⟩)] =
                  added ++ (state.macros ++ [(key, ⟨origin, value, parameters, body⟩)]) := by
                rw [known, append_assoc]
              rw [perform_collectMacros_named isNamed spelled, unknownThere]
              obtain ⟨first, mem, name, place, others, inside, same, defined, reported⟩ :=
                @ih _ { other with macros := _ } knownLater collects later
              exact ⟨first, mem, name, place, others, inside, same,
                mem_cons_of_mem _ defined, reported⟩
      | _ => cases isNamed
    · rw [Bool.not_eq_true] at isNamed
      rw [filterMap_cons_none (collected?_eq_none isNamed)] at clash
      rw [collectMacros_unnamed isNamed] at collects ⊢
      obtain ⟨first, mem, name, origin, parameters, body, same, defined, reported⟩ :=
        ih known collects clash
      exact ⟨first, mem, name, origin, parameters, body, same, mem_cons_of_mem _ defined, reported⟩

/-! ### Units -/

/-- Whether the same is left of what two units are made of when their constants are resolved, and
their other statements spare some names. -/
structure PartsAlike (names : List String) (parts others : List (Node ⊕ Node)) : Prop where
  same : others.map (strippedPart id) = parts.map (strippedPart id)
  spares : ∀ item, .inr item ∈ parts → item.Spares names
  otherSpares : ∀ item, .inr item ∈ others → item.Spares names

theorem shadows_resolveConstants (spares : ∀ item ∈ items, item.Spares names) :
    Shadows names (PartsAlike names) (resolveConstants items) (resolveConstants items) := by
  have resolves := @parallels_resolveConstants (.ofMacros names) _ items spares
  exact shadows_of_parallels resolves resolves fun _ _ _ here there =>
    ⟨there.1.symm.trans here.1, here.2, there.2⟩

theorem shadows_expandUnit (limit : Int) (depth : Nat) {parts others : List (Node ⊕ Node)}
    (alike : PartsAlike names parts others) :
    Shadows names (Alike (List.map unlocated)) (expandUnit (invoke limit depth) parts)
      (expandUnit (invoke limit depth) others) := by
  have here := @parallels_expandUnit (.ofMacros names) _ limit depth parts alike.spares
  have there := @parallels_expandUnit (.ofMacros names) _ limit depth others alike.otherSpares
  rw [alike.same] at there
  refine shadows_of_parallels here there fun _ _ _ first second => ?_
  have same : unlocated = stripped id := funext unlocated_eq
  rw [Alike, same]
  exact second.symm.trans first

theorem expandItems_added {invoke : Invocation → Expand (List Node)} {added : List Definition}
    (named : ∀ definition ∈ added, ∃ name, definition.name = .text name)
    (outside : state.frame = []) :
    (expandItems invoke (added.map Definition.node)).perform state = (.ok [], state) := by
  induction added with
  | nil => rfl
  | cons definition rest ih =>
    obtain ⟨⟨name, spelled⟩, others⟩ := forall_mem_cons.mp named
    rw [map_cons, expandItems]
    refine perform_bind_ok.mpr ⟨[], state, ?_, ?_⟩
    · rw [Definition.node, spelled, expandNode]
      refine perform_bind_ok.mpr ⟨state, state, rfl, ?_⟩
      rw [outside]
      rfl
    · exact perform_bind_ok.mpr ⟨[], state, ih others, rfl⟩

variable {limit : Int} {added : List Definition} {tree other expanded : Node}
  {table otherTable : SymbolTable} {after : Expander}

/-- The state that knows the added macros resembles the one that knows none. -/
theorem exists_collected (extended : tree.Extends names added other)
    (tables : table.Resembles otherTable) : ∃ collected : Expander,
      (collectMacros (added.map Definition.node)).perform { table := otherTable } =
        (.ok (), collected) ∧
      Expander.Resembles names { table := table } collected ∧
      ∀ entry ∈ collected.macros, ∃ name ∈ names, entry.1 = .text name ∧ entry.2 ∈ added := by
  have texts : ∀ definition ∈ added, ∃ name, definition.name = .text name :=
    fun definition mem => (extended.named definition mem).imp fun _ named => named.2
  obtain ⟨collected, collects⟩ := @collectMacros_added { table := otherTable } added texts
    extended.distinct (by simp)
  have same := collectMacros_ok collects
  have hidden : ∀ entry ∈ collected.macros,
      ∃ name ∈ names, entry.1 = .text name ∧ entry.2 ∈ added := by
    rw [same]
    intro entry mem
    obtain ⟨_, inside, kept⟩ := mem_filterMap.mp mem
    obtain ⟨definition, isAdded, rfl⟩ := mem_map.mp inside
    obtain ⟨name, isName, spelled⟩ := extended.named definition isAdded
    rw [Definition.node, spelled] at kept
    obtain rfl := Option.some.inj kept
    exact ⟨name, isName, rfl, spelled ▸ isAdded⟩
  have initial : Related (Forgetting.ofMacros names).comparison { table := otherTable }
      { table := table.placeless } := .initial
  refine ⟨collected, collects, ⟨{ table := table.placeless }, .initial ?_, ⟨?_, ?_, ?_, ?_⟩, ?_, ?_⟩,
    hidden⟩
  · exact ⟨table.placeless_placeless, table.resembles_placeless⟩
  · rw [same]
    exact initial.frame
  · rw [same]
    exact initial.root
  · rw [same]
    exact initial.constants
  · intro key shown
    have missing : collected.findMacro? key = none := by
      unfold Expander.findMacro?
      rw [Option.map_eq_none_iff, find?_eq_none]
      intro entry mem sameKey
      obtain ⟨name, isName, named, -⟩ := hidden entry mem
      rw [named] at sameKey
      exact shown name isName (Name.eq_text_of_key (of_decide_eq_true sameKey).symm)
    rw [missing]
    exact .none
  · rw [same]
    exact ⟨table.placeless_placeless, tables.symm.trans table.resembles_placeless⟩
  · rintro rfl
    have none : collected.macros = [] := List.eq_nil_iff_forall_not_mem.mpr fun entry mem => by
      obtain ⟨name, isName, -⟩ := hidden entry mem
      cases isName
    rw [none]

/-- Macros that a unit neither defines nor asks for make no difference to what it is expanded
to. -/
theorem expand_extended (extended : tree.Extends names added other)
    (tables : table.Resembles otherTable) (spares : ∀ stmt ∈ tree.statements, stmt.Spares names)
    (undefined : ∀ name ∈ names, ¬ tree.DefinesMacro name)
    (ran : (expand limit tree).perform { table := table } = (.ok expanded, after)) :
    ∃ otherExpanded otherAfter,
      (expand limit other).perform { table := otherTable } = (.ok otherExpanded, otherAfter) ∧
      Alike unlocated expanded otherExpanded ∧ after.table.Resembles otherAfter.table := by
  have texts : ∀ definition ∈ added, ∃ name, definition.name = .text name :=
    fun definition mem => (extended.named definition mem).imp fun _ named => named.2
  have apart : ∀ entry ∈ tree.statements.filterMap collected?,
      entry.2.body.Spares names ∧ ∀ name ∈ names, entry.1 ≠ .text name := by
    intro entry mem
    obtain ⟨_, inside, kept⟩ := mem_filterMap.mp mem
    obtain ⟨rfl, spelled⟩ := collected?_some kept
    refine ⟨(spares _ inside).below (by simp [Definition.node, children]), ?_⟩
    intro name isName same
    rw [same] at spelled
    have named := eq_text_of_toName spelled
    rw [Definition.node, named] at inside
    exact undefined name isName ⟨_, _, _, inside⟩
  simp only [expand, note, perform_bind_ok, perform_modify, perform_get, perform_pure,
    Prod.mk.injEq, Except.ok.injEq, true_and] at ran
  obtain ⟨_, _, rfl, _, collected, collects, parts, declared, resolves, results, final, expands,
    _, _, ⟨rfl, rfl⟩, _, _, rfl, rfl, rfl⟩ := ran
  obtain ⟨start, addedCollects, initially, -⟩ := exists_collected extended tables
  obtain ⟨_, otherCollected, otherCollects, -, states⟩ :=
    (shadows_collectMacros apart).follows initially collects
  obtain ⟨otherParts, otherDeclared, otherResolves, sameParts, declaredStates⟩ :=
    (shadows_resolveConstants spares).follows states resolves
  obtain ⟨otherResults, otherFinal, otherExpands, sameResults, finalStates⟩ :=
    (shadows_expandUnit limit _ sameParts).follows declaredStates expands
  have outside : otherDeclared.frame = [] := by
    rw [(resolveConstants_ok otherResolves).rest.1, collectMacros_ok otherCollects,
      collectMacros_ok addedCollects]
  have notConstant : ∀ item ∈ added.map Definition.node, item.isConstant = false := by
    intro item mem
    obtain ⟨definition, -, rfl⟩ := mem_map.mp mem
    rfl
  refine ⟨.sequence other.origin otherResults, { otherFinal with
    notices := otherFinal.notices ++ [.expanded otherFinal.expansions otherFinal.macros.length
      otherFinal.constants.length] }, ?_, ?_, finalStates.table⟩
  · unfold expand
    rw [extended.statements, collectMacros_append, resolveConstants_pieces notConstant]
    refine perform_bind_ok.mpr ⟨(), { table := otherTable }, rfl, ?_⟩
    refine perform_bind_ok.mpr ⟨(), otherCollected,
      perform_bind_ok.mpr ⟨(), start, addedCollects, otherCollects⟩, ?_⟩
    refine perform_bind_ok.mpr ⟨(added.map Definition.node).map .inr ++ otherParts, otherDeclared,
        perform_bind_ok.mpr ⟨otherParts, otherDeclared, otherResolves, rfl⟩, ?_⟩
    rw [expandUnit_pieces]
    refine perform_bind_ok.mpr ⟨otherResults, otherFinal, ?_, rfl⟩
    refine perform_bind_ok.mpr ⟨[], otherDeclared, expandItems_added texts outside, ?_⟩
    exact perform_bind_ok.mpr ⟨otherResults, otherFinal, otherExpands, rfl⟩
  · rw [Alike, unlocated, unlocated, unlocatedAll_eq_map, unlocatedAll_eq_map, sameResults]

theorem expand_same (tables : table.Resembles otherTable)
    (ran : (expand limit tree).perform { table := table } = (.ok expanded, after)) :
    ∃ otherExpanded otherAfter,
      (expand limit tree).perform { table := otherTable } = (.ok otherExpanded, otherAfter) ∧
      Alike unlocated expanded otherExpanded ∧ after.table.Resembles otherAfter.table := by
  have unchanged : tree.Extends [] [] tree := ⟨nofun, .nil, rfl⟩
  exact expand_extended unchanged tables (fun _ _ _ _ _ _ => not_mem_nil) nofun ran

theorem expand_redefined (extended : tree.Extends names added other)
    (tables : table.Resembles otherTable)
    (defined : ∃ definition ∈ added, ∃ name, definition.name = .text name ∧ tree.DefinesMacro name)
    (ran : (expand limit tree).perform { table := table } = (.ok expanded, after)) :
    ∃ definition ∈ added, ∃ name ∈ names, tree.DefinesMacro name ∧ ∃ place,
      ((expand limit other).perform { table := otherTable }).1 = .error (.diagnostic
        ⟨.macroRedefined name definition.origin.text, some place, none⟩) := by
  simp only [expand, perform_bind_ok, perform_modify, Prod.mk.injEq, true_and] at ran
  obtain ⟨_, _, rfl, _, collected, collects, -⟩ := ran
  obtain ⟨start, addedCollects, initially, hidden⟩ := exists_collected extended tables
  have clash : ∃ entry ∈ tree.statements.filterMap collected?, ∃ first ∈ start.macros,
      first.1 = entry.1 := by
    obtain ⟨definition, isAdded, name, spelled, origin, parameters, body, inside⟩ := defined
    refine ⟨(.text name, ⟨origin, .text name, parameters, body⟩),
      mem_filterMap.mpr ⟨_, inside, rfl⟩, (.text name, definition), ?_, rfl⟩
    rw [collectMacros_ok addedCollects]
    refine mem_filterMap.mpr ⟨definition.node, mem_map_of_mem isAdded, ?_⟩
    obtain ⟨_, value, _, _⟩ := definition
    obtain rfl : value = .text name := spelled
    rfl
  obtain ⟨first, mem, name, place, parameters, body, named, inside, reported⟩ :=
    @collectMacros_redefined { table := table } _ _ _ start (by simp) (fun entry mem =>
      (hidden entry mem).imp fun _ known => known.2.1) collects clash
  obtain ⟨hiddenName, isName, hiddenNamed, isAdded⟩ := hidden first mem
  rw [named] at hiddenNamed
  obtain rfl := Name.text.inj hiddenNamed
  refine ⟨first.2, isAdded, name, isName, ⟨place, parameters, body, inside⟩, place, ?_⟩
  have refused := (@perform_bind_error _ _ _ _ _ _ (fun _ => collectMacros tree.statements) _).mpr
    (.inr ⟨(), start, addedCollects, perform_of_fst reported⟩)
  unfold expand
  rw [extended.statements, collectMacros_append]
  have starting : (modify fun state => { state with frame := [] } : Expand Unit).perform
      { table := otherTable } = (.ok (), { table := otherTable }) := rfl
  exact congrArg Prod.fst (perform_bind_error.mpr
    (.inr ⟨(), _, starting, perform_bind_error.mpr (.inl refused)⟩))

end Expander

end MacroAssembler
