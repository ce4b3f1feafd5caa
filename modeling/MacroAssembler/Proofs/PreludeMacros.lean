/-
This module writes the macros of the prelude out.

They are built step by step, and every name in them is interned on the way, so what stands in them
depends on the symbol table: a variable may be known already, with the location and the written name
of its first occurrence. A table keeps what it has interned. The finished macros can therefore be read
off the table at the end, whatever was in it before, and all that is open about them are locations and
written names.

Building them always succeeds. It interns their names and the templates of their entry labels, but
defines and uses none, so it leaves a table that resembles the one it found.
-/
import MacroAssembler.Proofs.Interning
import MacroAssembler.Proofs.ResemblingTables
import MacroAssembler.Width

namespace MacroAssembler

open List

/-! ### What a table has under a name -/

namespace SymbolTable

variable {table before middle after : SymbolTable} {name : String}

/-- Whether a table only grows, and by nothing that is known about a label. -/
structure Grows (before after : SymbolTable) : Prop where
  symbols : before.Extends after
  labels : before.labels <+: after.labels
  resembles : before.Resembles after

theorem Grows.refl (table : SymbolTable) : table.Grows table :=
  ⟨.refl table, prefix_refl _, .refl table⟩

theorem Grows.trans (first : before.Grows middle) (second : middle.Grows after) :
    before.Grows after :=
  ⟨first.symbols.trans second.symbols, List.IsPrefix.trans first.labels second.labels,
    first.resembles.trans second.resembles⟩

def variableOf (table : SymbolTable) (name : String) : Variable :=
  match table.find? (.var name) with
  | some (.var binding) => binding
  | _ => ⟨.nowhere, name, .null⟩

def settingOf (table : SymbolTable) (name : String) : Node :=
  match table.find? (.setting name) with
  | some (.setting origin _) => .setting origin name
  | _ => .setting .nowhere name

def labelOf (table : SymbolTable) (name : String) : Label :=
  ⟨((table.findLabel? (.text name)).map LabelEntry.origin).getD .nowhere, name⟩

variable {node : Node} {origin : Origin}

theorem symbolKey?_var :
    node.symbolKey? = some (.var name) ↔ ∃ binding, node = .var binding ∧ binding.name = name := by
  cases node with
  | register origin kind => cases kind <;> simp [Node.symbolKey?]
  | layout origin constant => cases constant <;> simp [Node.symbolKey?]
  | _ => simp [Node.symbolKey?]

theorem symbolKey?_setting :
    node.symbolKey? = some (.setting name) ↔ ∃ origin, node = .setting origin name := by
  cases node with
  | register origin kind => cases kind <;> simp [Node.symbolKey?]
  | layout origin constant => cases constant <;> simp [Node.symbolKey?]
  | _ => simp [Node.symbolKey?]

theorem symbolKey?_of_find? {key : SymbolKey} (found : table.find? key = some node) :
    node.symbolKey? = some key := by
  have matching := find?_some found
  exact of_decide_eq_true matching

@[simp]
theorem variableOf_name (table : SymbolTable) (name : String) :
    (table.variableOf name).name = name := by
  unfold variableOf
  split
  · rename_i binding found
    obtain ⟨_, same, named⟩ := symbolKey?_var.mp (symbolKey?_of_find? found)
    cases same
    exact named
  · rfl

theorem exists_settingOf (table : SymbolTable) (name : String) :
    ∃ origin, table.settingOf name = .setting origin name := by
  unfold settingOf
  split <;> exact ⟨_, rfl⟩

theorem grows_intern (table : SymbolTable) (node : Node)
    (apart : ∀ name, node.symbolKey? ≠ some (.localLabel name)) :
    table.Grows (table.intern node).2 := by
  refine ⟨extends_intern table node, ?_, resembles_intern table node apart⟩
  unfold intern
  split
  · exact prefix_refl _
  · split <;> exact prefix_refl _

theorem grows_label (table : SymbolTable) (name : String) (origin : Origin) :
    table.Grows (table.label name origin).2 := by
  refine ⟨extends_label name origin, ?_, resembles_label table name origin⟩
  unfold label
  split
  · exact prefix_refl _
  · unfold withLabel
    split
    · exact prefix_refl _
    · exact prefix_append _ _

theorem variableNamed_eq {writtenName : Value}
    (grows : (table.variableNamed name origin writtenName).2.Grows after) :
    (table.variableNamed name origin writtenName).1 = .var (after.variableOf name) := by
  have found := grows.symbols.find?
    (find?_intern (show (Node.var ⟨origin, name, writtenName⟩).symbolKey? = some (.var name) from rfl))
  obtain ⟨binding, same, -⟩ := symbolKey?_var.mp (symbolKey?_of_find? found)
  rw [show (table.variableNamed name origin writtenName).1 = .var binding from same]
  rw [same] at found
  rw [variableOf, found]

theorem setting_eq (grows : (table.setting name origin).2.Grows after) :
    (table.setting name origin).1 = after.settingOf name := by
  have found := grows.symbols.find?
    (find?_intern (show (Node.setting origin name).symbolKey? = some (.setting name) from rfl))
  obtain ⟨place, same⟩ := symbolKey?_setting.mp (symbolKey?_of_find? found)
  rw [show (table.setting name origin).1 = .setting place name from same]
  rw [same] at found
  rw [settingOf, found]

theorem label_eq (grows : (table.label name origin).2.Grows after) :
    (table.label name origin).1 = after.labelOf name := by
  obtain ⟨more, same⟩ := grows.labels
  have kept : ∀ entry, (table.label name origin).2.findLabel? (.text name) = some entry →
      after.labelOf name = ⟨entry.origin, name⟩ := by
    intro entry found
    have later : after.findLabel? (.text name) = some entry := by
      unfold findLabel? at found ⊢
      rw [← same, find?_append, found]
      rfl
    rw [labelOf, later]
    rfl
  unfold label at kept ⊢
  cases found : table.findLabel? (.text name) with
  | some entry =>
    rw [found] at kept
    exact (kept entry found).symm
  | none =>
    rw [found] at kept
    refine (kept ⟨.text name, origin, {}⟩ ?_).symm
    unfold findLabel? at found
    unfold withLabel findLabel?
    rw [found]
    simp [found]

theorem isTemplate_append {suffix : String} (template : isTemplate name = true) :
    isTemplate (name ++ suffix) = true := by
  simp only [isTemplate, String.toList_append, List.contains_eq_mem, mem_append,
    decide_eq_true_eq] at template ⊢
  exact .inl template

end SymbolTable

/-! ### Steps that build nodes -/

namespace Specialization

open SymbolTable

variable {α β : Type}

/-- Whether a step always succeeds, lets the table grow and gives something that is as ensured in
every later table. -/
def Builds (ensured : α → SymbolTable → Prop) (step : Build α) : Prop :=
  ∀ table, ∃ result after, step.perform table = (.ok result, after) ∧
    table.Grows after ∧ ∀ later, after.Grows later → ensured result later

def ReadOff (expected : SymbolTable → α) (result : α) (table : SymbolTable) : Prop :=
  result = expected table

namespace Builds

variable {ensured : α → SymbolTable → Prop} {nextEnsured : β → SymbolTable → Prop}

theorem pure {value : α} (holds : ∀ later, ensured value later) :
    Builds ensured (Pure.pure value : Build α) :=
  fun table => ⟨value, table, rfl, .refl table, fun later _ => holds later⟩

theorem bind {first : Build α} {next : α → Build β} (builds : Builds ensured first)
    (continues : ∀ value,
      Builds (fun result later => ensured value later → nextEnsured result later) (next value)) :
    Builds nextEnsured (first >>= next) := by
  intro table
  obtain ⟨value, middle, passed, grows, holds⟩ := builds table
  obtain ⟨result, after, last, growsLast, holdsLast⟩ := continues value middle
  refine ⟨result, after, Action.perform_bind_ok.mpr ⟨value, middle, passed, last⟩,
    grows.trans growsLast, fun later growsLater => ?_⟩
  exact holdsLast later growsLater (holds later (growsLast.trans growsLater))

theorem mapM {items : List α} {expected : α → SymbolTable → β} {step : α → Build β}
    (each : ∀ item, Builds (ReadOff (expected item)) (step item)) :
    Builds (ReadOff fun later => items.map fun item => expected item later) (items.mapM step) := by
  induction items with
  | nil => exact .pure fun _ => rfl
  | cons item rest ih =>
    rw [mapM_cons]
    refine (each item).bind fun first => ih.bind fun others => ?_
    refine .pure fun later sameOthers same => ?_
    rw [ReadOff, same, sameOthers, map_cons]

theorem onTable {change : SymbolTable → α × SymbolTable}
    (each : ∀ table, table.Grows (change table).2 ∧
      ∀ later, (change table).2.Grows later → ensured (change table).1 later) :
    Builds ensured (Specialization.onTable change) :=
  fun table => ⟨(change table).1, (change table).2, rfl, each table⟩

end Builds

/-! ### The macros -/

def preludePlace : Origin := ⟨"<prelude>", 0, 0⟩

section Macros

variable (table : SymbolTable)

def nameIn (name : String) : Node := .var (table.variableOf name)

def selectorIn (width : Width) : Node :=
  .definition preludePlace (.text width.selector)
    (Width.all.map (fun other => nameIn table (chosen other)) ++ [nameIn table "k"])
    (.sequence preludePlace [invocation preludePlace "k" [nameIn table (chosen width)]])

def trailerIn : Node :=
  .conditional preludePlace (table.settingOf "ASSERT_ENABLED") (.sequence preludePlace
      [bareInstruction preludePlace "break", bareInstruction preludePlace "break"])
    (.skip preludePlace)

def entryIn (width : Width) : List Node :=
  [.label (table.labelOf (width.labelName commonLabel)), bareInstruction preludePlace "prologue",
   invocation preludePlace "fn" [nameIn table width.selector], trailerIn table]

def commonIn : Node :=
  .definition preludePlace (.text "commonOp")
    [nameIn table "label", nameIn table "prologue", nameIn table "fn"]
    (.sequence preludePlace (Width.all.flatMap (entryIn table)))

def narrowIn : Node :=
  .definition preludePlace (.text "op") [nameIn table "l", nameIn table "fn"]
    (.sequence preludePlace [invocation preludePlace "commonOp" [nameIn table "l",
      anonymous preludePlace [] [],
      anonymous preludePlace [nameIn table "size"] [invocation preludePlace "size"
        [nameIn table "fn", anonymous preludePlace [] [bareInstruction preludePlace "break"],
         anonymous preludePlace [] [bareInstruction preludePlace "break"],
         anonymous preludePlace [nameIn table "gen"] [bareInstruction preludePlace "gen"]]]]])

/-- The macros of the prelude, in the order of their definition. -/
def macrosIn : List Node := Width.all.map (selectorIn table) ++ [commonIn table, narrowIn table]

end Macros

theorem builds_variableNamed (origin : Origin) (name : String) :
    Builds (ReadOff fun later => nameIn later name) (variableNamed origin name) :=
  .onTable fun table =>
    ⟨grows_intern table _ (by simp [Node.symbolKey?]), fun _ grows => variableNamed_eq grows⟩

theorem builds_debugTrailer : Builds (ReadOff trailerIn) (debugTrailer preludePlace) := by
  have setting : Builds (ReadOff fun later => later.settingOf "ASSERT_ENABLED")
      (onTable fun table => table.setting "ASSERT_ENABLED" preludePlace) :=
    .onTable fun table =>
      ⟨grows_intern table _ (by simp [Node.symbolKey?]), fun _ grows => setting_eq grows⟩
  refine setting.bind fun _ => .pure fun later same => ?_
  rw [same]
  rfl

theorem builds_selectorMacro (width : Width) :
    Builds (ReadOff fun later => selectorIn later width) (selectorMacro preludePlace width) := by
  refine (Builds.mapM fun other => builds_variableNamed preludePlace (chosen other)).bind fun _ => ?_
  refine (builds_variableNamed preludePlace "k").bind fun _ => ?_
  refine (builds_variableNamed preludePlace (chosen width)).bind fun _ => ?_
  refine .pure fun later operand continuation functions => ?_
  rw [operand, continuation, functions]
  rfl

theorem isTemplate_entry (width : Width) : isTemplate (width.labelName commonLabel) = true :=
  isTemplate_append (by decide)

theorem builds_entryLabel (width : Width) :
    Builds (ReadOff fun later => later.labelOf (width.labelName commonLabel))
      (onTable fun table => table.labelDefinition (width.labelName commonLabel) preludePlace) := by
  refine .onTable fun table => ?_
  unfold labelDefinition
  rw [if_pos (isTemplate_entry width)]
  exact ⟨grows_label table _ _, fun _ grows => label_eq grows⟩

theorem builds_entryBody (width : Width) :
    Builds (ReadOff fun later => invocation preludePlace "fn" [nameIn later width.selector]) (do
      let selector ← variableNamed preludePlace width.selector
      return invocation preludePlace "fn" [selector]) := by
  refine (builds_variableNamed preludePlace width.selector).bind fun _ => .pure fun later same => ?_
  rw [same]
  rfl

theorem builds_entries (trailer : Node) (widths : List Width) :
    Builds (fun built later => trailer = trailerIn later → built.2 = widths.flatMap (entryIn later))
      (entries commonLabel (bareInstruction preludePlace "prologue") (fun width => do
        let selector ← variableNamed preludePlace width.selector
        return invocation preludePlace "fn" [selector]) preludePlace trailer widths) := by
  induction widths with
  | nil => exact .pure fun _ _ => rfl
  | cons width rest ih =>
    refine (builds_entryLabel width).bind fun _ => (builds_entryBody width).bind fun _ => ?_
    refine ih.bind fun _ => .pure fun later others body mark ending => ?_
    rw [body, mark]
    dsimp only
    rw [others ending, ending]
    rfl

theorem builds_commonMacro : Builds (ReadOff commonIn) (commonMacro preludePlace) := by
  refine (builds_variableNamed preludePlace "label").bind fun _ => ?_
  refine (builds_variableNamed preludePlace "prologue").bind fun _ => ?_
  refine (builds_variableNamed preludePlace "fn").bind fun _ => ?_
  have tree : Builds (fun built later => built.2 =
        .sequence preludePlace (Width.all.flatMap (entryIn later)))
      (specialize commonLabel (bareInstruction preludePlace "prologue") (fun width => do
        let selector ← variableNamed preludePlace width.selector
        return invocation preludePlace "fn" [selector]) (some preludePlace) none) := by
    refine builds_debugTrailer.bind fun _ => (builds_entries _ Width.all).bind fun _ => ?_
    refine .pure fun later items ending => ?_
    dsimp only
    rw [items ending]
    rfl
  refine tree.bind fun _ => .pure fun later body function prologue label => ?_
  rw [label, prologue, function]
  dsimp only
  rw [body]
  rfl

theorem builds_narrowMacro : Builds (ReadOff narrowIn) (narrowMacro preludePlace) := by
  refine (builds_variableNamed preludePlace "l").bind fun _ => ?_
  refine (builds_variableNamed preludePlace "fn").bind fun _ => ?_
  refine (builds_variableNamed preludePlace "size").bind fun _ => ?_
  refine (builds_variableNamed preludePlace "gen").bind fun _ => ?_
  refine .pure fun later generator size function label => ?_
  rw [generator, size, function, label]
  rfl

theorem builds_prelude : Builds (ReadOff macrosIn) (prelude none) := by
  refine (Builds.mapM builds_selectorMacro).bind fun _ => ?_
  refine builds_commonMacro.bind fun _ => builds_narrowMacro.bind fun _ => ?_
  refine .pure fun later narrow common selectors => ?_
  rw [narrow, common, selectors]
  rfl

/-- The prelude can always be built, and what is known about labels stays as it was. -/
theorem exists_prelude (table : SymbolTable) : ∃ after,
    (prelude none).perform table = (.ok (macrosIn after), after) ∧ table.Resembles after := by
  obtain ⟨definitions, after, built, grows, readOff⟩ := builds_prelude table
  rw [readOff after (.refl after)] at built
  exact ⟨after, built, grows.resembles⟩

theorem prelude_ne_error {table after : SymbolTable} {failure : Failure} :
    (prelude none).perform table ≠ (.error failure, after) := by
  obtain ⟨_, built, -⟩ := exists_prelude table
  simp [built]

theorem prelude_ok {table after : SymbolTable} {definitions : List Node}
    (ran : (prelude none).perform table = (.ok definitions, after)) :
    definitions = macrosIn after ∧ table.Resembles after := by
  obtain ⟨_, built, resembles⟩ := exists_prelude table
  rw [built] at ran
  cases ran
  exact ⟨rfl, resembles⟩

theorem macrosIn_parts (table : SymbolTable) : ∀ definition ∈ macrosIn table,
    ∀ part ∈ definition.flatten, part.isLayoutConstant = false ∧ ∀ mark, part ≠ .localLabel mark := by
  obtain ⟨origin, setting⟩ := table.exists_settingOf "ASSERT_ENABLED"
  have none : ((macrosIn table).all fun definition => definition.flatten.all fun part =>
      !part.isLayoutConstant && part.typeName != "LocalLabel") = true := by
    simp only [macrosIn, commonIn, Width.all, flatMap_cons, flatMap_nil, entryIn,
      trailerIn, setting]
    rfl
  simp only [all_eq_true, Bool.and_eq_true, Bool.not_eq_true'] at none
  intro definition mem part inside
  obtain ⟨notLayout, notLabel⟩ := none definition mem part inside
  refine ⟨notLayout, ?_⟩
  rintro mark rfl
  simp [Node.typeName] at notLabel

theorem macrosIn_onlyTemplates (table : SymbolTable) : ∀ definition ∈ macrosIn table,
    definition.WritesOnly fun name => isTemplate name = true := by
  obtain ⟨origin, setting⟩ := table.exists_settingOf "ASSERT_ENABLED"
  intro definition mem
  simp only [macrosIn, mem_append, mem_map, mem_cons, not_mem_nil, or_false] at mem
  rcases mem with ⟨width, -, rfl⟩ | rfl | rfl
  · simp [selectorIn, nameIn, invocation, or_imp, forall_and]
  · simp [commonIn, Width.all, entryIn, trailerIn, nameIn, invocation, bareInstruction, labelOf,
      setting, isTemplate_entry]
  · simp [narrowIn, nameIn, invocation, anonymous, bareInstruction]

end Specialization

end MacroAssembler
