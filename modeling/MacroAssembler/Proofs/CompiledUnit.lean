/-
This module reduces a run of the compiler to the work of its passes.

Every pass checks the stage, does its work, keeps the result and notes what it did. What matters
about it afterwards is the work: which tree it started from and what it did to the table. So the work
of a run on a document is an action on the table alone, from the document to the lines of the
emission. A run has the outcome of this action, and one that succeeds is a chain of passes.
-/
import MacroAssembler.Compilation
import MacroAssembler.Proofs.ExpansionRun

namespace MacroAssembler.Compilation

open Action

/-! ### Bookkeeping -/

@[simp]
theorem perform_onTable {α : Type} (step : Action SymbolTable α) (run : Compilation) :
    (onTable step).perform run =
      ((step.perform run.table).1, { run with table := (step.perform run.table).2 }) := rfl

theorem requireStage_own {run : Compilation} {expected : Stage} {action : String}
    (own : run.stage = expected) (present : expected ≠ .aborted) :
    (requireStage expected action).perform run = (.ok (), run) := by
  rw [requireStage, perform_bind]
  simp [own, present]

/-! ### The work of a run -/

def acceptWork (includePrelude : Bool) (tree : Node) : Action SymbolTable Node :=
  if includePrelude then do
    let defined ← definedMacros tree.statements
    let definitions ← Specialization.prelude none
    let added := definitions.filter fun definition => !definesOneOf defined definition
    return .sequence tree.origin (added ++ tree.statements)
  else pure tree

def loadWork (includePrelude : Bool) (document : Value) (filename : String) :
    Action SymbolTable Node := do
  let (loaded, _) ← ofFunction fun table => table.load document filename
  acceptWork includePrelude loaded

def expandWork (limit : Int) (tree : Node) : Action SymbolTable Node :=
  ofFunction fun table =>
    let (outcome, state) := (Expander.expand limit tree).perform { table := table }
    (outcome, state.table)

def emissionOf (config : Configuration) (statements : List String) (table : SymbolTable) :
    Emission where
  backend := config.architecture.name
  lines := Backend.frame config statements
  externLabels := table.unresolved
  referencedLabels := table.referenced

/-- The work after folding. It gives the expanded tree along with the emission. -/
def unitWork (config : Configuration) (limit : Int) (tree : Node) :
    Action SymbolTable (Node × Emission) := do
  let expanded ← expandWork limit tree
  let statements ← Backend.lowerStatements config expanded
  return (expanded, emissionOf config statements (← get))

def finishWork (config : Configuration) (limit : Int) (tree : Node) :
    Action SymbolTable (Node × Emission) := do
  let (folded, _) ← tree.foldedWith config
  unitWork config limit folded

def documentWork (config : Configuration) (includePrelude : Bool) (limit : Int) (document : Value)
    (filename : String) : Action SymbolTable (Node × Emission) := do
  let accepted ← loadWork includePrelude document filename
  finishWork config limit accepted

/-! ### Steps that do work -/

section Does

variable {α β γ δ : Type} {before : Compilation → Prop} {middle after : β → Compilation → Prop}
  {result : β → α} {step : Run α} {work : Action SymbolTable β}

/-- Whether a step does an action on the table, in the runs described before it. It fails as the
action does. Else its result is read off that of the action, and the run is as described after. -/
def Does (result : β → α) (before : Compilation → Prop) (after : β → Compilation → Prop)
    (step : Run α) (work : Action SymbolTable β) : Prop :=
  ∀ run, before run → ∃ next, step.perform run = ((work.perform run.table).1.map result, next) ∧
    ∀ made, (work.perform run.table).1 = .ok made →
      next.table = (work.perform run.table).2 ∧ after made next

namespace Does

theorem bind {next : α → Run γ} {more : β → Action SymbolTable δ} {last : δ → γ}
    {atLast : δ → Compilation → Prop} (does : Does result before middle step work)
    (continues : ∀ made, Does last (middle made) atLast (next (result made)) (more made)) :
    Does last before atLast (step >>= next) (work >>= more) := by
  intro run initially
  obtain ⟨reached, ran, kept⟩ := does run initially
  rw [perform_bind, perform_bind, ran]
  generalize work.perform run.table = worked at kept
  rcases worked with ⟨failure | made, table⟩
  · exact ⟨reached, rfl, nofun⟩
  · obtain ⟨rfl, holds⟩ := kept made rfl
    exact continues made reached holds

theorem done {made : β} (keeps : ∀ run, before run → ∃ next,
      step.perform run = (.ok (result made), next) ∧ next.table = run.table ∧ after made next) :
    Does result before after step (pure made) := by
  intro run initially
  obtain ⟨next, ran, same, holds⟩ := keeps run initially
  refine ⟨next, ran, ?_⟩
  rintro _ ⟨⟩
  exact ⟨same, holds⟩

/-- What only keeps books after the work does not count. -/
theorem followed {last : β → γ} {next : α → Run γ} (does : Does result before middle step work)
    (keeps : ∀ made run, middle made run → ∃ reached,
      (next (result made)).perform run = (.ok (last made), reached) ∧
        reached.table = run.table ∧ after made reached) :
    Does last before after (step >>= next) work := by
  rw [← bind_pure work]
  exact does.bind fun made => .done (keeps made)

theorem lift (outcome : Checked β) :
    Does id before (fun _ => before) (liftM outcome : Run β) (liftM outcome) :=
  fun run initially => ⟨run, by cases outcome <;> rfl, fun _ _ => ⟨rfl, initially⟩⟩

theorem get {next : Compilation → Run α}
    (continues : ∀ run, before run → Does result before after (next run) work) :
    Does result before after (MonadState.get >>= next) work :=
  fun run initially => continues run initially run initially

theorem guarded (does : Does result before after step work) :
    Does result before after (Compilation.guarded step) work := by
  intro run initially
  obtain ⟨next, ran, kept⟩ := does run initially
  rw [Compilation.guarded, perform_ofFunction, ran]
  generalize work.perform run.table = worked at kept ⊢
  rcases worked with ⟨(problem | fault) | made, table⟩
  · exact ⟨_, rfl, nofun⟩
  · exact ⟨_, rfl, nofun⟩
  · exact ⟨next, rfl, kept⟩

theorem requireStage {expected : Stage} {action : String}
    (own : ∀ run, before run → run.stage = expected) (present : expected ≠ .aborted)
    (does : Does result before after step work) :
    Does result before after (do Compilation.requireStage expected action; step) work := by
  intro run initially
  rw [perform_bind, requireStage_own (own run initially) present]
  exact does run initially

/-- A step that succeeds shows that the action does. -/
theorem ok {run next : Compilation} {value : α} (does : Does result before after step work)
    (initially : before run) (ran : step.perform run = (.ok value, next)) :
    ∃ made, work.perform run.table = (.ok made, next.table) ∧ result made = value ∧
      after made next := by
  obtain ⟨reached, same, kept⟩ := does run initially
  rw [ran] at same
  generalize work.perform run.table = worked at kept same
  rcases worked with ⟨failure | made, table⟩
  · cases same
  · cases same
    obtain ⟨rfl, holds⟩ := kept made rfl
    exact ⟨made, rfl, rfl, holds⟩

end Does

end Does

/-! ### Passes -/

/-- Whether a run has come to a stage with a tree, under the settings it was started with. -/
structure Stands (initial : Compilation) (stage : Stage) (tree : Node) (run : Compilation) :
    Prop where
  configuration : run.configuration = initial.configuration
  includePrelude : run.includePrelude = initial.includePrelude
  limit : run.limit = initial.limit
  stage : run.stage = stage
  tree : run.currentTree = tree

section Passes

variable {initial : Compilation} {stage : Stage} {tree other : Node}

theorem does_onTable {α : Type} (work : Action SymbolTable α) :
    Does id (Stands initial stage tree) (fun _ => Stands initial stage tree) (onTable work) work := by
  intro run stands
  rw [perform_onTable, Except.map_id]
  exact ⟨_, rfl, fun _ _ => ⟨rfl, { stands with tree := stands.tree }⟩⟩

theorem does_withPrelude : Does id (Stands initial stage other)
    (fun _ => Stands initial stage other) (withPrelude tree) (acceptWork true tree) := by
  refine .bind (.lift _) fun defined => .bind (does_onTable _) fun definitions => ?_
  exact .done fun _ stands => ⟨_, rfl, rfl, { stands with tree := stands.tree }⟩

theorem does_accept : Does id (Stands initial .parsed other) (Stands initial .interned)
    (accept tree) (acceptWork initial.includePrelude tree) := by
  refine .requireStage (fun _ => Stands.stage) (by decide) (.get fun run stands => ?_)
  rw [stands.includePrelude]
  cases initial.includePrelude with
  | true => exact does_withPrelude.followed fun _ _ stands =>
      ⟨_, rfl, rfl, { stands with stage := rfl, tree := rfl }⟩
  | false => exact .done fun _ stands => ⟨_, rfl, rfl, { stands with stage := rfl, tree := rfl }⟩

theorem does_load (document : Value) (filename : String) :
    Does id (Stands initial .parsed other) (Stands initial .interned) (load document filename)
      (loadWork initial.includePrelude document filename) := by
  refine .requireStage (fun _ => Stands.stage) (by decide)
    (.bind (.guarded (.followed (does_onTable _) fun _ _ stands => ⟨_, rfl, rfl, ?_⟩))
      fun _ => @does_accept _ _ other)
  exact { stands with tree := stands.tree }

theorem does_fold : Does Prod.fst (Stands initial .interned tree)
    (fun folded => Stands initial .folded folded.1) fold
    (tree.foldedWith initial.configuration) := by
  refine .requireStage (fun _ => Stands.stage) (by decide) (.get fun run stands => ?_)
  rw [stands.tree, stands.configuration]
  exact .followed (.guarded (.lift _)) fun _ _ stands =>
    ⟨_, rfl, rfl, { stands with stage := rfl, tree := rfl }⟩

theorem does_expand : Does id (Stands initial .folded tree) (Stands initial .expanded) expand
    (expandWork initial.limit tree) := by
  refine .requireStage (fun _ => Stands.stage) (by decide) (.get fun run stands => ?_)
  rw [stands.tree]
  have expands : Does id (Stands initial .folded tree) (fun _ => Stands initial .folded tree)
      (expandTree tree) (expandWork initial.limit tree) := by
    intro run stands
    rw [expandTree, perform_ofFunction, stands.limit, Except.map_id]
    exact ⟨_, rfl, fun _ _ => ⟨rfl, { stands with limit := rfl }⟩⟩
  exact expands.guarded.followed fun _ _ stands =>
    ⟨_, rfl, rfl, { stands with stage := rfl, tree := rfl }⟩

theorem does_lower : Does id (Stands initial .expanded tree)
    (fun statements run => Stands initial .lowered tree run ∧ run.statements = statements) lower
    (Backend.lowerStatements initial.configuration tree) := by
  refine .requireStage (fun _ => Stands.stage) (by decide) (.get fun run stands => ?_)
  rw [stands.tree, stands.configuration]
  exact .followed (.guarded (does_onTable _)) fun _ _ stands =>
    ⟨_, rfl, rfl, { stands with stage := rfl }, rfl⟩

theorem does_emit {statements : List String} : Does Prod.snd
    (fun run => Stands initial .lowered tree run ∧ run.statements = statements)
    (fun made run => run.currentTree = made.1) emit
    (do return (tree, emissionOf initial.configuration statements (← get))) := by
  refine .requireStage (fun _ initially => initially.1.stage) (by decide) ?_
  rintro run ⟨stands, rfl⟩
  rw [← stands.configuration]
  refine ⟨_, rfl, ?_⟩
  rintro _ ⟨⟩
  exact ⟨rfl, stands.tree⟩

theorem does_finish : Does Prod.snd (Stands initial .interned tree)
    (fun made run => run.currentTree = made.1) finish
    (finishWork initial.configuration initial.limit tree) :=
  does_fold.bind fun _ => does_expand.bind fun _ => does_lower.bind fun _ => does_emit

theorem does_runDocument (document : Value) (filename : String) : Does Prod.snd
    (Stands initial .parsed other) (fun made run => run.currentTree = made.1)
    (runDocument document filename) (documentWork initial.configuration initial.includePrelude
      initial.limit document filename) :=
  (does_load document filename).bind fun _ => does_finish

end Passes

/-! ### Runs -/

variable {config : Configuration} {includePrelude : Bool} {limit : Int} {document : Value}
  {filename : String} {tree accepted expanded : Node} {table final : SymbolTable}
  {emission : Emission} {statements : List String} {after : Compilation}

/-- A run on a document has the outcome of its work. -/
theorem outcome_runDocument : ((runDocument document filename).perform
      (start config table includePrelude limit)).1 =
    ((documentWork config includePrelude limit document filename).perform
      table.resetReferenced).1.map Prod.snd := by
  obtain ⟨_, ran, -⟩ := does_runDocument document filename
    (start config table includePrelude limit) ⟨rfl, rfl, rfl, rfl, rfl⟩
  exact congrArg Prod.fst ran

/-- A run that succeeds is left with the expanded tree and with the table that its work left. -/
theorem documentWork_ok (ran : (runDocument document filename).perform
      (start config table includePrelude limit) = (.ok emission, after)) :
    (documentWork config includePrelude limit document filename).perform table.resetReferenced =
      (.ok (after.currentTree, emission), after.table) := by
  obtain ⟨made, worked, rfl, same⟩ :=
    (does_runDocument document filename).ok ⟨rfl, rfl, rfl, rfl, rfl⟩ ran
  rw [same]
  exact worked

/-- What is made of a loaded tree: the tree itself, or the tree with the macros of the prelude in
front that it does not define. -/
inductive Accepts : Bool → Node → SymbolTable → Node → SymbolTable → Prop
  | plain (loaded : Node) (table : SymbolTable) : Accepts false loaded table loaded table
  | withPrelude {loaded : Node} {before after : SymbolTable} {defined : List Name}
      {definitions : List Node} (defines : definedMacros loaded.statements = .ok defined)
      (built : (Specialization.prelude none).perform before = (.ok definitions, after)) :
      Accepts true loaded before (.sequence loaded.origin
          (definitions.filter (fun definition => !definesOneOf defined definition) ++
            loaded.statements)) after

theorem acceptWork_ok : (acceptWork includePrelude tree).perform table = (.ok accepted, final) ↔
    Accepts includePrelude tree table accepted final := by
  constructor
  · intro ran
    cases includePrelude with
    | false =>
      cases ran
      exact .plain _ _
    | true =>
      rw [acceptWork, if_pos rfl] at ran
      obtain ⟨defined, _, listed, ran⟩ := perform_bind_ok.mp ran
      obtain ⟨definitions, _, built, made⟩ := perform_bind_ok.mp ran
      obtain ⟨defines, rfl⟩ := Prod.mk.inj listed
      cases made
      exact .withPrelude defines built
  · rintro (_ | ⟨defines, built⟩)
    · rfl
    · rw [acceptWork, if_pos rfl, perform_bind_ok]
      exact ⟨_, _, congrArg (·, table) defines, perform_bind_ok.mpr ⟨_, _, built, rfl⟩⟩

theorem unitWork_ok :
    (unitWork config limit tree).perform table = (.ok (expanded, emission), final) ↔
      ∃ state statements,
        (Expander.expand limit tree).perform { table := table } = (.ok expanded, state) ∧
        (Backend.lowerStatements config expanded).perform state.table = (.ok statements, final) ∧
        emission = emissionOf config statements final := by
  constructor
  · intro ran
    obtain ⟨_, _, expanding, ran⟩ := perform_bind_ok.mp ran
    obtain ⟨expands, rfl⟩ := Prod.mk.inj expanding
    obtain ⟨statements, _, lowers, made⟩ := perform_bind_ok.mp ran
    cases made
    exact ⟨_, statements, Prod.ext expands rfl, lowers, rfl⟩
  · rintro ⟨state, statements, expands, lowers, rfl⟩
    refine perform_bind_ok.mpr ⟨expanded, state.table, ?_, ?_⟩
    · rw [expandWork, perform_ofFunction, expands]
    · exact perform_bind_ok.mpr ⟨_, _, lowers, rfl⟩

theorem finishWork_ok {made : Node × Emission}
    (ran : (finishWork config limit tree).perform table = (.ok made, final)) :
    ∃ folded counts, tree.foldedWith config = .ok (folded, counts) ∧
      (unitWork config limit folded).perform table = (.ok made, final) := by
  obtain ⟨⟨folded, counts⟩, _, folding, ran⟩ := perform_bind_ok.mp ran
  obtain ⟨folds, rfl⟩ := Prod.mk.inj folding
  exact ⟨folded, counts, folds, ran⟩

theorem documentWork_folded {loaded folded : Node} {count : Nat} {counts : FoldCounts}
    {loadedTable acceptedTable : SymbolTable}
    (loads : table.load document filename = (.ok (loaded, count), loadedTable))
    (accepts : Accepts includePrelude loaded loadedTable accepted acceptedTable)
    (folds : accepted.foldedWith config = .ok (folded, counts)) :
    (documentWork config includePrelude limit document filename).perform table =
      (unitWork config limit folded).perform acceptedTable := by
  have loading : (loadWork includePrelude document filename).perform table =
      (.ok accepted, acceptedTable) :=
    perform_bind_ok.mpr ⟨_, _, loads, acceptWork_ok.mpr accepts⟩
  rw [documentWork, perform_bind, loading]
  dsimp only
  rw [finishWork, perform_bind, folds]
  rfl

/-- What the passes of a run produce on the way to an assembly unit: the tree that is loaded, the
one that is accepted, the folded one, what expansion did, and the lines. -/
structure Passes where
  loaded : Node
  accepted : Node
  folded : Node
  trace : Trace
  lines : List Line

/-- How a document becomes an assembly unit in a fresh table, pass by pass. -/
inductive Compiles (config : Configuration) (includePrelude : Bool)
    (document : Value) (filename : String) (passes : Passes) (emission : Emission) : Prop
  | intro {count : Nat} {loadedTable acceptedTable table : SymbolTable} {counts : FoldCounts}
      {results : List Node} {expanded : Expander} {code : Assembly.Code}
      (loads : SymbolTable.empty.load document filename = (.ok (passes.loaded, count), loadedTable))
      (accepts : Accepts includePrelude passes.loaded loadedTable passes.accepted acceptedTable)
      (folds : passes.accepted.foldedWith config = .ok (passes.folded, counts))
      (expands : Expander.ExpandsTree { table := acceptedTable } passes.folded results
        passes.trace expanded)
      (lowers : (Assembly.lower config (.sequence passes.folded.origin results)).perform
        expanded.table = (.ok code, table))
      (emits : passes.lines = Assembly.linesOf code)
      (shows : emission.lines = Line.framed (passes.lines.map Line.text))
      (externs : emission.externLabels = table.unresolved)

theorem lowerStatements_machine (machine : config.architecture.emitsHostCode = false)
    (node : Node) : Backend.lowerStatements config node =
      (fun code => (Assembly.linesOf code).map Line.text) <$> Assembly.lower config node := by
  rw [Backend.lowerStatements, Backend.lower, machine, if_neg (by decide), bind_assoc,
    ← bind_pure_comp]
  refine congrArg _ (funext fun code => ?_)
  cases code with
  | operand operand =>
    simp only [pure_bind, HostCode.statementsOf, Assembly.linesOf]
    split <;> rfl
  | statements lines => rfl

theorem lowerStatements_ok
    (machine : config.architecture.emitsHostCode = false)
    (ran : (Backend.lowerStatements config tree).perform table = (.ok statements, final)) :
    ∃ code, (Assembly.lower config tree).perform table = (.ok code, final) ∧
      statements = (Assembly.linesOf code).map Line.text := by
  rw [lowerStatements_machine machine, ← bind_pure_comp, perform_bind_ok] at ran
  obtain ⟨code, _, lowers, ⟨⟩⟩ := ran
  exact ⟨code, lowers, rfl⟩

/-- A run for a machine that succeeds has compiled its document pass by pass. It is left with the
expanded tree and with the table that lowering the tree left. -/
theorem runDocument_lowers (machine : config.architecture.emitsHostCode = false)
    (ran : (runDocument document filename).perform
      (start config .empty includePrelude limit) = (.ok emission, after)) :
    ∃ passes table state code, Compiles config includePrelude document filename passes emission ∧
      (Expander.expand limit passes.folded).perform { table := table } =
        (.ok after.currentTree, state) ∧
      (Assembly.lower config after.currentTree).perform state.table = (.ok code, after.table) ∧
      passes.lines = Assembly.linesOf code := by
  obtain ⟨accepted, acceptedTable, loadRun, finishRun⟩ := perform_bind_ok.mp (documentWork_ok ran)
  obtain ⟨⟨loaded, count⟩, loadedTable, loads, acceptRun⟩ := perform_bind_ok.mp loadRun
  obtain ⟨folded, counts, folds, unitRun⟩ := finishWork_ok finishRun
  obtain ⟨state, statements, expands, lowers, rfl⟩ := unitWork_ok.mp unitRun
  obtain ⟨code, assembles, rfl⟩ := lowerStatements_ok machine lowers
  obtain ⟨results, trace, expanded, same, sameState, expandsTree⟩ := Expander.expand_ok expands
  have shows : Backend.frame config ((Assembly.linesOf code).map Line.text) =
      Line.framed ((Assembly.linesOf code).map Line.text) := by
    rw [Backend.frame, machine]
    rfl
  have assemblesFinal := assembles
  rw [same, sameState] at assemblesFinal
  exact ⟨⟨loaded, accepted, folded, trace, _⟩, _, state, code,
    .intro loads (acceptWork_ok.mp acceptRun) folds expandsTree assemblesFinal rfl shows rfl,
    expands, assembles, rfl⟩

end MacroAssembler.Compilation
