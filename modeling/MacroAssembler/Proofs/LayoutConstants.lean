/-
This module proves that the list of layout constants of a loaded tree is complete: a configuration
that has a value for each of them never lacks one.

A value is asked for when a layout constant is lowered, so the constants of the lowered tree matter.
No pass makes a layout constant, and the macros of the prelude hold none. So all constants of the
lowered tree stand in the loaded tree, whatever way they came through constants, operands and
macros.
-/
import MacroAssembler.Proofs.CarriedProperties
import MacroAssembler.Proofs.ForgetfulExpansion
import MacroAssembler.Proofs.StageHistory
import MacroAssembler.Proofs.SymbolAccounting

namespace MacroAssembler

open Action List Node

variable {config configuration : Configuration}

/-! ### Supplied trees -/

abbrev Node.IsSupplied (config : Configuration) (tree : Node) : Prop :=
  tree.Throughout fun part => part.isMissing config = false

theorem Node.isMissing_of_other {node : Node} (other : node.isLayoutConstant = false) :
    node.isMissing config = false := by
  cases node with
  | layout => cases other
  | _ => rfl

/-- No pass makes a layout constant. -/
instance : IsMade fun part => part.isMissing config = false where
  made := by
    intro node made
    cases node <;> trivial
  fresh _ _ _ := rfl

instance : IsCarried (·.isMissing config = false) (·.isMissing config = false) where
  kept := id
  rebuilt := by
    intro node result built sameNumber supplied
    obtain ⟨-, -, same⟩ := rebuild_ok built sameNumber
    cases node with
    | layout =>
      cases built
      exact supplied
    | _ => exact isMissing_of_other same.layout

/-! ### Failures -/

/-- Whether a failure does not report a layout constant without a value. -/
def Failure.IsOther (failure _other : Failure) : Prop := failure.isMissing = false

instance : Tolerant Failure.IsOther := ⟨fun _ _ _ other => other⟩

variable {failure : Failure} {tree : Node} {table : SymbolTable}

theorem Checked.Corresponds.isMissing {α β : Type} {alike : α → β → Prop} {outcome : Checked α}
    {other : Checked β} (corresponds : Corresponds Failure.IsOther alike outcome other)
    (failed : outcome = .error failure) : failure.isMissing = false := by
  subst failed
  cases corresponds with
  | error isOther => exact isOther

theorem Node.isMissing_foldedWith (failed : tree.foldedWith config = .error failure) :
    failure.isMissing = false := by
  have outcomes := @Folding.corresponds_fold Failure.IsOther _ config tree {} {} rfl
  refine outcomes.isMissing ?_
  unfold foldedWith at failed
  generalize (Folding.fold config tree).perform {} = run at failed ⊢
  obtain ⟨problem | result, counts⟩ := run
  · cases failed
    rfl
  · cases failed

theorem Expander.isMissing_expand {limit : Int} {after : Expander}
    (failed : (expand limit tree).perform { table := table } = (.error failure, after)) :
    failure.isMissing = false :=
  (@parallels_expand_placeless Failure.IsOther _ limit tree _ _ (.initial rfl)).isMissing
    (congrArg Prod.fst failed)

/-- A supplied tree is lowered without asking for a value that is missing. -/
theorem Backend.isMissing_lowerStatements
    (machine : config.architecture.emitsHostCode = false) {after : SymbolTable}
    (supplied : tree.IsSupplied config)
    (failed : (lowerStatements config tree).perform table = (.error failure, after)) :
    failure.isMissing = false := by
  simp only [lowerStatements, lower, machine, Bool.false_eq_true, if_false] at failed
  rw [Bool.eq_false_iff]
  intro isMissing
  rcases perform_bind_error.mp failed with early | ⟨code, middle, -, late⟩
  · rcases perform_bind_error.mp early with early | ⟨code, middle, -, late⟩
    · obtain ⟨_, single, part, inside, missing⟩ :=
        ((@Assembly.emits_lower config [] tree).explains _ _ _ early).missing isMissing
      obtain rfl := mem_singleton.mp single
      rw [supplied part inside] at missing
      cases missing
    · cases code <;> cases late
  · cases late

/-! ### Runs -/

namespace Compilation

variable {α β : Type} {ensured : α → Prop} {nextEnsured : β → Prop} {run : Compilation}

structure IsSupplied (config : Configuration) (run : Compilation) : Prop where
  settings : run.configuration = config
  tree : run.currentTree.IsSupplied config

/-- Whether a step ends with a supplied run, and gives what is ensured or does not fail for the lack
of a layout value. -/
inductive EndsSupplied (config : Configuration) (ensured : α → Prop) :
    Checked α × Compilation → Prop
  | ok {value : α} {after : Compilation} (holds : ensured value)
      (supplied : after.IsSupplied config) : EndsSupplied config ensured (.ok value, after)
  | error {failure : Failure} {after : Compilation} (isOther : failure.isMissing = false)
      (supplied : after.IsSupplied config) :
      EndsSupplied config ensured (.error failure, after)

namespace EndsSupplied

theorem bind {first : Run α} {next : α → Run β}
    (ends : EndsSupplied config ensured (first.perform run))
    (continues : ∀ value after, ensured value → after.IsSupplied config →
      EndsSupplied config nextEnsured ((next value).perform after)) :
    EndsSupplied config nextEnsured ((first >>= next).perform run) := by
  rw [perform_bind]
  generalize first.perform run = result at ends
  cases ends with
  | ok holds supplied => exact continues _ _ holds supplied
  | error isOther supplied => exact .error isOther supplied

theorem lift (ensured : α → Prop) {outcome : Checked α} (supplied : run.IsSupplied config)
    (passes : ∀ value, outcome = .ok value → ensured value)
    (fails : ∀ failure, outcome = .error failure → failure.isMissing = false) :
    EndsSupplied config ensured ((liftM outcome : Run α).perform run) := by
  rw [perform_lift]
  cases outcome with
  | ok value => exact .ok (passes value rfl) supplied
  | error failure => exact .error (fails failure rfl) supplied

theorem onTable (ensured : α → Prop) {step : Action SymbolTable α}
    (supplied : run.IsSupplied config)
    (passes : ∀ value after, step.perform run.table = (.ok value, after) → ensured value)
    (fails : ∀ failure after, step.perform run.table = (.error failure, after) →
      failure.isMissing = false) :
    EndsSupplied config ensured ((Compilation.onTable step).perform run) := by
  rw [perform_onTable]
  generalize step.perform run.table = result at passes fails
  obtain ⟨failure | value, after⟩ := result
  · exact .error (fails failure after rfl) ⟨supplied.settings, supplied.tree⟩
  · exact .ok (passes value after rfl) ⟨supplied.settings, supplied.tree⟩

theorem guarded {step : Run α} (ends : EndsSupplied config ensured (step.perform run)) :
    EndsSupplied config ensured ((Compilation.guarded step).perform run) := by
  unfold Compilation.guarded
  rw [perform_ofFunction]
  generalize step.perform run = result at ends
  cases ends with
  | ok holds supplied => exact .ok holds supplied
  | @error failure after isOther supplied =>
    cases failure with
    | diagnostic => exact .error isOther ⟨supplied.settings, supplied.tree⟩
    | fault => exact .error isOther supplied

theorem requireStage {expected : Stage} {action : String} {work : Unit → Run α}
    (supplied : run.IsSupplied config)
    (continues : EndsSupplied config ensured ((work ()).perform run)) : EndsSupplied config ensured
      ((Compilation.requireStage expected action >>= work).perform run) := by
  rw [Compilation.requireStage, bind_assoc, perform_bind, perform_get]
  dsimp only
  split
  · exact .error rfl supplied
  · split
    · exact .error rfl supplied
    · exact continues

theorem keepTree {stage : Stage} (supplied : run.IsSupplied config)
    (treeSupplied : tree.IsSupplied config) :
    EndsSupplied config (fun _ => True) ((Compilation.keepTree stage tree).perform run) :=
  .ok trivial ⟨supplied.settings, treeSupplied⟩

end EndsSupplied

theorem endsSupplied_withPrelude (supplied : run.IsSupplied config)
    (treeSupplied : tree.IsSupplied config) :
    EndsSupplied config (Node.IsSupplied config) ((withPrelude tree).perform run) := by
  refine .bind (.lift (fun _ => True) supplied (fun _ _ => trivial) fun failure failed => ?_)
    fun names middle _ supplied => ?_
  · exact isMissing_of_not_isDiagnostic (silent_definedMacros _ failure failed)
  refine .bind (.onTable (fun definitions => ∀ definition ∈ definitions,
    definition.IsSupplied config) supplied (fun definitions after built => ?_)
    fun failure after failed => ?_) fun definitions after allSupplied supplied => ?_
  · rw [(Specialization.prelude_ok built).1]
    exact fun definition mem part inside =>
      isMissing_of_other (Specialization.macrosIn_parts after definition mem part inside).1
  · exact absurd failed Specialization.prelude_ne_error
  refine .ok (throughout_made rfl (forall_mem_append.mpr ⟨?_, ?_⟩))
    ⟨supplied.settings, supplied.tree⟩
  · exact fun definition mem => allSupplied definition (mem_of_mem_filter mem)
  · exact fun stmt mem => treeSupplied.statement mem

theorem endsSupplied_accept (supplied : run.IsSupplied config)
    (treeSupplied : tree.IsSupplied config) :
    EndsSupplied config (fun _ => True) ((accept tree).perform run) := by
  refine .requireStage supplied ?_
  rw [perform_bind, perform_get]
  dsimp only
  split
  · exact (endsSupplied_withPrelude supplied treeSupplied).bind fun _ _ holds supplied =>
      .keepTree supplied holds
  · exact .keepTree supplied treeSupplied

theorem endsSupplied_load {document : Value} {filename : String} {count : Nat}
    (supplied : run.IsSupplied config)
    (loads : run.table.load document filename = (.ok (tree, count), table))
    (treeSupplied : tree.IsSupplied config) :
    EndsSupplied config (fun _ => True) ((load document filename).perform run) := by
  refine .requireStage supplied (.bind (.guarded ?_) fun _ _ holds supplied =>
    endsSupplied_accept supplied holds)
  refine .bind (.onTable (fun loaded => loaded.1.IsSupplied config) supplied
    (fun loaded after performed => ?_) fun failure after failed => ?_)
    fun loaded after holds supplied => .ok holds ⟨supplied.settings, supplied.tree⟩
  · cases loads.symm.trans performed
    exact treeSupplied
  · cases loads.symm.trans failed

theorem endsSupplied_fold (supplied : run.IsSupplied config) :
    EndsSupplied config (fun _ => True) (fold.perform run) := by
  refine .requireStage supplied ?_
  rw [perform_bind, perform_get]
  refine .bind (.guarded (.lift (fun folded => folded.1.IsSupplied config) supplied
    (fun folded folds => ?_) fun failure failed => Node.isMissing_foldedWith failed))
    fun folded after holds supplied => .ok trivial ⟨supplied.settings, holds⟩
  rw [supplied.settings] at folds
  exact supplied.tree.foldedWith folds

theorem endsSupplied_expand (supplied : run.IsSupplied config) :
    EndsSupplied config (fun _ => True) (expand.perform run) := by
  refine .requireStage supplied ?_
  rw [perform_bind, perform_get]
  refine .bind (.guarded ?_) fun tree after holds supplied => .keepTree supplied holds
  rw [expandTree, perform_ofFunction]
  rcases expanded : (Expander.expand run.limit run.currentTree).perform { table := run.table } with
    ⟨failure | tree, state⟩
  · exact .error (Expander.isMissing_expand expanded) ⟨supplied.settings, supplied.tree⟩
  · have treeSupplied : tree.IsSupplied config :=
      ((Expander.carries_expand run.limit supplied.tree).ok (Expander.knows_fresh _) expanded).2
    exact .ok treeSupplied ⟨supplied.settings, supplied.tree⟩

theorem endsSupplied_lower (machine : config.architecture.emitsHostCode = false)
    (supplied : run.IsSupplied config) :
    EndsSupplied config (fun _ => True) (lower.perform run) := by
  refine .requireStage supplied ?_
  rw [perform_bind, perform_get]
  refine .bind (.guarded (.onTable (fun _ => True) supplied (fun _ _ _ => trivial)
    fun failure after failed => ?_)) fun statements after _ supplied =>
      .ok trivial ⟨supplied.settings, supplied.tree⟩
  rw [supplied.settings] at failed
  exact Backend.isMissing_lowerStatements machine supplied.tree failed

theorem endsSupplied_emit (supplied : run.IsSupplied config) :
    EndsSupplied config (fun _ => True) (emit.perform run) :=
  .requireStage supplied (.ok trivial ⟨supplied.settings, supplied.tree⟩)

/-! ### Attempts -/

theorem EndsSupplied.discard {step : Run α}
    (ends : EndsSupplied config ensured (step.perform run)) :
    EndsSupplied config (fun _ => True) ((discard step : Run Unit).perform run) := by
  rw [perform_discard]
  generalize step.perform run = result at ends
  cases ends with
  | ok _ supplied => exact .ok trivial supplied
  | error isOther supplied => exact .error isOther supplied

theorem Pass.endsSupplied (machine : config.architecture.emitsHostCode = false) (pass : Pass)
    (later : pass.source ≠ .parsed) (supplied : run.IsSupplied config) :
    EndsSupplied config (fun _ => True) (pass.action.perform run) := by
  cases pass with
  | load | accept => exact absurd rfl later
  | fold => exact (endsSupplied_fold supplied).discard
  | expand => exact (endsSupplied_expand supplied).discard
  | lower => exact (endsSupplied_lower machine supplied).discard
  | emit => exact (endsSupplied_emit supplied).discard

/-- Whether an attempt does not fail for the lack of a layout value. -/
def Attempt.IsSupplied (attempt : Attempt) : Prop :=
  ∀ failure, attempt.outcome = .error failure → failure.isMissing = false

theorem Attempt.isSupplied {attempt : Attempt} (ends : EndsSupplied config (fun _ => True)
    (attempt.pass.action.perform attempt.before)) :
    attempt.IsSupplied ∧ attempt.after.IsSupplied config := by
  unfold Attempt.IsSupplied Attempt.outcome Attempt.after
  generalize attempt.pass.action.perform attempt.before = result at ends
  cases ends with
  | ok _ supplied => exact ⟨fun _ impossible => (by cases impossible), supplied⟩
  | error isOther supplied =>
    refine ⟨fun failure same => ?_, supplied⟩
    cases same
    exact isOther

/-- Whether attempts at passes in a row do not fail for the lack of a layout value, and leave a
supplied run. -/
def StaySupplied (config : Configuration) (passes : List Pass) (run : Compilation) : Prop :=
  (∀ attempt ∈ attempts passes run, attempt.IsSupplied) ∧
    ((inOrder passes).perform run).2.IsSupplied config

theorem StaySupplied.cons {pass : Pass} {rest : List Pass}
    (ends : EndsSupplied config (fun _ => True) (pass.action.perform run))
    (continues : ∀ after, after.IsSupplied config → StaySupplied config rest after) :
    StaySupplied config (pass :: rest) run := by
  let attempt : Attempt := ⟨pass, run⟩
  obtain ⟨first, supplied⟩ := @Attempt.isSupplied config attempt ends
  obtain ⟨others, final⟩ := continues attempt.after supplied
  have performed : pass.action.perform run = (attempt.outcome, attempt.after) := rfl
  rw [StaySupplied, inOrder, perform_bind, performed]
  show (∀ other ∈ attempt :: ite _ _ _, _) ∧ _
  unfold Attempt.succeeds
  rw [forall_mem_cons]
  cases attempt.outcome with
  | ok => exact ⟨⟨first, others⟩, final⟩
  | error => exact ⟨⟨first, by simp [Except.isOk, Except.toBool]⟩, supplied⟩

theorem staySupplied_later (machine : config.architecture.emitsHostCode = false)
    {passes : List Pass} (later : ∀ pass ∈ passes, pass.source ≠ .parsed) :
    ∀ run, run.IsSupplied config → StaySupplied config passes run := by
  induction passes with
  | nil => exact fun run supplied => ⟨by simp [attempts], supplied⟩
  | cons pass rest ih =>
    obtain ⟨firstLater, restLater⟩ := forall_mem_cons.mp later
    exact fun run supplied => .cons (pass.endsSupplied machine firstLater supplied) (ih restLater)

theorem Call.later_laterPasses (call : Call) : ∀ pass ∈ call.laterPasses, pass.source ≠ .parsed := by
  cases call <;> simp [laterPasses, Pass.source]

theorem isSupplied_history (machine : config.architecture.emitsHostCode = false)
    {calls : List Call} (later : ∀ call ∈ calls, call.firstPass.source ≠ .parsed)
    (supplied : run.IsSupplied config) : ∀ attempt ∈ history calls run, attempt.IsSupplied := by
  induction calls generalizing run with
  | nil => simp [history]
  | cons call rest ih =>
    obtain ⟨firstLater, restLater⟩ := forall_mem_cons.mp later
    obtain ⟨first, after⟩ := staySupplied_later machine
      (forall_mem_cons.mpr ⟨firstLater, call.later_laterPasses⟩) run supplied
    rw [history, call.action_eq, forall_mem_append]
    exact ⟨first, ih restLater after⟩

/-- A configuration that has a value for every layout constant that is listed for the loaded tree
never lacks one: not in a run of all passes on the document, nor if the passes are called one by
one, in whatever order. -/
theorem layoutConstants_suffice {table loadedTable : SymbolTable} {document : Value}
    {filename : String} {tree : Node} {count : Nat} {constants : List Node} {includePrelude : Bool}
    {limit : Int} {first : Call} {calls : List Call}
    (machine : configuration.architecture.emitsHostCode = false)
    (loads : table.resetReferenced.load document filename = (.ok (tree, count), loadedTable))
    (lists : tree.layoutConstantsUsed = .ok constants)
    (valued : ∀ origin which, .layout origin which ∈ constants →
      (configuration.layoutValue? which.key).isSome)
    (begins : first.firstPass = .load document filename)
    (later : ∀ call ∈ calls, call.firstPass.source ≠ .parsed) :
    ∀ attempt ∈ history (first :: calls) (start configuration table includePrelude limit),
      ∀ failure, attempt.outcome = .error failure → failure.isMissing = false := by
  have supplied : tree.IsSupplied configuration := by
    intro part inside
    cases isLayout : part.isLayoutConstant with
    | false => exact isMissing_of_other isLayout
    | true =>
      have listed := mem_layoutConstantsUsed
        ((SymbolTable.loads_load loads).interned.2 _ List.mem_cons_self) lists inside isLayout
      cases part with
      | layout origin which => simpa [isMissing] using valued origin which listed
      | _ => cases isLayout
  have started : (start configuration table includePrelude limit).IsSupplied configuration :=
    ⟨rfl, throughout_leaf rfl rfl⟩
  have loading : EndsSupplied configuration (fun _ => True) (first.firstPass.action.perform
      (start configuration table includePrelude limit)) := by
    rw [begins]
    exact (endsSupplied_load started loads supplied).discard
  obtain ⟨atFirst, after⟩ := StaySupplied.cons loading
    (staySupplied_later machine first.later_laterPasses)
  rw [history, first.action_eq, List.forall_mem_append]
  exact ⟨atFirst, isSupplied_history machine later after⟩

/-- A unit that moves the offset of a field, by way of a constant: a machine without a value for the
offset cannot lower it, and one with the value does not miss it. -/
theorem layoutConstants_suffice_offset :
    let document := documentOf [
      documentNode "ConstDecl" [("variable", .text "next"),
        ("value", documentNode "StructOffset" [("struct", .text "Cell"), ("field", .text "next")])],
      documentNode "Instruction" [("opcode", .text "move"), ("operands",
        .list [variableIn "next", documentNode "RegisterID" [("name", .text "t0")]])]]
    let machine := fun layout : List (String × Int) =>
      (⟨.arm64, Configuration.defaultFeatures, [("t0", "x0")], layout⟩ : Configuration)
    let begun := fun layout => start (machine layout) .empty false Expander.defaultLimit
    (∃ failure, ((runDocument document "<json>").perform (begun [])).1 = .error failure ∧
      failure.isMissing = true) ∧
    ∀ attempt ∈ history [.runDocument document "<json>"] (begun [("Cell::next", 8)]),
      ∀ failure, attempt.outcome = .error failure → failure.isMissing = false := by
  intro document machine begun
  let place : Origin := ⟨"<json>", 0, 0⟩
  let constant := Node.layout place (.offset "Cell" "next")
  let tree := Node.sequence place [.constant place ⟨place, "next", .null⟩ constant,
    .instruction place "move" [.var ⟨place, "next", .null⟩, .register place .general "t0"] .null]
  let loaded := SymbolTable.empty.resetReferenced.load document "<json>"
  have loads : loaded = (.ok (tree, 6), loaded.2) := Prod.ext rfl rfl
  have lists : tree.layoutConstantsUsed = .ok [constant] := by
    show Except.ok (List.mergeSort [constant] _) = _
    rw [List.mergeSort_singleton]
  have valued : ∀ origin which, .layout origin which ∈ [constant] →
      ((machine [("Cell::next", 8)]).layoutValue? which.key).isSome := by
    intro origin which member
    have same : Node.layout origin which = .layout place (.offset "Cell" "next") :=
      List.mem_singleton.mp member
    cases same
    rfl
  have fails : ((runDocument document "<json>").perform (begun [])).1 =
      .error (.diagnostic ⟨.noLayoutValue "Cell::next", some place, none⟩) := by
    decide +kernel
  refine ⟨⟨_, fails, rfl⟩, ?_⟩
  exact layoutConstants_suffice rfl loads lists valued rfl (by simp)

end Compilation

end MacroAssembler
