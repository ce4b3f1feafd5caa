/-
This module follows a run of the compiler through all the calls that are made on it.

A call is a pass, or all passes in a row. Whatever is called, what happens to the run is a list of
attempts at a pass, and an attempt can do four things: it is refused because the run is in another
stage, it takes the run one stage further, it aborts the run, or it meets a fault, which says
nothing about the unit. That is proved once for every pass.
-/
import MacroAssembler.Proofs.Avoidance
import MacroAssembler.Proofs.CompiledUnit
import MacroAssembler.Proofs.PreludeMacros

namespace MacroAssembler.Compilation

open Action List

/-! ### Passes and calls -/

inductive Pass
  | load (document : Value) (filename : String)
  | accept (tree : Node)
  | fold
  | expand
  | lower
  | emit

namespace Pass

def action : Pass → Run Unit
  | load document filename => discard (Compilation.load document filename)
  | accept tree => discard (Compilation.accept tree)
  | fold => discard Compilation.fold
  | expand => discard Compilation.expand
  | lower => discard Compilation.lower
  | emit => discard Compilation.emit

def source : Pass → Stage
  | load .. | accept _ => .parsed
  | fold => .interned
  | expand => .folded
  | lower => .expanded
  | emit => .lowered

def target : Pass → Stage
  | load .. | accept _ => .interned
  | fold => .folded
  | expand => .expanded
  | lower => .lowered
  | emit => .emitted

end Pass

inductive Call
  | pass (pass : Pass)
  | runDocument (document : Value) (filename : String)
  | runTree (tree : Node)

namespace Call

def action : Call → Run Unit
  | .pass first => first.action
  | .runDocument document filename => discard (Compilation.runDocument document filename)
  | .runTree tree => discard (Compilation.runTree tree)

def firstPass : Call → Pass
  | .pass first => first
  | .runDocument document filename => .load document filename
  | .runTree tree => .accept tree

/-- The passes that a call makes after the first one. -/
def laterPasses : Call → List Pass
  | .pass _ => []
  | .runDocument .. | .runTree _ => [.fold, .expand, .lower, .emit]

end Call

/-! ### Attempts -/

structure Attempt where
  pass : Pass
  before : Compilation

namespace Attempt

def outcome (attempt : Attempt) : Checked Unit := (attempt.pass.action.perform attempt.before).1

def after (attempt : Attempt) : Compilation := (attempt.pass.action.perform attempt.before).2

def succeeds (attempt : Attempt) : Bool := attempt.outcome.isOk

/-- Whether the pass is refused in another stage than its own, and nothing is changed. -/
def IsRefused (attempt : Attempt) : Prop :=
  attempt.before.stage ≠ attempt.pass.source ∧
    (∃ problem, attempt.outcome = .error (.diagnostic problem) ∧ problem.cause.kind = .stage) ∧
    attempt.after = attempt.before

/-- Whether the pass takes the run from its stage to the next one. -/
def IsAdvance (attempt : Attempt) : Prop :=
  attempt.before.stage = attempt.pass.source ∧ attempt.outcome = .ok () ∧
    attempt.after.stage = attempt.pass.target

/-- Whether the pass fails in its stage with a diagnostic, and the run is aborted. -/
def IsAbort (attempt : Attempt) : Prop :=
  attempt.before.stage = attempt.pass.source ∧
    (∃ problem, attempt.outcome = .error (.diagnostic problem)) ∧
    attempt.after.stage = .aborted

/-- Whether the pass fails in its stage with a fault, and the run stays in it. -/
def IsFault (attempt : Attempt) : Prop :=
  attempt.before.stage = attempt.pass.source ∧ (∃ fault, attempt.outcome = .error (.fault fault)) ∧
    attempt.after.stage = attempt.before.stage

end Attempt

/-- The attempts of passes in a row. The first one that fails is the last one. -/
def attempts : List Pass → Compilation → List Attempt
  | [], _ => []
  | pass :: rest, run =>
    let attempt : Attempt := ⟨pass, run⟩
    attempt :: if attempt.succeeds then attempts rest attempt.after else []

def performAll : List Call → Compilation → Compilation
  | [], run => run
  | call :: rest, run => performAll rest (call.action.perform run).2

def history : List Call → Compilation → List Attempt
  | [], _ => []
  | call :: rest, run =>
    attempts (call.firstPass :: call.laterPasses) run ++ history rest (call.action.perform run).2

/-- Whether attempts lead from one state of a run to another, each from where the one before it
ended. -/
inductive Leads : Compilation → List Attempt → Compilation → Prop
  | nothing (run : Compilation) : Leads run [] run
  | attempt {attempt : Attempt} {rest : List Attempt} {final : Compilation}
      (later : Leads attempt.after rest final) : Leads attempt.before (attempt :: rest) final

/-! ### What a pass can do -/

/-- How the work of a pass can end, in a run of the stage of the pass. -/
inductive Ends {α : Type} (target : Stage) (run : Compilation) : Checked α × Compilation → Prop
  | advanced {value : α} {after : Compilation} (stage : after.stage = target)
      (emission : after.emission.isSome = (run.emission.isSome || decide (target = .emitted))) :
      Ends target run (.ok value, after)
  | aborted {problem : Diagnostic} {after : Compilation} (stage : after.stage = .aborted)
      (emission : after.emission = run.emission) :
      Ends target run (.error (.diagnostic problem), after)
  | faulted {fault : Fault} {after : Compilation} (stage : after.stage = run.stage)
      (emission : after.emission = run.emission) : Ends target run (.error (.fault fault), after)

/-- Whether a step leaves the stage and the emission alone. -/
def Keeps {α : Type} (step : Run α) : Prop :=
  ∀ run, (step.perform run).2.stage = run.stage ∧ (step.perform run).2.emission = run.emission

variable {expected : Stage} {action : String}

section Steps

variable {σ α β : Type} {target : Stage} {run : Compilation}

theorem Ends.of_kept {middle : Compilation} {result : Checked α × Compilation}
    (ends : Ends target middle result) (stage : middle.stage = run.stage)
    (emission : middle.emission = run.emission) : Ends target run result := by
  cases ends with
  | advanced at_ emitted => exact .advanced at_ (emission ▸ emitted)
  | aborted at_ kept => exact .aborted at_ (kept.trans emission)
  | faulted at_ kept => exact .faulted (at_.trans stage) (kept.trans emission)

variable {next : α → Run β}

theorem ends_guarded {step : Run α} (keeps : Keeps step)
    (continues : ∀ value middle, middle.stage = run.stage →
      Ends target middle ((next value).perform middle)) :
    Ends target run ((guarded step >>= next).perform run) := by
  obtain ⟨stage, emission⟩ := keeps run
  rw [perform_bind, guarded, perform_ofFunction]
  generalize step.perform run = result at stage emission
  rcases result with ⟨(problem | fault) | value, after⟩
  · exact .aborted rfl emission
  · exact .faulted stage emission
  · exact (continues value after stage).of_kept stage emission

theorem ends_unguarded {step : Run α} (keeps : Keeps step)
    (silent : step.Avoids Failure.IsDiagnostic)
    (continues : ∀ value middle, middle.stage = run.stage →
      Ends target middle ((next value).perform middle)) :
    Ends target run ((step >>= next).perform run) := by
  obtain ⟨stage, emission⟩ := keeps run
  have silent := silent run
  rw [perform_bind]
  generalize step.perform run = result at stage emission silent
  rcases result with ⟨(problem | fault) | value, after⟩
  · exact absurd ⟨problem, rfl⟩ (silent _ after rfl)
  · exact .faulted stage emission
  · exact (continues value after stage).of_kept stage emission

theorem ends_keepTree {tree : Node} (other : target ≠ .emitted) :
    Ends target run ((keepTree target tree).perform run) :=
  .advanced rfl (by simp [other])

theorem requireStage_other (action : String) (other : run.stage ≠ expected) :
    ∃ problem, (requireStage expected action).perform run = (.error (.diagnostic problem), run) ∧
      problem.cause.kind = .stage := by
  rw [requireStage, perform_bind]
  by_cases aborted : run.stage = .aborted
  · exact ⟨⟨.afterAbort action, none, none⟩, by simp [aborted, report], rfl⟩
  · exact ⟨⟨.outOfOrder action run.stage.name expected.name, none, none⟩,
      by simp [aborted, other, report], rfl⟩

end Steps

/-! ### Steps that report nothing -/

theorem silent_definedMacros (statements : List Node) : (definedMacros statements).IsSilent := by
  fun_induction definedMacros statements with
  | case1 => exact .pure _
  | case2 origin name parameters body rest present ih =>
    exact (silent_toName name).bind fun _ => ih.bind fun _ => .pure _
  | case3 _ _ _ _ _ _ ih => exact ih
  | case4 _ _ _ ih => exact ih

theorem avoids_withPrelude (tree : Node) : (withPrelude tree).Avoids Failure.IsDiagnostic := by
  refine .bind (.lift (silent_definedMacros _)) fun _ => .bind (fun _ _ _ failed => ?_) fun _ => ?_
  · rw [perform_onTable, Prod.mk.injEq] at failed
    exact absurd (perform_of_fst failed.1) Specialization.prelude_ne_error
  · exact .bind (.modify _) fun _ => .bind (.modify _) fun _ => .pure _

/-! ### The passes -/

theorem keeps_bind {α β : Type} {first : Run α} {next : α → Run β} (keeps : Keeps first)
    (continues : ∀ value, Keeps (next value)) : Keeps (first >>= next) := by
  intro run
  obtain ⟨stage, emission⟩ := keeps run
  rw [perform_bind]
  generalize first.perform run = result at stage emission
  rcases result with ⟨failure | value, middle⟩
  · exact ⟨stage, emission⟩
  · obtain ⟨stageAfter, emissionAfter⟩ := continues value middle
    exact ⟨stageAfter.trans stage, emissionAfter.trans emission⟩

theorem keeps_onTable {α : Type} (step : Action SymbolTable α) : Keeps (onTable step) :=
  fun _ => ⟨rfl, rfl⟩

theorem keeps_withPrelude (tree : Node) : Keeps (withPrelude tree) := by
  refine keeps_bind (fun _ => ⟨rfl, rfl⟩) fun _ => keeps_bind (keeps_onTable _) fun _ => ?_
  exact keeps_bind (fun _ => ⟨rfl, rfl⟩) fun _ => keeps_bind (fun _ => ⟨rfl, rfl⟩) fun _ =>
    fun _ => ⟨rfl, rfl⟩

theorem keeps_loadTree (document : Value) (filename : String) :
    Keeps (loadTree document filename) := by
  refine keeps_bind (keeps_onTable _) fun _ => ?_
  exact keeps_bind (fun _ => ⟨rfl, rfl⟩) fun _ _ => ⟨rfl, rfl⟩

section Passes

variable {run : Compilation}

theorem ends_accept {tree : Node} (own : run.stage = .parsed) :
    Ends .interned run ((accept tree).perform run) := by
  rw [accept, perform_bind, requireStage_own own (by decide)]
  show Ends _ _ (Action.perform (if run.includePrelude then _ else _) run)
  split
  · exact ends_unguarded (keeps_withPrelude tree) (avoids_withPrelude tree)
      fun _ _ _ => ends_keepTree (by decide)
  · exact ends_keepTree (by decide)

theorem ends_load {document : Value} {filename : String} (own : run.stage = .parsed) :
    Ends .interned run ((load document filename).perform run) := by
  rw [load, perform_bind, requireStage_own own (by decide)]
  exact ends_guarded (keeps_loadTree document filename)
    fun _ _ stage => ends_accept (stage.trans own)

theorem ends_fold (own : run.stage = .interned) : Ends .folded run (fold.perform run) := by
  rw [fold, perform_bind, requireStage_own own (by decide)]
  exact ends_guarded (fun _ => ⟨rfl, rfl⟩) fun _ _ _ => .of_kept (ends_keepTree (by decide)) rfl rfl

theorem ends_expand (own : run.stage = .folded) : Ends .expanded run (expand.perform run) := by
  rw [expand, perform_bind, requireStage_own own (by decide)]
  exact ends_guarded (fun _ => ⟨rfl, rfl⟩) fun _ _ _ => ends_keepTree (by decide)

theorem ends_lower (own : run.stage = .expanded) : Ends .lowered run (lower.perform run) := by
  rw [lower, perform_bind, requireStage_own own (by decide)]
  exact ends_guarded (fun _ => ⟨rfl, rfl⟩) fun _ _ _ => .advanced rfl (by simp)

theorem ends_emit (own : run.stage = .lowered) : Ends .emitted run (emit.perform run) := by
  rw [emit, perform_bind, requireStage_own own (by decide)]
  exact .advanced rfl (by simp)

end Passes

theorem discard_eq {σ α : Type} (action : Action σ α) :
    (discard action : Action σ Unit) = action >>= fun _ => pure () := rfl

theorem perform_discard {σ α : Type} (action : Action σ α) (state : σ) :
    (discard action : Action σ Unit).perform state =
      ((action.perform state).1.map fun _ => (), (action.perform state).2) := by
  rw [discard_eq, perform_bind]
  rcases action.perform state with ⟨failure | value, after⟩ <;> rfl

theorem Ends.discard {α : Type} {target : Stage} {run : Compilation} {step : Run α}
    (ends : Ends target run (step.perform run)) :
    Ends target run ((discard step : Run Unit).perform run) := by
  rw [perform_discard]
  generalize step.perform run = result at ends
  cases ends with
  | advanced stage emission => exact .advanced stage emission
  | aborted stage emission => exact .aborted stage emission
  | faulted stage emission => exact .faulted stage emission

theorem refused_bind {α : Type} {run : Compilation} {work : Unit → Run α}
    (other : run.stage ≠ expected) :
    ∃ problem, (discard (requireStage expected action >>= work) : Run Unit).perform run =
      (.error (.diagnostic problem), run) ∧ problem.cause.kind = .stage := by
  obtain ⟨problem, refused, kind⟩ := requireStage_other action other
  refine ⟨problem, ?_, kind⟩
  rw [perform_discard, perform_bind, refused]
  rfl

namespace Pass

variable {run : Compilation}

theorem source_ne (pass : Pass) : pass.source ≠ .emitted ∧ pass.source ≠ .aborted := by
  cases pass <;> simp [source]

theorem refused (pass : Pass) (other : run.stage ≠ pass.source) :
    ∃ problem, pass.action.perform run = (.error (.diagnostic problem), run) ∧
      problem.cause.kind = .stage := by
  cases pass with
  | load | accept | fold | expand | lower | emit => exact refused_bind other

/-- A pass in its own stage goes on to the next one, aborts the run or meets a fault. -/
theorem ends (pass : Pass) (own : run.stage = pass.source) :
    Ends pass.target run (pass.action.perform run) := by
  cases pass with
  | load => exact (ends_load own).discard
  | accept => exact (ends_accept own).discard
  | fold => exact (ends_fold own).discard
  | expand => exact (ends_expand own).discard
  | lower => exact (ends_lower own).discard
  | emit => exact (ends_emit own).discard

end Pass

/-! ### Attempts, one by one -/

namespace Attempt

/-- Every attempt is refused, goes on to the next stage, aborts the run or meets a fault. -/
theorem classified (attempt : Attempt) :
    attempt.IsRefused ∨ attempt.IsAdvance ∨ attempt.IsAbort ∨ attempt.IsFault := by
  by_cases own : attempt.before.stage = attempt.pass.source
  · have ends := attempt.pass.ends own
    unfold IsAdvance IsAbort IsFault outcome after
    generalize attempt.pass.action.perform attempt.before = result at ends
    cases ends with
    | advanced stage => exact .inr (.inl ⟨own, rfl, stage⟩)
    | aborted stage => exact .inr (.inr (.inl ⟨own, ⟨_, rfl⟩, stage⟩))
    | faulted stage => exact .inr (.inr (.inr ⟨own, ⟨_, rfl⟩, stage⟩))
  · obtain ⟨problem, refused, kind⟩ := attempt.pass.refused own
    exact .inl ⟨own, ⟨problem, congrArg Prod.fst refused, kind⟩, congrArg Prod.snd refused⟩

end Attempt

/-- Whether a run has an emission exactly when it is emitted. -/
def EmissionFits (run : Compilation) : Prop := run.emission.isSome ↔ run.stage = .emitted

theorem Attempt.emissionFits (attempt : Attempt) (fits : attempt.before.EmissionFits) :
    attempt.after.EmissionFits := by
  by_cases own : attempt.before.stage = attempt.pass.source
  · have ends := attempt.pass.ends own
    have absent : attempt.before.emission = none :=
      Option.not_isSome_iff_eq_none.mp (mt fits.mp (own ▸ attempt.pass.source_ne.1))
    unfold Attempt.after EmissionFits
    generalize attempt.pass.action.perform attempt.before = result at ends
    cases ends with
    | advanced stage emission => simp [stage, emission, absent]
    | aborted stage emission => simp [stage, emission, absent]
    | faulted stage emission => rw [stage, emission]; exact fits
  · obtain ⟨problem, refused, -⟩ := attempt.pass.refused own
    have same : attempt.after = attempt.before := congrArg Prod.snd refused
    exact same ▸ fits

/-! ### Many attempts -/

namespace Leads

variable {run middle final : Compilation} {first second events : List Attempt}

theorem append (leads : Leads run first middle) (later : Leads middle second final) :
    Leads run (first ++ second) final := by
  induction leads with
  | nothing => exact later
  | attempt _ ih => exact .attempt (ih later)

theorem keeps {invariant : Compilation → Prop}
    (kept : ∀ attempt : Attempt, invariant attempt.before → invariant attempt.after)
    (leads : Leads run events final) (initially : invariant run) :
    (∀ attempt ∈ events, invariant attempt.before ∧ invariant attempt.after) ∧ invariant final := by
  induction leads with
  | nothing => exact ⟨by simp, initially⟩
  | @attempt attempt rest final _ ih =>
    have next := kept attempt initially
    obtain ⟨others, finally_⟩ := ih next
    exact ⟨forall_mem_cons.mpr ⟨⟨initially, next⟩, others⟩, finally_⟩

theorem refused (leads : Leads run events final) (aborted : run.stage = .aborted) :
    ∀ attempt ∈ events, attempt.IsRefused := by
  induction leads with
  | nothing => simp
  | @attempt attempt rest final _ ih =>
    have refused : attempt.IsRefused := by
      have other : attempt.before.stage ≠ attempt.pass.source :=
        aborted ▸ attempt.pass.source_ne.2.symm
      rcases attempt.classified with refused | advance | abort | fault
      · exact refused
      · exact absurd advance.1 other
      · exact absurd abort.1 other
      · exact absurd fault.1 other
    exact forall_mem_cons.mpr ⟨refused, ih (refused.2.2 ▸ aborted)⟩

theorem pairwise_refused (leads : Leads run events final) : events.Pairwise fun earlier later =>
      earlier.after.stage = .aborted → later.IsRefused := by
  induction leads with
  | nothing => exact .nil
  | attempt later ih =>
    exact .cons (fun attempt mem aborted => later.refused aborted attempt mem) ih

end Leads

/-- The stages that a run in a stage has still to come to. -/
def stagesAfter : Stage → List Stage
  | .parsed => [.interned, .folded, .expanded, .lowered, .emitted]
  | .interned => [.folded, .expanded, .lowered, .emitted]
  | .folded => [.expanded, .lowered, .emitted]
  | .expanded => [.lowered, .emitted]
  | .lowered => [.emitted]
  | .emitted | .aborted => []

theorem Pass.stagesAfter_source (pass : Pass) :
    stagesAfter pass.source = pass.target :: stagesAfter pass.target := by
  cases pass <;> rfl

/-- The stages that successful passes lead to are the next ones, in their order. -/
theorem Leads.successes {run final : Compilation} {events : List Attempt}
    (leads : Leads run events final) :
    (events.filter Attempt.succeeds).map (fun attempt => attempt.pass.target) <+:
      stagesAfter run.stage := by
  induction leads with
  | nothing => exact nil_prefix
  | @attempt attempt rest final _ ih =>
    rcases attempt.classified with ⟨-, ⟨problem, failed, -⟩, same⟩ | ⟨own, ran, next⟩ |
      ⟨-, ⟨problem, failed⟩, aborted⟩ | ⟨-, ⟨fault, failed⟩, same⟩
    · rw [filter_cons_of_neg (by simp [Attempt.succeeds, failed, Except.isOk, Except.toBool])]
      exact same ▸ ih
    · rw [filter_cons_of_pos (by simp [Attempt.succeeds, ran, Except.isOk,
        Except.toBool]), map_cons, own, attempt.pass.stagesAfter_source]
      exact prefix_cons_inj _ |>.mpr (next ▸ ih)
    · rw [filter_cons_of_neg (by simp [Attempt.succeeds, failed, Except.isOk, Except.toBool])]
      rw [aborted] at ih
      exact (prefix_nil.mp ih) ▸ nil_prefix
    · rw [filter_cons_of_neg (by simp [Attempt.succeeds, failed, Except.isOk, Except.toBool])]
      exact same ▸ ih

/-! ### Calls -/

def inOrder : List Pass → Run Unit
  | [] => pure ()
  | pass :: rest => do
    pass.action
    inOrder rest

theorem leads_attempts (passes : List Pass) (run : Compilation) :
    Leads run (attempts passes run) ((inOrder passes).perform run).2 := by
  induction passes generalizing run with
  | nil => exact .nothing run
  | cons pass rest ih =>
    let attempt : Attempt := ⟨pass, run⟩
    show Leads attempt.before (attempt :: _) _
    refine .attempt ?_
    have performed : pass.action.perform run = (attempt.outcome, attempt.after) := rfl
    rw [inOrder, perform_bind, performed]
    unfold Attempt.succeeds
    cases attempt.outcome with
    | ok => exact ih _
    | error => exact .nothing _

theorem Call.action_eq (call : Call) :
    call.action = inOrder (call.firstPass :: call.laterPasses) := by
  cases call with
  | pass pass => simp [action, firstPass, laterPasses, inOrder]
  | runDocument document filename =>
    simp only [action, firstPass, laterPasses, inOrder, Pass.action, Compilation.runDocument,
      finish, discard_eq, bind_assoc, pure_bind]
  | runTree tree =>
    simp only [action, firstPass, laterPasses, inOrder, Pass.action, Compilation.runTree,
      finish, discard_eq, bind_assoc, pure_bind]

theorem Call.refused {run : Compilation} (call : Call) (other : run.stage ≠ call.firstPass.source) :
    ∃ problem, call.action.perform run = (.error (.diagnostic problem), run) ∧
      problem.cause.kind = .stage := by
  obtain ⟨problem, refused, kind⟩ := call.firstPass.refused other
  exact ⟨problem, by rw [call.action_eq, inOrder, perform_bind, refused], kind⟩

theorem leads_history (calls : List Call) (run : Compilation) :
    Leads run (history calls run) (performAll calls run) := by
  induction calls generalizing run with
  | nil => exact .nothing run
  | cons call rest ih =>
    refine .append ?_ (ih _)
    rw [call.action_eq]
    exact leads_attempts _ run

/-- The stages of a run through all calls that are made on it. The attempts at passes lead from the
new run to the run after the calls, and successful ones come to each stage at most once, in order.
An attempt in another stage than its own is refused and changes nothing, and one in its own stage
takes the run to the next stage, or aborts it unless it meets a fault. After an abort there is
nothing but refusals. A run has an emission exactly when it is emitted. -/
theorem history_stages (configuration : Configuration) (table : SymbolTable) (includePrelude : Bool)
    (limit : Int) (calls : List Call) :
    let first := start configuration table includePrelude limit
    let final := performAll calls first
    let events := history calls first
    Leads first events final ∧
      (events.filter Attempt.succeeds).map (fun attempt => attempt.pass.target) <+:
        [.interned, .folded, .expanded, .lowered, .emitted] ∧
      (∀ attempt ∈ events,
        attempt.IsRefused ∨ attempt.IsAdvance ∨ attempt.IsAbort ∨ attempt.IsFault) ∧
      (events.Pairwise fun earlier later => earlier.after.stage = .aborted → later.IsRefused) ∧
      (∀ call : Call, final.stage ≠ call.firstPass.source →
        ∃ problem, call.action.perform final = (.error (.diagnostic problem), final) ∧
          problem.cause.kind = .stage) ∧
      (∀ attempt ∈ events, attempt.before.EmissionFits ∧ attempt.after.EmissionFits) ∧
      final.EmissionFits := by
  intro first final events
  have leads : Leads first events final := leads_history calls first
  have fits : first.EmissionFits := by simp [EmissionFits, first, start]
  exact ⟨leads, leads.successes, fun attempt _ => attempt.classified, leads.pairwise_refused,
    fun call other => call.refused other, leads.keeps Attempt.emissionFits fits⟩

end MacroAssembler.Compilation
