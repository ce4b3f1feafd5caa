/-
This module says that expansion ends, and that the limit on the depth of invocations does no more
than to cut it off.

Expansion counts down the depth that is left, and ends because of that. But an invocation is a jump
to a body that is no part of it, and the body may invoke the same macro again: what stops it is that
the open invocations are counted and the count is compared with the limit. Here this is a machine
that keeps a stack of the work that is left. It has no other bound than the comparison. From every
unit it comes to an end, with the outcome of expansion, and on its way there are never more
invocations open than the limit allows.

Of a step of the machine only the comparison depends on the limit. So a machine with a lower limit
takes the same steps as one with a higher limit, until it refuses an invocation.
-/
import MacroAssembler.Proofs.ExpansionRun
import MacroAssembler.Proofs.InvokedBindings
import Mathlib.Logic.Relation

namespace MacroAssembler

open Action Expander List Relation

/-! ### The machine -/

inductive Work
  | unit (tree : Node)
  | statement (node : Node)
  | resolved (node : Node)
  | collect
  /-- Make a conditional of the last two lists of results. -/
  | join (origin : Origin) (predicate thenCase elseCase : Node)
  /-- The end of an open invocation, with the frame it was met in. -/
  | leave (outer : Frame)
  /-- The end of a unit. -/
  | finish (origin : Origin)

structure Machine where
  work : List Work
  /-- The lists of results that are not finished yet, the innermost one first. -/
  results : List (List Node)
  state : Expander

namespace Machine

abbrev Outcome (α : Type) := Checked α × Expander

def isLeave : Work → Bool
  | .leave _ => true
  | _ => false

def openCount (work : List Work) : Nat := work.countP isLeave

theorem openCount_cons (task : Work) (work : List Work) :
    openCount (task :: work) = openCount work + if isLeave task then 1 else 0 :=
  countP_cons

def emit (nodes : List Node) : List (List Node) → List (List Node)
  | [] => [nodes]
  | last :: below => (last ++ nodes) :: below

/-- Open an invocation inside a number of others. This gives its body and the frame it was met in. -/
def enter (limit : Int) (opened : Nat) (invocation : Invocation) : Expand (Node × Frame) := do
  let callee ← calleeOf invocation
  if limit ≤ opened then
    liftM (.error (depthFailure limit invocation.statement) : Checked (Node × Frame))
  else
    let scope ← openScope callee.1 invocation
    countExpansion invocation
    let outer := (← get).frame
    modify fun state => { state with frame := scope :: callee.2 }
    return (callee.1.body, outer)

def invocation? (state : Expander) : Node → Option Invocation
  | .call origin name operands comment writtenName =>
    some ⟨name, writtenName.orElse (.text name), operands,
      .call origin name operands comment writtenName⟩
  | .instruction origin opcode operands comment =>
    if (state.callee? opcode).isSome then
      some ⟨opcode, .text opcode, operands, .instruction origin opcode operands comment⟩
    else none
  | _ => none

def pieces? : Node → Option (List Work)
  | .sequence _ items => some (items.map .statement)
  | .conditional origin predicate thenCase elseCase =>
    some [.collect, .statement thenCase, .collect, .statement elseCase,
      .join origin predicate thenCase elseCase]
  | _ => none

/-- Carry out a piece of work. The rest of the work matters for the number of open invocations. -/
def advance (limit : Int) (rest : List Work) (results : List (List Node)) :
    Work → Expand (List Work × List (List Node))
  | .unit tree => do
    modify fun state => { state with frame := [] }
    collectMacros tree.statements
    let items ← resolveConstants tree.statements
    return (items.map (Sum.elim .resolved .statement) ++ .finish tree.origin :: rest, results)
  | .statement node => do
    match pieces? node, invocation? (← get) node with
    | some pieces, _ => return (pieces ++ rest, results)
    | none, some invocation =>
      let (body, outer) ← enter limit (openCount rest) invocation
      return (.statement body :: .leave outer :: rest, results)
    | none, none =>
      let nodes ← expandNode (fun _ => pure []) node
      return (rest, emit nodes results)
  | .resolved node => return (rest, emit [node] results)
  | .collect => return (rest, [] :: results)
  | .join origin predicate thenCase elseCase =>
    match results with
    | elseItems :: thenItems :: below =>
      return (rest, emit [.conditional origin predicate (.sequence thenCase.origin thenItems)
        (.sequence elseCase.origin elseItems)] below)
    | _ => return (rest, results)
  | .leave outer => do
    modify fun state => { state with frame := outer }
    return (rest, results)
  | .finish origin => do
    let state ← get
    note (.expanded state.expansions state.macros.length state.constants.length)
    return (rest, [[.sequence origin (results.headD [])]])

def next (limit : Int) (machine : Machine) : Machine ⊕ Outcome (List Node) :=
  match machine.work with
  | [] => .inr (.ok machine.results.flatten, machine.state)
  | task :: rest =>
    match (advance limit rest machine.results task).perform machine.state with
    | (.ok (work, results), after) => .inl ⟨work, results, after⟩
    | (.error failure, after) => .inr (.error failure, after)

def Reaches (limit : Int) : Machine → Machine → Prop :=
  ReflTransGen fun before after => before.next limit = .inl after

def Ends (limit : Int) (machine : Machine) (outcome : Outcome (List Node)) : Prop :=
  ∃ last, Reaches limit machine last ∧ last.next limit = .inr outcome

def start (tree : Node) (state : Expander) : Machine := ⟨[.unit tree], [[]], state⟩

variable {limit other : Int} {depth : Nat} {machine : Machine} {state : Expander}
  {outcome : Outcome (List Node)} {task : Work} {work rest : List Work}
  {results below : List (List Node)} {last : List Node} {node : Node} {invocation : Invocation}
  {next : List Node → Expand (List Node)}

/-! ### Runs -/

theorem Ends.unique {first second : Outcome (List Node)} (ends : Ends limit machine first)
    (alsoEnds : Ends limit machine second) : first = second := by
  obtain ⟨final, reaches, stops⟩ := ends
  induction reaches using ReflTransGen.head_induction_on with
  | refl =>
    obtain ⟨_, others, alsoStops⟩ := alsoEnds
    rcases others.cases_head with rfl | ⟨_, goesOn, -⟩
    · exact Sum.inr.inj (stops.symm.trans alsoStops)
    · cases stops.symm.trans goesOn
  | head goesOn _ ih =>
    obtain ⟨_, others, alsoStops⟩ := alsoEnds
    rcases others.cases_head with rfl | ⟨middle, alsoGoesOn, others⟩
    · cases goesOn.symm.trans alsoStops
    · cases goesOn.symm.trans alsoGoesOn
      exact ih ⟨_, others, alsoStops⟩

theorem Ends.step {after : Expander} {outputs : List (List Node)}
    (advances : (advance limit rest results task).perform state = (.ok (work, outputs), after))
    (goesOn : Ends limit ⟨work, outputs, after⟩ outcome) :
    Ends limit ⟨task :: rest, results, state⟩ outcome := by
  obtain ⟨final, reaches, stops⟩ := goesOn
  refine ⟨final, .head ?_ reaches, stops⟩
  simp only [Machine.next, advances]

/-- A machine whose first piece of work is an action ends as the action does, or as what comes
next. -/
theorem Ends.advance {α : Type} {step : Expand α} {next : α → Expand (List Node)}
    {work : α → List Work} {outputs : α → List (List Node)}
    (advances : (advance limit rest results task).perform state =
      (step >>= fun value => pure (work value, outputs value)).perform state)
    (goesOn : ∀ value after, step.perform state = (.ok value, after) →
      Ends limit ⟨work value, outputs value, after⟩ ((next value).perform after)) :
    Ends limit ⟨task :: rest, results, state⟩ ((step >>= next).perform state) := by
  rw [perform_bind] at advances ⊢
  rcases ran : step.perform state with ⟨failure | value, after⟩ <;> rw [ran] at advances
  · refine ⟨_, .refl, ?_⟩
    simp only [Machine.next, advances]
  · exact .step advances (goesOn value after ran)

/-- Whether the machine carries out some work as a step of expansion with a depth left, whatever
else there is to do. -/
def CarriesOut (limit : Int) (depth : Nat) (step : Expand (List Node)) (work : List Work)
    (state : Expander) : Prop :=
  ∀ rest last below (next : List Node → Expand (List Node)), depth + openCount rest = limit.toNat →
    (∀ nodes after, Ends limit ⟨rest, (last ++ nodes) :: below, after⟩ ((next nodes).perform after)) →
    Ends limit ⟨work ++ rest, last :: below, state⟩ ((step >>= next).perform state)

theorem CarriesOut.of_perform {step same : Expand (List Node)}
    (carries : CarriesOut limit depth step work state)
    (performs : same.perform state = step.perform state) :
    CarriesOut limit depth same work state := by
  intro rest last below next room goesOn
  rw [perform_bind, performs, ← perform_bind]
  exact carries rest last below next room goesOn

theorem carriesOut_nothing : CarriesOut limit depth (pure []) [] state := by
  intro rest last below next room goesOn
  simpa using goesOn [] state

theorem CarriesOut.append {first second : Expand (List Node)} {others : List Work}
    (carries : CarriesOut limit depth first work state)
    (carriesOthers : ∀ after, CarriesOut limit depth second others after)
    (inside : openCount others = 0) :
    CarriesOut limit depth (do
      let nodes ← first
      let more ← second
      return nodes ++ more) (work ++ others) state := by
  intro rest last below next room goesOn
  simp only [bind_assoc, pure_bind, List.append_assoc]
  refine carries _ _ _ _ ?_ fun nodes after => carriesOthers after _ _ _ _ room fun more after => ?_
  · rw [openCount, countP_append]
    rw [openCount] at inside room
    omega
  · simpa [List.append_assoc] using goesOn (nodes ++ more) after

/-- Work that is done in one step of the machine. -/
theorem CarriesOut.of_advance {step : Expand (List Node)}
    (advances : ∀ rest results, (advance limit rest results task).perform state =
      (step >>= fun nodes => pure (rest, emit nodes results)).perform state) :
    CarriesOut limit depth step [task] state := by
  intro rest last below next room goesOn
  exact .advance (advances rest _) fun nodes after _ => goesOn nodes after

theorem openCount_map {α : Type} {items : List α} {task : α → Work}
    (inside : ∀ item, isLeave (task item) = false) : openCount (items.map task) = 0 := by
  simp [openCount, countP_eq_zero, inside]

theorem carriesOut_items {invoke : Invocation → Expand (List Node)} {items : List Node}
    (carries : ∀ item ∈ items, ∀ state,
      CarriesOut limit depth (expandNode invoke item) [.statement item] state) :
    ∀ state, CarriesOut limit depth (expandItems invoke items) (items.map .statement) state := by
  induction items with
  | nil =>
    intro state
    rw [expandItems]
    exact carriesOut_nothing
  | cons item rest ih =>
    intro state
    rw [expandItems]
    obtain ⟨first, others⟩ := forall_mem_cons.mp carries
    exact (first state).append (ih others) (openCount_map fun _ => rfl)

theorem carriesOut_invoke (bodies : ∀ less < depth, ∀ body state,
      CarriesOut limit less (expandNode (invoke limit less) body) [.statement body] state)
    (enters : ∀ rest results, (advance limit rest results task).perform state =
      (enter limit (openCount rest) invocation >>= fun entered =>
        pure (.statement entered.1 :: .leave entered.2 :: rest, results)).perform state) :
    CarriesOut limit depth (invoke limit depth invocation) [task] state := by
  refine .of_perform ?_ perform_invoke
  intro rest last below next room goesOn
  rw [bind_assoc]
  cases depth with
  | zero =>
    have atLimit : limit ≤ openCount rest := by omega
    have refuses : (calleeOf invocation >>= fun callee =>
        expandBody limit invocation 0 callee >>= next) =
        enter limit (openCount rest) invocation >>= fun _ => next [] := by
      simp only [enter, atLimit, if_true, bind_assoc]
      rfl
    rw [refuses]
    refine .advance (enters rest _) fun entered after ran => ?_
    simp [enter, atLimit, perform_bind_ok] at ran
  | succ depth =>
    have notAtLimit : ¬ limit ≤ openCount rest := by omega
    have opens : (calleeOf invocation >>= fun callee =>
        expandBody limit invocation (depth + 1) callee >>= next) =
        enter limit (openCount rest) invocation >>= fun entered =>
          expandNode (invoke limit depth) entered.1 >>= fun nodes =>
            (modify fun state => { state with frame := entered.2 }) >>= fun _ => next nodes := by
      simp only [enter, notAtLimit, if_false, expandBody, inFrame, bind_assoc, pure_bind]
    rw [opens]
    refine .advance (enters rest _) fun entered after _ => ?_
    refine bodies depth (Nat.lt_succ_self depth) entered.1 after (.leave entered.2 :: rest) _ _ _ ?_
      fun nodes after => ?_
    · rw [openCount_cons]
      simp only [isLeave, if_true]
      omega
    · exact .step rfl (goesOn nodes _)

theorem perform_expandNode (single : pieces? node = none)
    (invoke : Invocation → Expand (List Node)) (state : Expander) :
    (expandNode invoke node).perform state =
      match invocation? state node with
      | some invocation => (invoke invocation).perform state
      | none => (expandNode (fun _ => pure []) node).perform state := by
  cases node with
  | instruction origin opcode operands comment =>
    rw [expandNode, expandNode]
    by_cases found : (state.callee? opcode).isSome <;> simp [perform_bind, invocation?, found]
  | sequence | conditional => cases single
  | _ => rfl

theorem carriesOut_statement (depth : Nat) (node : Node) (state : Expander) :
    CarriesOut limit depth (expandNode (invoke limit depth) node) [.statement node] state := by
  -- The depth decreases from an invocation to its body, and the statement from a body to its parts.
  induction depth using Nat.strong_induction_on generalizing node state with
  | _ depth bodies =>
    induction node generalizing state with
    | step node ih =>
      rcases single : pieces? node with _ | pieces
      · have splits := perform_expandNode single (invoke limit depth) state
        rcases met : invocation? state node with _ | invocation <;> rw [met] at splits
        · refine .of_perform (.of_advance fun rest results => ?_) splits
          simp [advance, perform_bind, single, met]
        · refine .of_perform (carriesOut_invoke bodies fun rest results => ?_) splits
          simp [advance, perform_bind, single, met]
      · cases node with
        | sequence origin items =>
          rw [expandNode]
          intro rest last below next room goesOn
          have carries := carriesOut_items fun item mem state => ih item mem state
          exact .step rfl (carries state rest last below next room goesOn)
        | conditional origin predicate thenCase elseCase =>
          rw [expandNode]
          intro rest last below next room goesOn
          simp only [bind_assoc, pure_bind]
          have ofThen := ih thenCase (by simp [Node.children])
          have ofElse := ih elseCase (by simp [Node.children])
          refine .step rfl (.step rfl ?_)
          refine ofThen state _ [] _ _ (by simpa [openCount_cons, isLeave] using room)
            fun thenItems after => .step rfl ?_
          refine ofElse after _ [] _ _ (by simpa [openCount_cons, isLeave] using room)
            fun elseItems after => .step rfl ?_
          exact goesOn _ after
        | _ => cases single

theorem carriesOut_unit (depth : Nat) (items : List (Node ⊕ Node)) (state : Expander) :
    CarriesOut limit depth (expandUnit (invoke limit depth) items)
      (items.map (Sum.elim .resolved .statement)) state := by
  have inside : ∀ item, isLeave (Sum.elim .resolved .statement item) = false := by
    rintro (_ | _) <;> rfl
  induction items generalizing state with
  | nil => exact carriesOut_nothing
  | cons item rest ih =>
    cases item with
    | inl resolved =>
      have gives : CarriesOut limit depth (pure [resolved]) [.resolved resolved] state :=
        .of_advance fun rest results => rfl
      exact gives.append ih (openCount_map inside)
    | inr item => exact (carriesOut_statement depth item state).append ih (openCount_map inside)

/-- The machine ends with the outcome of expansion. -/
theorem ends_start (limit : Int) (tree : Node) (state : Expander) :
    Ends limit (start tree state) ((List.singleton <$> expand limit tree).perform state) := by
  have splits : List.singleton <$> expand limit tree = (do
      modify fun state => { state with frame := [] }
      collectMacros tree.statements
      resolveConstants tree.statements) >>= fun items =>
        expandUnit (invoke limit limit.toNat) items >>= fun nodes => do
          let state ← get
          note (.expanded state.expansions state.macros.length state.constants.length)
          return [.sequence tree.origin nodes] := by
    simp [expand, List.singleton]
  rw [splits]
  refine .advance ?_ fun items after _ => carriesOut_unit limit.toNat items after
    [.finish tree.origin] [] [] _ ?_ fun nodes after => ?_
  · simp [advance]
  · simp [openCount, isLeave]
  · exact .step rfl ⟨_, .refl, rfl⟩

theorem ends_iff (limit : Int) (tree : Node) (state : Expander) (outcome : Outcome (List Node)) :
    Ends limit (start tree state) outcome ↔
      outcome = (List.singleton <$> expand limit tree).perform state := by
  constructor
  · exact fun ends => ends.unique (ends_start limit tree state)
  · rintro rfl
    exact ends_start limit tree state

/-! ### Open invocations -/

theorem openCount_inside {α : Type} {items : List α} {task : α → Work}
    (inside : ∀ item, isLeave (task item) = false) (rest : List Work) :
    openCount (items.map task ++ rest) = openCount rest := by
  rw [openCount, countP_append, ← openCount, openCount_map inside, Nat.zero_add, openCount]

theorem openCount_pieces (pieces : pieces? node = some work) (rest : List Work) :
    openCount (work ++ rest) = openCount rest := by
  cases node with
  | sequence =>
    cases pieces
    exact openCount_inside (fun _ => rfl) rest
  | conditional =>
    cases pieces
    simp [openCount_cons, isLeave]
  | _ => cases pieces

theorem openCount_gives {α : Type} {step : Expand α} {gives : α → List Work × List (List Node)}
    {after : Expander} {count : Nat} {outputs : List (List Node)}
    (counts : ∀ value, openCount (gives value).1 = count)
    (ran : (step >>= fun value => pure (gives value)).perform state = (.ok (work, outputs), after)) :
    openCount work = count := by
  obtain ⟨value, middle, -, gave⟩ := perform_bind_ok.mp ran
  obtain ⟨same, -⟩ := pure_ok.mp gave
  rw [← counts value, same]

/-- What one step can do: it opens an invocation, or it opens none and is the same whatever the
limit is. -/
theorem advance_cases (rest : List Work) (results : List (List Node)) (task : Work)
    (state : Expander) : (∃ invocation, ∀ limit, (advance limit rest results task).perform state =
      (enter limit (openCount rest) invocation >>= fun entered =>
        pure (.statement entered.1 :: .leave entered.2 :: rest, results)).perform state) ∨
    (∀ limit other, (advance limit rest results task).perform state =
      (advance other rest results task).perform state) ∧ ∀ limit work outputs after,
      (advance limit rest results task).perform state = (.ok (work, outputs), after) →
        openCount work = openCount rest := by
  cases task with
  | statement node =>
    rcases single : pieces? node with _ | pieces
    · rcases met : invocation? state node with _ | invocation
      · have emits : ∀ limit, (advance limit rest results (.statement node)).perform state =
            (expandNode (fun _ => pure []) node >>= fun nodes =>
              pure (rest, emit nodes results)).perform state := by
          intro limit
          simp [advance, perform_bind, single, met]
        refine .inr ⟨fun _ _ => by rw [emits, emits], fun limit work outputs after ran => ?_⟩
        exact openCount_gives (fun _ => rfl) ((emits limit).symm.trans ran)
      · refine .inl ⟨invocation, fun limit => ?_⟩
        simp [advance, perform_bind, single, met]
    · have splits : ∀ limit, (advance limit rest results (.statement node)).perform state =
          (.ok (pieces ++ rest, results), state) := by
        intro limit
        simp only [advance, single]
        rfl
      refine .inr ⟨fun _ _ => by rw [splits, splits], fun limit work outputs after ran => ?_⟩
      cases (splits limit).symm.trans ran
      exact openCount_pieces single rest
  | unit tree =>
    refine .inr ⟨fun _ _ => rfl, fun limit work outputs after ran => ?_⟩
    obtain ⟨_, _, -, ran⟩ := perform_bind_ok.mp ran
    obtain ⟨_, _, -, ran⟩ := perform_bind_ok.mp ran
    refine openCount_gives (fun items => ?_) ran
    refine openCount_inside ?_ _
    rintro (_ | _) <;> rfl
  | join =>
    refine .inr ⟨fun _ _ => rfl, fun limit work outputs after ran => ?_⟩
    rcases results with _ | ⟨_, _ | _⟩ <;> cases ran <;> rfl
  | _ =>
    refine .inr ⟨fun _ _ => rfl, fun limit work outputs after ran => ?_⟩
    cases ran
    rfl

theorem next_cons (limit : Int) (rest : List Work) (results : List (List Node)) (task : Work)
    (state : Expander) :
    Machine.next limit ⟨task :: rest, results, state⟩ =
      match (advance limit rest results task).perform state with
      | (.ok (work, outputs), after) => .inl ⟨work, outputs, after⟩
      | (.error failure, after) => .inr (.error failure, after) :=
  rfl

/-- One step leaves no more invocations open than the limit allows. -/
theorem openCount_next {after : Machine} (within : openCount machine.work ≤ limit.toNat)
    (goesOn : machine.next limit = .inl after) : openCount after.work ≤ limit.toNat := by
  obtain ⟨_ | ⟨task, rest⟩, results, state⟩ := machine
  · cases goesOn
  have fewer : openCount rest ≤ openCount (task :: rest) := by
    rw [openCount_cons]
    omega
  rw [next_cons] at goesOn
  rcases ran : (advance limit rest results task).perform state with ⟨_ | ⟨work, outputs⟩, _⟩ <;>
    rw [ran] at goesOn <;> cases goesOn
  rcases advance_cases rest results task state with ⟨invocation, enters⟩ | ⟨-, counts⟩
  · rw [enters, perform_bind_ok] at ran
    obtain ⟨entered, middle, opens, gave⟩ := ran
    obtain ⟨same, -⟩ := pure_ok.mp gave
    obtain ⟨callee, _, -, opens⟩ := perform_bind_ok.mp opens
    have below : ¬ limit ≤ openCount rest := by
      intro atLimit
      simp [atLimit] at opens
    cases same
    simp only [openCount_cons, isLeave, if_true, Bool.false_eq_true, if_false]
    omega
  · rw [counts limit work outputs _ ran]
    exact fewer.trans within

/-! ### The limit -/

/-- Whether a run was cut off: it met an invocation of a macro, with the operands that the macro
takes, and refused it because of the limit. -/
def IsCutOff {α : Type} (limit : Int) (outcome : Outcome α) : Prop :=
  ∃ (invocation : Invocation) (definition : Definition) (captured : Frame) (after : Expander),
    outcome = (.error (depthFailure limit invocation.statement), after) ∧
    after.callee? invocation.name = some (definition, captured) ∧
    invocation.operands.length = definition.parameters.length

theorem enter_cut (within : limit ≤ other) (opened : Nat) (invocation : Invocation)
    (state : Expander) :
    (enter limit opened invocation).perform state = (enter other opened invocation).perform state ∨
      IsCutOff limit ((enter limit opened invocation).perform state) := by
  simp only [enter]
  rw [perform_bind, perform_bind]
  rcases ran : (calleeOf invocation).perform state with ⟨failure | callee, after⟩
  · exact .inl rfl
  by_cases atLimit : limit ≤ opened
  · obtain ⟨rfl, found, arity⟩ := calleeOf_ok ran
    exact .inr ⟨invocation, _, _, _, by simp [atLimit], found, arity⟩
  · have below : ¬ other ≤ opened := by omega
    simp [atLimit, below]

/-- One step with a lower limit is the same as with a higher one, or it is cut off. -/
theorem next_cut (within : limit ≤ other) (machine : Machine) :
    machine.next limit = machine.next other ∨
      ∃ outcome, machine.next limit = .inr outcome ∧ IsCutOff limit outcome := by
  obtain ⟨_ | ⟨task, rest⟩, results, state⟩ := machine
  · exact .inl rfl
  rw [next_cons, next_cons]
  rcases advance_cases rest results task state with ⟨invocation, enters⟩ | ⟨same, -⟩
  · rw [enters, enters, perform_bind, perform_bind]
    rcases enter_cut within (openCount rest) invocation state with same | isCut
    · rw [same]
      exact .inl rfl
    · obtain ⟨met, definition, captured, after, cut, found, arity⟩ := isCut
      rw [cut]
      exact .inr ⟨_, rfl, met, definition, captured, after, rfl, found, arity⟩
  · rw [same limit other]
    exact .inl rfl

theorem Ends.cut (within : limit ≤ other) (ends : Ends limit machine outcome) :
    IsCutOff limit outcome ∨ Ends other machine outcome := by
  obtain ⟨final, reaches, stops⟩ := ends
  induction reaches using ReflTransGen.head_induction_on with
  | refl =>
    rcases next_cut within final with same | ⟨cut, cutStops, isCut⟩
    · exact .inr ⟨final, .refl, same ▸ stops⟩
    · cases stops.symm.trans cutStops
      exact .inl isCut
  | head goesOn _ ih =>
    rcases next_cut within _ with same | ⟨cut, cutStops, isCut⟩
    · refine ih.imp_right ?_
      rintro ⟨last, others, alsoStops⟩
      exact ⟨last, .head (same ▸ goesOn) others, alsoStops⟩
    · cases goesOn.symm.trans cutStops

end Machine

namespace Expander

open Machine

/-- Expansion ends. A machine that is bounded by the comparison with the limit alone comes from
every unit and every state to an end, with the outcome of expansion and no other. Wherever it comes
to, no more invocations are open than the limit allows, and the search for a fresh label ends with a
free name. -/
theorem expand_ends (limit : Int) (tree : Node) (state : Expander) :
    (∀ outcome, Ends limit (start tree state) outcome ↔
      outcome = (List.singleton <$> expand limit tree).perform state) ∧
    ∀ machine, Reaches limit (start tree state) machine →
      openCount machine.work ≤ limit.toNat ∧
      ∀ comment origin, ¬ machine.state.table.IsInterned
        (machine.state.table.freshLocalLabel comment origin).1.name := by
  refine ⟨ends_iff limit tree state, fun machine reaches => ⟨?_, fun comment origin => ?_⟩⟩
  · induction reaches with
    | refl => exact Nat.zero_le _
    | tail _ goesOn within => exact openCount_next within goesOn
  · exact (SymbolTable.freshLocalLabel_fresh _ comment origin).1

end Expander

end MacroAssembler
