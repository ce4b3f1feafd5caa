/-
This module proves that it makes no difference if a unit is folded before it is expanded or
afterwards.

The statements of a unit and those of the folded unit are not one for one the same: a conditional
may stand for several statements or for none. But a constant and a macro with a name stand for
themselves, and nothing else declares any. So both runs collect macros that correspond and resolve
constants that do, and then expand statements that do.
-/
import MacroAssembler.Proofs.FoldedStatements

namespace MacroAssembler

open Action Expander Folding List Node

variable {config : Configuration}

/-! ### Statements of a unit -/

/-- Whether some statements stand for a folded one: it is spliced, or it is kept as it is. -/
def StandFor (pieces : List Node) (folded : Node) : Prop :=
  pieces = splice folded [] ∨ pieces = [folded]

/-- Whether the statements of a unit are folded to other statements that are put together. -/
inductive Pieces (config : Configuration) : List Node → List Node → Prop
  | nil : Pieces config [] []
  | cons {item folded : Node} {pieces items others : List Node}
      (single : item.isSequence = false) (stable : item.Throughout fun part => part.isStable)
      (folds : FoldsTo config item folded) (stand : StandFor pieces folded)
      (rest : Pieces config items others) :
      Pieces config (item :: items) (pieces ++ others)

namespace Pieces

variable {items others : List Node}

theorem append {moreItems moreOthers : List Node} (first : Pieces config items others)
    (second : Pieces config moreItems moreOthers) :
    Pieces config (items ++ moreItems) (others ++ moreOthers) := by
  induction first with
  | nil => exact second
  | cons single stable folds stand _ ih =>
    rw [cons_append, append_assoc]
    exact .cons single stable folds stand ih

theorem ofSplice (node : Node) : ∀ folded, (node.Throughout fun part => part.isStable) →
    FoldsTo config node folded → Pieces config node.statements (splice folded []) := by
  induction node with
  | step node ih =>
    intro folded stable folds
    by_cases single : node.isSequence
    · cases node with
      | sequence origin items =>
        obtain ⟨foldedItems, related, rfl⟩ := foldsTo_sequence folds
        rw [statements, splice, append_nil]
        have each : ∀ item ∈ items, ∀ folded, FoldsTo config item folded →
            Pieces config item.statements (splice folded []) := fun item mem folded =>
          ih item mem folded (stable.below mem)
        clear single stable folds ih
        induction related with
        | nil => exact .nil
        | @cons item folded _ _ foldsFirst _ restIh =>
          obtain ⟨first, rest⟩ := forall_mem_cons.mp each
          rw [statementsOf, foldr_cons, splice_eq_append]
          exact (first folded foldsFirst).append (restIh rest)
      | _ => cases single
    · rw [Bool.not_eq_true] at single
      rw [statements_of_single single, ← append_nil (splice folded [])]
      exact .cons single stable folds (.inl rfl) .nil

theorem ofTree {tree folded : Node} (stable : tree.Throughout fun part => part.isStable)
    (folds : FoldsTo config tree folded) : Pieces config tree.statements folded.statements := by
  by_cases single : folded.isSequence
  · have spliced := ofSplice tree folded stable folds
    obtain ⟨_, _, folds⟩ := folds
    have settled := (settled_fold tree _ _ _ folds).here
    cases folded with
    | sequence origin items =>
      rw [splice, append_nil] at spliced
      have single : ∀ item ∈ items, item.isSequence = false := fun item mem =>
        (settled.1.spliced rfl item mem).1
      rw [statements, statementsOf_of_single single]
      exact spliced
    | _ => cases single
  · rw [Bool.not_eq_true] at single
    have treeSingle : tree.isSequence = false := by
      cases tree with
      | sequence =>
        obtain ⟨_, _, rfl⟩ := foldsTo_sequence folds
        cases single
      | _ => rfl
    rw [statements_of_single treeSingle, statements_of_single single]
    exact .cons treeSingle stable folds (.inr rfl) .nil

end Pieces

theorem Node.isNamed_of_isDefinition {node : Node} (notDefinition : node.isDefinition = false) :
    node.isNamed = false := by
  cases node with
  | definition => cases notDefinition
  | _ => rfl

section Declarations

/-! What follows holds of constants and of macros with names alike. -/

variable {kind : Node → Bool} {item folded : Node} {pieces : List Node}

theorem Folding.kind_folded (kinds : kind = isConstant ∨ kind = isNamed)
    (notConditional : item.isConditional = false) (single : item.isSequence = false)
    (folds : FoldsTo config item folded) (undeclared : kind item = false) :
    kind folded = false := by
  by_cases condition : item.isCondition
  · obtain ⟨_, -, rfl⟩ := foldsTo_condition condition folds
    rcases kinds with rfl | rfl <;> rfl
  rw [Bool.not_eq_true] at condition
  obtain ⟨related, built⟩ := foldsTo_parts condition notConditional single folds
  obtain ⟨-, -, same⟩ := rebuild_ok built related.length_eq.symm
  rcases kinds with rfl | rfl
  · exact same.constant.trans undeclared
  · cases item with
    | definition =>
      obtain ⟨_, _, rfl, -, -⟩ := foldsTo_definition folds
      exact undeclared
    | _ => exact isNamed_of_isDefinition same.definition

/-- A tree without declarations is folded to one without them. -/
theorem Folding.undeclared_folded (kinds : kind = isConstant ∨ kind = isNamed) (node : Node) :
    ∀ folded, FoldsTo config node folded → (node.Throughout fun part => kind part = false) →
        folded.Throughout fun part => kind part = false := by
  induction node with
  | step node ih =>
    intro folded folds undeclared
    by_cases condition : node.isCondition
    · obtain ⟨_, -, rfl⟩ := foldsTo_condition condition folds
      refine throughout_iff.mpr ⟨?_, by simp [children]⟩
      rcases kinds with rfl | rfl <;> rfl
    rw [Bool.not_eq_true] at condition
    cases node with
    | conditional origin predicate thenCase elseCase =>
      obtain ⟨value, evaluates⟩ := evaluate_of_foldsTo folds
      have live := foldsTo_conditional evaluates folds
      have mem : (if value then thenCase else elseCase) ∈
          (Node.conditional origin predicate thenCase elseCase).children := by
        cases value <;> simp [children]
      exact ih _ mem _ live (undeclared.below mem)
    | sequence origin items =>
      obtain ⟨foldedItems, related, rfl⟩ := foldsTo_sequence folds
      refine throughout_iff.mpr ⟨by rcases kinds with rfl | rfl <;> rfl, ?_⟩
      refine throughout_spliced fun result mem => ?_
      obtain ⟨item, itemMem, folds⟩ := exists_left_of_forall₂ related result mem
      exact ih item itemMem result folds (undeclared.below itemMem)
    | _ =>
      obtain ⟨related, -⟩ := foldsTo_parts condition rfl rfl folds
      refine throughout_iff.mpr
        ⟨kind_folded kinds rfl rfl folds undeclared.here, fun part mem => ?_⟩
      obtain ⟨child, childMem, folds⟩ := exists_left_of_forall₂ related part mem
      exact ih child childMem part folds (undeclared.below childMem)

theorem StandFor.undeclared (kinds : kind = isConstant ∨ kind = isNamed)
    (stand : StandFor pieces folded) (single : item.isSequence = false)
    (stable : item.Throughout fun part => part.isStable)
    (folds : FoldsTo config item folded) (undeclared : kind item = false) :
    ∀ piece ∈ pieces, kind piece = false := by
  by_cases conditional : item.isConditional
  · have everywhere : item.Throughout fun part => kind part = false := by
      have here := stable.here
      cases item with
      | conditional =>
        simp only [isStable, Bool.and_eq_true, all_eq_true, Bool.not_eq_true'] at here
        intro part mem
        rcases kinds with rfl | rfl
        · exact (here.2 part mem).1
        · exact (here.2 part mem).2
      | _ => cases conditional
    have foldedEverywhere := undeclared_folded kinds item folded folds everywhere
    rcases stand with rfl | rfl
    · exact fun piece mem =>
        (throughout_spliced (forall_mem_singleton.mpr foldedEverywhere) piece mem).here
    · exact forall_mem_singleton.mpr foldedEverywhere.here
  · rw [Bool.not_eq_true] at conditional
    have foldedHere := kind_folded kinds conditional single folds undeclared
    have foldedSingle : folded.isSequence = false := by
      by_cases condition : item.isCondition
      · obtain ⟨_, -, rfl⟩ := foldsTo_condition condition folds
        rfl
      · rw [Bool.not_eq_true] at condition
        obtain ⟨related, built⟩ := foldsTo_parts condition conditional single folds
        obtain ⟨-, -, same⟩ := rebuild_ok built related.length_eq.symm
        exact same.sequence.trans single
    rcases stand with rfl | rfl
    · cases folded with
      | sequence => cases foldedSingle
      | skip =>
        intro piece mem
        cases mem
      | _ => exact forall_mem_singleton.mpr foldedHere
    · exact forall_mem_singleton.mpr foldedHere

theorem StandFor.eq_singleton (stand : StandFor pieces folded)
    (declaration : folded.isConstant ∨ folded.isNamed) : pieces = [folded] := by
  rcases stand with rfl | same
  · cases folded with
    | sequence | skip => rcases declaration with constant | named <;> contradiction
    | _ => rfl
  · exact same

end Declarations

namespace Expander

/-! ### Macros of a unit -/

theorem collected?_eq_none {node : Node} (notNamed : node.isNamed = false) :
    collected? node = none := by
  cases node with
  | definition origin name parameters body =>
    rw [collected?, if_pos (by simpa [isNamed] using notNamed)]
  | _ => rfl

theorem collected_corresponds {items others : List Node} (pieces : Pieces config items others) :
    List.Forall₂ (fun entry other => entry.1 = other.1 ∧
      Definition.Corresponds config entry.2 other.2)
      (items.filterMap collected?) (others.filterMap collected?) := by
  induction pieces with
  | nil => exact .nil
  | @cons item folded pieces items others single stable folds stand _ ih =>
    rw [filterMap_cons, filterMap_append]
    by_cases named : item.isNamed
    · cases item with
      | definition origin name parameters body =>
        obtain ⟨newParameters, newBody, rfl, foldsParameters, foldsBody⟩ := foldsTo_definition folds
        have corresponds := corresponds_definition stable foldsParameters foldsBody
        have notNull : name.isNull = false := by simpa [isNamed] using named
        rw [stand.eq_singleton (.inr named)]
        simp only [filterMap_cons, filterMap_nil, collected?, notNull]
        cases Name.ofValue? name with
        | none => exact ih
        | some key => exact .cons ⟨rfl, corresponds⟩ ih
      | _ => cases named
    · rw [Bool.not_eq_true] at named
      have nothing : pieces.filterMap collected? = [] := by
        rw [filterMap_eq_nil_iff]
        have unnamed := stand.undeclared (.inr rfl) single stable folds named
        exact fun piece mem => collected?_eq_none (unnamed piece mem)
      rw [collected?_eq_none named, nothing]
      exact ih

theorem relates_collectMacros {items others : List Node} (pieces : Pieces config items others) :
    Relates (Expander.Corresponds config) (fun _ _ => True) (collectMacros items)
      (collectMacros others) := by
  intro state other _ _ _ _ corresponds collects otherCollects
  obtain rfl := collectMacros_ok collects
  obtain rfl := collectMacros_ok otherCollects
  exact ⟨trivial, corresponds.withMacros (collected_corresponds pieces)⟩

/-! ### Constants of a unit -/

/-- What is left of a unit when its constants are resolved, and what is left of the folded unit. -/
inductive Remains (config : Configuration) :
    List (Node ⊕ Node) → List (Node ⊕ Node) → Prop
  | nil : Remains config [] []
  | resolved {declaration other : Node} {parts otherParts : List (Node ⊕ Node)}
      (gathers : Gathers config [declaration] [other])
      (rest : Remains config parts otherParts) :
      Remains config (.inl declaration :: parts) (.inl other :: otherParts)
  | statement {item folded : Node} {pieces : List Node} {parts otherParts : List (Node ⊕ Node)}
      (stable : item.Throughout fun part => part.isStable)
      (folds : FoldsTo config item folded) (stand : StandFor pieces folded)
      (rest : Remains config parts otherParts) :
      Remains config (.inr item :: parts) (pieces.map .inr ++ otherParts)

theorem resolveConstants_other {item : Node} (notConstant : item.isConstant = false)
    (rest : List Node) : resolveConstants (item :: rest) =
      resolveConstants rest >>= fun others => pure (.inr item :: others) := by
  cases item with
  | constant => cases notConstant
  | _ => rfl

theorem resolveConstants_pieces {pieces : List Node}
    (notConstant : ∀ piece ∈ pieces, piece.isConstant = false) (rest : List Node) :
    resolveConstants (pieces ++ rest) =
      resolveConstants rest >>= fun others => pure (pieces.map .inr ++ others) := by
  induction pieces with
  | nil => simp
  | cons piece pieces ih =>
    obtain ⟨first, others⟩ := forall_mem_cons.mp notConstant
    rw [cons_append, resolveConstants_other first, ih others]
    simp

theorem relates_noteConstant {origin : Origin} {name : String} {previous value : Node}
    {otherPrevious otherValue : Node} : Relates (Expander.Corresponds config) (fun _ _ => True)
      (noteConstant origin name previous value)
      (noteConstant origin name otherPrevious otherValue) := by
  intro state other after otherAfter _ _ corresponds notes otherNotes
  rw [noteConstant_ok notes, noteConstant_ok otherNotes]
  exact ⟨trivial, corresponds.ofRest rfl rfl⟩

theorem relates_resolveConstants {items others : List Node} (pieces : Pieces config items others) :
    Relates (Expander.Corresponds config) (Remains config)
      (resolveConstants items) (resolveConstants others) := by
  induction pieces with
  | nil => exact .pure .nil
  | @cons item folded pieces items others single stable folds stand _ ih =>
    by_cases constant : item.isConstant
    · cases item with
      | constant origin binding value =>
        obtain ⟨newValue, rfl, foldsValue⟩ := foldsTo_constant folds
        rw [stand.eq_singleton (.inl rfl), singleton_append, resolveConstants, resolveConstants]
        have mem : value ∈ (Node.constant origin binding value).children := by simp [children]
        have expression := isExpression_of_isPlaced (isPlaced_of_isStable stable.here) (.inr rfl)
          mem
        refine (relates_substitute value newValue expression foldsValue).bind
          fun result other corresponds => ?_
        refine Relates.get.bind fun state otherState states => ?_
        have previous := states.constants binding.name
        generalize Association.get? state.constants binding.name = known at previous
        generalize Association.get? otherState.constants binding.name = otherKnown at previous
        have declare : Relates (Expander.Corresponds config) (Remains config)
            (do
              modify fun state =>
                { state with constants := Association.set state.constants binding.name result }
              let others ← resolveConstants items
              return .inl (.constant origin binding result) :: others)
            (do
              modify fun state =>
                { state with constants := Association.set state.constants binding.name other }
              let others ← resolveConstants others
              return .inl (.constant origin binding other) :: others) := by
          have declares : Relates (Expander.Corresponds config) (fun _ _ => True)
              (modify fun state : Expander =>
                { state with constants := Association.set state.constants binding.name result })
              (modify fun state : Expander =>
                { state with constants := Association.set state.constants binding.name other }) :=
            .modify fun state otherState states => states.withConstant corresponds binding.name
          refine declares.bind fun _ _ _ => ih.bind fun _ _ remains => ?_
          exact .pure (.resolved
            (.statement (foldsInto_constant origin binding corresponds.folds) rfl rfl) remains)
        cases previous with
        | none => exact declare
        | some => exact relates_noteConstant.bind fun _ _ _ => declare
      | _ => cases constant
    · rw [Bool.not_eq_true] at constant
      have notConstant := stand.undeclared (.inl rfl) single stable folds constant
      rw [resolveConstants_other constant, resolveConstants_pieces notConstant]
      exact ih.bind fun _ _ remains =>
        .pure (.statement stable folds stand remains)

/-! ### Units -/

theorem expandUnit_pieces {invoke : Invocation → Expand (List Node)} (pieces : List Node)
    (parts : List (Node ⊕ Node)) :
    expandUnit invoke (pieces.map .inr ++ parts) = do
      let results ← expandItems invoke pieces
      let others ← expandUnit invoke parts
      return results ++ others := by
  induction pieces with
  | nil => simp [expandItems]
  | cons piece rest ih =>
    simp only [map_cons, cons_append, expandUnit, expandItems, ih,
      bind_assoc, pure_bind, append_assoc]

/-- What stands for a statement is expanded like the statement. -/
theorem expandItems_standFor {invoke : Invocation → Expand (List Node)} {folded : Node}
    {pieces : List Node} (stand : StandFor pieces folded) :
    expandItems invoke pieces = expandNode invoke folded := by
  rcases stand with rfl | rfl
  · rw [expandItems_splice]
    simp [expandItems]
  · simp [expandItems]

theorem relates_expandUnit (limit : Int) (depth : Nat) {parts others : List (Node ⊕ Node)}
    (remains : Remains config parts others) : Relates (Expander.Corresponds config) (Gathers config)
      (expandUnit (invoke limit depth) parts) (expandUnit (invoke limit depth) others) := by
  induction remains with
  | nil => exact .pure .nil
  | resolved gathers _ ih =>
    exact ih.bind fun _ _ others => .pure (gathers.append others)
  | @statement item folded pieces _ _ stable folds stand _ ih =>
    rw [expandUnit_pieces, expandItems_standFor stand, expandUnit]
    refine (relates_expandNode (invoke_ok limit depth) (relates_invoke limit depth) item folded
      stable folds).bind fun _ _ gathers => ?_
    exact ih.bind fun _ _ others => .pure (gathers.append others)

theorem relates_expand (limit : Int) {tree folded : Node}
    (stable : tree.Throughout fun part => part.isStable) (folds : FoldsTo config tree folded) :
    Relates (Expander.Corresponds config)
      (fun result other => ∃ results others, result = .sequence tree.origin results ∧
        other = .sequence folded.origin others ∧ Gathers config results others)
      (expand limit tree) (expand limit folded) := by
  have pieces := Pieces.ofTree stable folds
  have start : Relates (Expander.Corresponds config) (fun _ _ => True)
      (modify fun state : Expander => { state with frame := [] })
      (modify fun state : Expander => { state with frame := [] }) :=
    .modify fun _ _ states => ⟨.nil, states.root, states.constants, states.macros⟩
  refine start.bind fun _ _ _ => (relates_collectMacros pieces).bind fun _ _ _ => ?_
  refine (relates_resolveConstants pieces).bind fun parts otherParts remains => ?_
  refine (relates_expandUnit limit _ remains).bind fun results others gathers => ?_
  refine Relates.get.bind fun state other _ => ?_
  have notes : Relates (Expander.Corresponds config) (fun _ _ => True)
      (note (.expanded state.expansions state.macros.length state.constants.length))
      (note (.expanded other.expansions other.macros.length other.constants.length)) :=
    .modify fun _ _ states => states.ofRest rfl rfl
  exact notes.bind fun _ _ _ => .pure ⟨results, others, rfl, rfl, gathers⟩

end Expander

/-- Folding and expansion commute: if a unit can be expanded and then folded, and also folded and
then expanded, both ways lead to the same statements. They may only disagree about locations. -/
theorem fold_expand_commute {configuration : Configuration} {table : SymbolTable} {limit : Int}
    {tree expanded expandedFirst folded foldedFirst : Node} {counts otherCounts : FoldCounts}
    {after otherAfter : Expander} (stable : tree.Throughout fun part => part.isStable)
    (expands : (expand limit tree).perform { table := table } = (.ok expanded, after))
    (thenFolds : expanded.foldedWith configuration = .ok (expandedFirst, counts))
    (folds : tree.foldedWith configuration = .ok (folded, otherCounts))
    (thenExpands : (expand limit folded).perform { table := table } =
      (.ok foldedFirst, otherAfter)) :
    expandedFirst.statements.map unlocated = foldedFirst.statements.map unlocated ∧
      expandedFirst.statements.map dump = foldedFirst.statements.map dump := by
  have initially : Expander.Corresponds configuration { table := table } { table := table } :=
    .initial
  have related := relates_expand limit stable ⟨_, _, foldedWith_ok.mp folds⟩
  obtain ⟨⟨results, others, rfl, rfl, gathers⟩, -⟩ := related.ok initially expands thenExpands
  obtain ⟨foldedResults, foldsResults, rfl⟩ :=
    foldsTo_sequence ⟨_, _, foldedWith_ok.mp thenFolds⟩
  have same := gathers foldedResults foldsResults
  have alike : (Node.sequence tree.origin (foldedResults.foldr splice [])).unlocated =
      (Node.sequence folded.origin others).unlocated := by
    rw [unlocated, unlocated, unlocatedAll_eq_map, unlocatedAll_eq_map, same]
  have statements : (Node.sequence tree.origin (foldedResults.foldr splice [])).statements.map
      unlocated = (Node.sequence folded.origin others).statements.map unlocated := by
    rw [← statements_unlocated, alike, statements_unlocated]
  refine ⟨statements, ?_⟩
  have dumps : ∀ nodes : List Node, nodes.map dump = (nodes.map unlocated).map dump := by
    intro nodes
    rw [List.map_map]
    exact List.map_congr_left fun node _ => (dump_unlocated node).symm
  rw [dumps, statements, ← dumps]

/-! ### Two units -/

namespace Interchange

open Finishing

def production : Configuration := ⟨.arm64, [("DEBUG", false)], [], []⟩

def early : Origin := ⟨"unit", 1, 0⟩

def late : Origin := ⟨"unit", 2, 0⟩

/-- A macro that jumps to a label in a branch that is discarded, defines the label and moves a
value. It is invoked with a setting as the value. -/
def tree : Node := .sequence .nowhere [
  .definition .nowhere (.text "enter") [named "x", named "value"] (.sequence .nowhere [
    .conditional .nowhere debug
      (.instruction .nowhere "jmp" [.labelReference early ⟨early, "%x%_start"⟩ 0] .null)
      (.skip .nowhere),
    .label ⟨late, "%x%_start"⟩,
    move (named "value") (register "t0")]),
  .call .nowhere "enter" [register "t5", debug] .null .null]

def expandFirst (unit : Node) : Checked (List String) := do
  let expanded ← ((expand defaultLimit unit).perform { table := .empty }).1
  let (result, _) ← expanded.foldedWith production
  result.statements.mapM dump

def foldFirst (unit : Node) : Checked (List String) := do
  let (folded, _) ← unit.foldedWith production
  let result ← ((expand defaultLimit folded).perform { table := .empty }).1
  result.statements.mapM dump

def settingTree : Node := .sequence .nowhere [
  .definition .nowhere (.text "enter") [.setting .nowhere "ARM64"]
    (move (named "ARM64") (register "t0")),
  .call .nowhere "enter" [register "t5"] .null .null]

end Interchange

/-- Both ways lead to a unit, and to the same one, though the label shows where it was first met. -/
theorem fold_expand_commute_label :
    ∃ expandedFirst foldedFirst : Node,
      expandedFirst.statements.mapM dump = .ok ["t5_start:", "\tmove 0, t0"] ∧
      foldedFirst.statements.mapM dump = .ok ["t5_start:", "\tmove 0, t0"] ∧
      expandedFirst.statements.map unlocated = foldedFirst.statements.map unlocated ∧
      expandedFirst.statements.map dump = foldedFirst.statements.map dump := by
  have stable : Interchange.tree.Throughout fun part => part.isStable := by
    unfold Throughout
    decide +kernel
  have first : Interchange.expandFirst Interchange.tree = .ok ["t5_start:", "\tmove 0, t0"] := by
    decide +kernel
  have second : Interchange.foldFirst Interchange.tree = .ok ["t5_start:", "\tmove 0, t0"] := by
    decide +kernel
  simp only [Interchange.expandFirst, Interchange.foldFirst, Checked.bind_ok] at first second
  obtain ⟨_, expands, ⟨expandedFirst, _⟩, thenFolds, expandedTexts⟩ := first
  obtain ⟨⟨_, _⟩, folds, foldedFirst, thenExpands, foldedTexts⟩ := second
  exact ⟨expandedFirst, foldedFirst, expandedTexts, foldedTexts, fold_expand_commute stable
    (perform_of_fst expands) thenFolds folds (perform_of_fst thenExpands)⟩

/-- A setting in the place of a parameter has a name only as long as it is not folded. -/
theorem fold_expand_setting :
    (Interchange.settingTree.Throughout fun part =>
        part.isPlaced ∧ part.localLabels = [] ∧ part.isConditional = false) ∧
      Interchange.expandFirst Interchange.settingTree = .ok ["\tmove t5, t0"] ∧
      Interchange.foldFirst Interchange.settingTree = .ok ["\tmove ARM64, t0"] := by
  unfold Throughout
  decide +kernel

end MacroAssembler
