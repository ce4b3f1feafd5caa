/-
This module says in what sense a branch that folding discards does not matter.

Two trees that differ only inside discarded branches are folded to the same tree, so nothing after
folding can tell them apart by their trees. What a discarded branch can leave behind is in the symbol
table: the names in it were interned, and the labels in it defined, declared or used, when the unit
was loaded. The passes after loading ask the table about labels only. So the units are the same as
long as the branches leave the same labels behind, and they need not be the same otherwise.
-/
import MacroAssembler.Proofs.AddedMacros
import MacroAssembler.Proofs.AlikeLowering
import MacroAssembler.Proofs.SymbolAccounting

namespace MacroAssembler

open Action Node Folding

/-! ### Trees that differ in dead branches -/

/-- Whether two trees are the same outside the branches that folding discards. -/
inductive SameUnder (config : Configuration) : Node → Node → Prop
  | same (node : Node) : SameUnder config node node
  | elseDiscarded {origin : Origin} {predicate live other dead otherDead : Node}
      (holds : predicate.evaluate config = .ok true)
      (alike : SameUnder config live other) :
      SameUnder config (.conditional origin predicate live dead)
        (.conditional origin predicate other otherDead)
  | thenDiscarded {origin : Origin} {predicate live other dead otherDead : Node}
      (fails : predicate.evaluate config = .ok false)
      (alike : SameUnder config live other) :
      SameUnder config (.conditional origin predicate dead live)
        (.conditional origin predicate otherDead other)
  | parts {node other : Node} (notCondition : node.isCondition = false)
      (notConditional : node.isConditional = false) (sameHead : node.SameHead other)
      (alike : List.Forall₂ (SameUnder config) node.children other.children) :
      SameUnder config node other

theorem eq_of_forall₂ {α β : Type} {alike : α → α → Prop} {gives : α → β → Prop}
    {items others : List α} {results otherResults : List β}
    (agree : ∀ item ∈ items, ∀ other result otherResult, alike item other → gives item result →
      gives other otherResult → result = otherResult)
    (related : List.Forall₂ alike items others) (given : List.Forall₂ gives items results)
    (otherGiven : List.Forall₂ gives others otherResults) : results = otherResults := by
  induction related generalizing results otherResults with
  | nil =>
    cases given
    cases otherGiven
    rfl
  | cons head _ ih =>
    cases given with
    | cons first rest =>
      cases otherGiven with
      | cons otherFirst otherRest =>
        rw [agree _ List.mem_cons_self _ _ _ head first otherFirst,
          ih (fun item mem => agree item (List.mem_cons_of_mem _ mem)) rest otherRest]

/-- Trees that differ only in discarded branches are folded to the same tree. -/
theorem SameUnder.folds_eq {config : Configuration} (node : Node) :
    ∀ other result otherResult, SameUnder config node other →
      FoldsTo config node result → FoldsTo config other otherResult → result = otherResult := by
  induction node with
  | step node ih =>
    intro other result otherResult alike folds otherFolds
    cases alike with
    | same => exact folds.unique otherFolds
    | elseDiscarded holds alike =>
      exact ih _ (by simp [children]) _ _ _ alike (foldsTo_conditional holds folds)
        (foldsTo_conditional holds otherFolds)
    | thenDiscarded fails alike =>
      exact ih _ (by simp [children]) _ _ _ alike (foldsTo_conditional fails folds)
        (foldsTo_conditional fails otherFolds)
    | parts notCondition notConditional sameHead alike =>
      have sameNumber := alike.length_eq
      cases isSequence : node.isSequence with
      | true =>
        cases node with
        | sequence origin items =>
          have built : other.rebuild items = .ok (.sequence origin items) := sameHead items rfl
          obtain ⟨-, -, same⟩ := rebuild_ok built sameNumber
          cases other with
          | sequence otherOrigin otherItems =>
            cases built
            obtain ⟨folded, related, rfl⟩ := foldsTo_sequence folds
            obtain ⟨otherFolded, otherRelated, rfl⟩ := foldsTo_sequence otherFolds
            rw [eq_of_forall₂ ih alike related otherRelated]
          | _ => cases same.sequence
        | _ => cases isSequence
      | false =>
        obtain ⟨related, built⟩ := foldsTo_parts notCondition notConditional isSequence folds
        have otherBuilt : other.rebuild result.children = .ok result :=
          (sameHead _ related.length_eq.symm).trans built
        obtain ⟨-, -, same⟩ := rebuild_ok built related.length_eq.symm
        obtain ⟨-, -, otherSame⟩ :=
          rebuild_ok otherBuilt (related.length_eq.symm.trans sameNumber)
        obtain ⟨otherRelated, otherAgain⟩ := foldsTo_parts
          (otherSame.condition.symm.trans (same.condition.trans notCondition))
          (otherSame.conditional.symm.trans (same.conditional.trans notConditional))
          (otherSame.sequence.symm.trans (same.sequence.trans isSequence)) otherFolds
        rw [← eq_of_forall₂ ih alike related otherRelated, otherBuilt] at otherAgain
        exact Except.ok.inj otherAgain

namespace Compilation

variable {config configuration : Configuration} {includePrelude : Bool} {limit : Int}
  {document other : Value} {filename : String} {tree otherTree : Node}
  {loaded otherLoaded after otherAfter : Compilation} {emission otherEmission : Emission}

/-- Two units that differ only in branches that folding discards are the same, if what was loaded of
these branches left the same labels behind. -/
theorem emission_deadBranches
    (loads : (load document filename).perform (start configuration .empty includePrelude limit) =
      (.ok tree, loaded))
    (otherLoads : (load other filename).perform (start configuration .empty includePrelude limit) =
      (.ok otherTree, otherLoaded))
    (alike : SameUnder configuration tree otherTree)
    (agrees : loaded.table.Agrees otherLoaded.table)
    (compiles : (runDocument document filename).perform
      (start configuration .empty includePrelude limit) = (.ok emission, after))
    (otherCompiles : (runDocument other filename).perform
      (start configuration .empty includePrelude limit) = (.ok otherEmission, otherAfter)) :
    otherEmission = emission := by
  rw [runDocument, perform_bind, loads] at compiles
  rw [runDocument, perform_bind, otherLoads] at otherCompiles
  obtain ⟨_, -, rfl, stands⟩ :=
    (does_load document filename).ok ⟨rfl, rfl, rfl, rfl, rfl⟩ loads
  obtain ⟨_, -, rfl, otherStands⟩ :=
    (does_load other filename).ok ⟨rfl, rfl, rfl, rfl, rfl⟩ otherLoads
  obtain ⟨made, work, rfl, -⟩ := does_finish.ok stands compiles
  obtain ⟨otherMade, otherWork, rfl, -⟩ := does_finish.ok otherStands otherCompiles
  obtain ⟨folded, counts, folds, unit⟩ := finishWork_ok work
  obtain ⟨otherFolded, otherCounts, otherFolds, otherUnit⟩ := finishWork_ok otherWork
  obtain ⟨state, statements, expands, lowers, emits⟩ := unitWork_ok.mp unit
  obtain ⟨otherState, otherStatements, otherExpands, otherLowers, otherEmits⟩ :=
    unitWork_ok.mp otherUnit
  have sameFolded : folded = otherFolded := SameUnder.folds_eq _ _ _ _ alike
    ⟨_, _, foldedWith_ok.mp folds⟩ ⟨_, _, foldedWith_ok.mp otherFolds⟩
  subst sameFolded
  obtain ⟨_, _, again, sameExpanded, sameTable⟩ :=
    Expander.expand_same agrees.resembles expands
  rw [otherExpands] at again
  cases again
  obtain ⟨final, again, unresolved, referenced⟩ :=
    Backend.lowerStatements_alike sameExpanded sameTable lowers
  rw [otherLowers] at again
  obtain ⟨⟨⟩, rfl⟩ := Prod.mk.inj again
  rw [emits, otherEmits, emissionOf, emissionOf, unresolved, referenced]

/-- One unit drops a trap, the other one a move. -/
theorem emission_deadBranches_move :
    let document := fun statement => documentOf [deadBranch statement, labelIn "a", jumpTo "b"]
    let trap := documentNode "Error" []
    let move := documentNode "Instruction" [("opcode", .text "move"),
      ("operands", .list [variableIn "x", variableIn "y"])]
    ∃ emission otherEmission, (compiled (document trap)).1 = .ok emission ∧
      (compiled (document move)).1 = .ok otherEmission ∧ emission.externLabels = ["b"] ∧
      otherEmission = emission := by
  intro document trap move
  let place : Origin := ⟨"<json>", 0, 0⟩
  let tree := fun dropped => Node.sequence place [
    .conditional place (.truth false) dropped (.skip place), .label ⟨place, "a"⟩,
    .instruction place "jmp" [.labelReference place ⟨place, "b"⟩ 0] .null]
  let moving : Node :=
    .instruction place "move" [.var ⟨place, "x", .null⟩, .var ⟨place, "y", .null⟩] .null
  have alike : SameUnder plainMachine (tree (.trap place)) (tree moving) :=
    .parts rfl rfl (fun _ _ => rfl)
      (.cons (.thenDiscarded rfl (.same _)) (.cons (.same _) (.cons (.same _) .nil)))
  let loadedOf := fun statement => (load (document statement) "<json>").perform
    (start plainMachine .empty false Expander.defaultLimit)
  have trapLoads : (loadedOf trap).1 = .ok (tree (.trap place)) := rfl
  have moveLoads : (loadedOf move).1 = .ok (tree moving) := rfl
  let table : SymbolTable := {
    labels := [⟨.text "a", place, { isDefined := true, isExternal := false }⟩,
      ⟨.text "b", place, {}⟩]
    referenced := ["b"] }
  have trapTable : (loadedOf trap).2.table = table := rfl
  have moveTable : (loadedOf move).2.table =
      { table with symbols := [.var ⟨place, "x", .null⟩, .var ⟨place, "y", .null⟩] } := rfl
  have agrees : (loadedOf trap).2.table.Agrees (loadedOf move).2.table := by
    rw [trapTable, moveTable]
    exact ⟨fun _ => rfl, fun _ => rfl, rfl, rfl⟩
  let lines := ["OFFLINE_ASM_BEGIN", "OFFLINE_ASM_GLUE_LABEL(a)",
    "\"\\tb \" SYMBOL_STRING(b) \"\\n\"", "OFFLINE_ASM_END"]
  have trapCompiles : (compiled (document trap)).1 = .ok ⟨"ARM64", lines, ["b"], ["b"]⟩ := by
    decide +kernel
  have moveCompiles : (compiled (document move)).1 = .ok ⟨"ARM64", lines, ["b"], ["b"]⟩ := by
    decide +kernel
  exact ⟨_, _, trapCompiles, moveCompiles, rfl,
    emission_deadBranches (perform_of_fst trapLoads) (perform_of_fst moveLoads) alike agrees
      (perform_of_fst trapCompiles) (perform_of_fst moveCompiles)⟩

-- What a discarded branch leaves behind shows in the unit: a label in it counts as defined.
example :
    (compiled (documentOf [deadBranch (documentNode "Skip" []), jumpTo "a"])).1 =
        .ok ⟨"ARM64", ["OFFLINE_ASM_BEGIN", "\"\\tb \" SYMBOL_STRING(a) \"\\n\"",
          "OFFLINE_ASM_END"], ["a"], ["a"]⟩ ∧
      (compiled (documentOf [deadBranch (labelIn "a"), jumpTo "a"])).1 =
        .ok ⟨"ARM64", ["OFFLINE_ASM_BEGIN", "\"\\tb \" SYMBOL_STRING(a) \"\\n\"",
          "OFFLINE_ASM_END"], [], []⟩ := by
  decide +kernel

end Compilation

end MacroAssembler
