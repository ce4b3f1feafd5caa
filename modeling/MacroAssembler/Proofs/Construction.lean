/-
This module says which nodes the functions that build nodes accept. A rule either lets a node
through as it was asked for or reports it, so building succeeds exactly on the nodes that keep the
rules, and a node that keeps them can be built again from its own parts.
-/
import MacroAssembler.Node.Symbol
import MacroAssembler.Proofs.Step
import MacroAssembler.Proofs.Tree

namespace MacroAssembler.Node

open Action List

def isAddressPart (node : Node) : Bool := node.isVariable || node.isRegister

def isOffset (node : Node) : Bool := node.isVariable || node.isImmediate

def isScale : Node → Bool
  | .immediate _ value => (Scale.ofInt? value).isSome
  | .plain _ (.truth false) => false
  | _ => true

/-- Whether a node keeps the rules of the tree, as far as they concern the node and its immediate
parts. A bare value other than `true` has no parts, so nothing can be built from it. -/
def KeepsRules : Node → Prop
  | .address _ base offset => base.isAddressPart ∧ offset.isOffset
  | .indexed _ base index scale offset =>
    base.isAddressPart ∧ index.isAddressPart ∧ offset.isOffset ∧ scale.isScale
  | .call _ _ operands _ _ => operands ≠ []
  | .plain _ value => value = .truth true
  | _ => True

instance : DecidablePred KeepsRules
  | .address _ base offset => inferInstanceAs (Decidable (base.isAddressPart ∧ offset.isOffset))
  | .indexed _ base index scale offset => inferInstanceAs (Decidable
      (base.isAddressPart ∧ index.isAddressPart ∧ offset.isOffset ∧ scale.isScale))
  | .call _ _ [] _ _ => isFalse fun nonempty => nonempty rfl
  | .call _ _ (_ :: _) _ _ => isTrue nofun
  | .plain _ (.truth true) => isTrue rfl
  | .plain _ (.truth false) | .plain _ .null | .plain _ (.integer _) | .plain _ (.real _)
  | .plain _ (.text _) | .plain _ (.list _) | .plain _ (.object _) => isFalse nofun
  | .immediate .. | .text .. | .register .. | .var _ | .layout .. | .setting .. | .truth _
  | .absolute .. | .binary .. | .unary .. | .label _ | .localLabel _ | .labelReference ..
  | .localReference .. | .instruction .. | .sequence .. | .conditional .. | .skip _ | .trap _
  | .constant .. | .definition .. => isTrue trivial

variable {origin : Origin} {done : Unit} {base offset node target result : Node} {σ : Type}
  {parts : List Node} {replace : Node → Action σ Node}

theorem checkBase_ok : checkBase origin base = .ok done ↔ base.isAddressPart := by
  unfold checkBase
  rw [← isAddressPart]
  split
  · simp [*]
  · simp only [Checked.bind_ok, *]
    simp [report]

theorem checkIndex_ok {index : Node} :
    checkIndex origin index = .ok done ↔ index.isAddressPart := by
  unfold checkIndex
  rw [← isAddressPart]
  split
  · simp [*]
  · simp only [Checked.bind_ok, *]
    simp [report]

theorem checkOffset_ok : checkOffset origin offset = .ok done ↔ offset.isOffset := by
  unfold checkOffset
  rw [← isOffset]
  split
  · simp [*]
  · simp only [Checked.bind_ok, *]
    simp [report]

theorem checkScale_ok {scale : Node} : checkScale origin scale = .ok done ↔ scale.isScale := by
  unfold checkScale isScale
  split
  · split <;> simp_all [report]
  · simp [report]
  · simp

theorem makeAddress_ok : makeAddress origin base offset = .ok node ↔
      (base.isAddressPart ∧ offset.isOffset) ∧ node = .address origin base offset := by
  simp only [makeAddress, Checked.bind_ok, checkBase_ok, checkOffset_ok, exists_const, pure,
    Except.pure, Except.ok.injEq, and_assoc, eq_comm (b := node)]

theorem makeIndexed_ok {index scale : Node} :
    makeIndexed origin base index scale offset = .ok node ↔
      (base.isAddressPart ∧ index.isAddressPart ∧ offset.isOffset ∧ scale.isScale) ∧
        node = .indexed origin base index scale offset := by
  simp only [makeIndexed, Checked.bind_ok, checkBase_ok, checkIndex_ok, checkOffset_ok,
    checkScale_ok, exists_const, pure, Except.pure, Except.ok.injEq, and_assoc,
    eq_comm (b := node)]

theorem makeCall_ok {name : String} {operands : List Node} {comment writtenName : Value} :
    makeCall origin name operands comment writtenName = .ok node ↔
      operands ≠ [] ∧ node = .call origin name operands comment writtenName := by
  unfold makeCall
  cases operands <;> simp [report, eq_comm]

theorem makeConstant_ok {declared value : Node} : makeConstant origin declared value = .ok node ↔
      ∃ binding, declared = .var binding ∧ node = .constant origin binding value := by
  unfold makeConstant
  split
  · simp [eq_comm]
  · rename_i notVariable
    simp only [Checked.bind_ok]
    simp only [report, reduceCtorEq, and_false, exists_false, false_iff]
    rintro ⟨binding, same, _⟩
    exact notVariable binding same

/-! ### Nodes from their parts -/

def isConditional : Node → Bool
  | .conditional .. => true
  | _ => false

def isSequence : Node → Bool
  | .sequence .. => true
  | _ => false

def isDefinition : Node → Bool
  | .definition .. => true
  | _ => false

def isConstant : Node → Bool
  | .constant .. => true
  | _ => false

def isOperand : Node → Bool
  | .label _ | .localLabel _ | .instruction .. | .call .. | .sequence .. | .conditional ..
  | .skip _ | .trap _ | .constant .. | .definition .. => false
  | _ => true

/-- Whether two nodes belong to the same classes of nodes. -/
structure SameClasses (node other : Node) : Prop where
  condition : node.isCondition = other.isCondition
  conditional : node.isConditional = other.isConditional
  sequence : node.isSequence = other.isSequence
  skip : node.isSkip = other.isSkip
  isVariable : node.isVariable = other.isVariable
  label : node.isLabel = other.isLabel
  reference : node.isReference = other.isReference
  definition : node.isDefinition = other.isDefinition
  constant : node.isConstant = other.isConstant
  operand : node.isOperand = other.isOperand
  layout : node.isLayoutConstant = other.isLayoutConstant

/-- A node with other immediate parts, of which there have to be as many as before. -/
def rebuild : Node → List Node → Checked Node
  | .address origin _ _, [base, offset] => makeAddress origin base offset
  | .indexed origin _ _ _ _, [base, index, scale, offset] =>
    makeIndexed origin base index scale offset
  | .absolute origin _, [place] => .ok (.absolute origin place)
  | .binary origin operator _ _, [left, right] => .ok (.binary origin operator left right)
  | .unary origin operator _, [child] => .ok (.unary origin operator child)
  | .labelReference origin _ offset, [target] => makeLabelReference origin target offset
  | .localReference origin _, [target] => makeLocalReference origin target
  | .instruction origin opcode _ comment, operands =>
    .ok (.instruction origin opcode operands comment)
  | .call origin name _ comment writtenName, operands =>
    makeCall origin name operands comment writtenName
  | .sequence origin _, items => .ok (.sequence origin items)
  | .conditional origin _ _ _, [predicate, thenCase, elseCase] =>
    .ok (.conditional origin predicate thenCase elseCase)
  | .constant origin _ _, [declared, value] => makeConstant origin declared value
  | .definition origin name _ body, parts =>
    .ok (.definition origin name parts.dropLast (parts.getLastD body))
  | .plain origin (.truth true), _ => .ok (.plain origin (.truth true))
  | .plain _ value, _ => refuse (.noProperty value.typeName "map_children")
  | leaf, _ => .ok leaf

/-- Replacing the immediate parts of a node is replacing them from left to right and building the
node anew. -/
theorem mapChildren_eq (replace : Node → Action σ Node) (node : Node) : mapChildren replace node =
      node.children.mapM replace >>= fun parts => liftM (node.rebuild parts) := by
  cases node with
  | plain origin value =>
    cases value with
    | truth value =>
      cases value <;>
        simp only [mapChildren, children, rebuild, mapM_nil, pure_bind, lift_ok]
    | _ => simp only [mapChildren, children, rebuild, mapM_nil, pure_bind]
  | definition => simp [mapChildren, children, rebuild]
  | _ =>
    simp only [mapChildren, children, rebuild, lift_ok, mapM_cons, mapM_nil,
      bind_pure_comp, map_pure, Functor.map_map, map_bind, ExceptT.stM_eq,
      List.getLastD_eq_getLast?, bind_assoc, bind_map_left]

theorem makeLabelReference_ok {offset : Int} : makeLabelReference origin target offset = .ok node ↔
      ∃ mark, target = .label mark ∧ node = .labelReference origin mark offset := by
  unfold makeLabelReference
  split
  · simp [eq_comm]
  · rename_i notLabel
    simp only [Checked.bind_ok]
    simp only [report, reduceCtorEq, and_false, exists_false, false_iff]
    rintro ⟨mark, same, _⟩
    exact notLabel mark same

theorem makeLocalReference_ok : makeLocalReference origin target = .ok node ↔
      ∃ mark, target = .localLabel mark ∧ node = .localReference origin mark := by
  unfold makeLocalReference
  split
  · simp [eq_comm]
  · rename_i notLabel
    simp only [Checked.bind_ok]
    simp only [report, reduceCtorEq, and_false, exists_false, false_iff]
    rintro ⟨mark, same, _⟩
    exact notLabel mark same

/-- A node that was built anew has the parts it was built from, keeps the rules, and belongs to
the same classes as before. -/
theorem rebuild_ok (built : node.rebuild parts = .ok result)
    (sameNumber : parts.length = node.children.length) :
    result.children = parts ∧ result.KeepsRules ∧ result.SameClasses node := by
  cases node with
  | address origin base offset =>
    match parts, sameNumber with
    | [newBase, newOffset], _ =>
      obtain ⟨keeps, rfl⟩ := makeAddress_ok.mp built
      exact ⟨rfl, keeps, by constructor <;> rfl⟩
  | indexed origin base index scale offset =>
    match parts, sameNumber with
    | [newBase, newIndex, newScale, newOffset], _ =>
      obtain ⟨keeps, rfl⟩ := makeIndexed_ok.mp built
      exact ⟨rfl, keeps, by constructor <;> rfl⟩
  | absolute | unary =>
    match parts, sameNumber with
    | [part], _ =>
      cases built
      exact ⟨rfl, trivial, by constructor <;> rfl⟩
  | binary =>
    match parts, sameNumber with
    | [left, right], _ =>
      cases built
      exact ⟨rfl, trivial, by constructor <;> rfl⟩
  | conditional =>
    match parts, sameNumber with
    | [predicate, thenCase, elseCase], _ =>
      cases built
      exact ⟨rfl, trivial, by constructor <;> rfl⟩
  | labelReference =>
    match parts, sameNumber with
    | [target], _ =>
      obtain ⟨mark, rfl, rfl⟩ := makeLabelReference_ok.mp built
      exact ⟨rfl, trivial, by constructor <;> rfl⟩
  | localReference =>
    match parts, sameNumber with
    | [target], _ =>
      obtain ⟨mark, rfl, rfl⟩ := makeLocalReference_ok.mp built
      exact ⟨rfl, trivial, by constructor <;> rfl⟩
  | constant =>
    match parts, sameNumber with
    | [declared, value], _ =>
      obtain ⟨binding, rfl, rfl⟩ := makeConstant_ok.mp built
      exact ⟨rfl, trivial, by constructor <;> rfl⟩
  | instruction | sequence =>
    cases built
    exact ⟨rfl, trivial, by constructor <;> rfl⟩
  | call =>
    obtain ⟨keeps, rfl⟩ := makeCall_ok.mp built
    exact ⟨rfl, keeps, by constructor <;> rfl⟩
  | definition origin name parameters body =>
    cases built
    have nonempty : parts ≠ [] := by
      rintro rfl
      simp [children] at sameNumber
    refine ⟨?_, trivial, by constructor <;> rfl⟩
    rw [children, List.getLastD_eq_getLast?, List.getLast?_eq_some_getLast nonempty]
    exact List.dropLast_append_getLast nonempty
  | plain origin value =>
    cases value with
    | truth value =>
      cases value with
      | true =>
        cases built
        exact ⟨(length_eq_zero_iff.mp sameNumber).symm, rfl, by constructor <;> rfl⟩
      | false => cases built
    | _ => cases built
  | _ =>
    cases built
    exact ⟨(length_eq_zero_iff.mp sameNumber).symm, trivial, by constructor <;> rfl⟩

/-- Whether two nodes differ in their parts only: the same node is built from any parts. -/
def SameHead (node other : Node) : Prop :=
  ∀ parts : List Node, parts.length = node.children.length →
    other.rebuild parts = node.rebuild parts

theorem sameHead_rebuild (built : node.rebuild parts = .ok result)
    (sameNumber : parts.length = node.children.length) : node.SameHead result := by
  intro further sameAgain
  cases node with
  | address =>
    match parts, sameNumber, further, sameAgain with
    | [_, _], _, [_, _], _ =>
      obtain ⟨-, rfl⟩ := makeAddress_ok.mp built
      rfl
  | indexed =>
    match parts, sameNumber, further, sameAgain with
    | [_, _, _, _], _, [_, _, _, _], _ =>
      obtain ⟨-, rfl⟩ := makeIndexed_ok.mp built
      rfl
  | absolute | unary =>
    match parts, sameNumber, further, sameAgain with
    | [_], _, [_], _ =>
      cases built
      rfl
  | binary =>
    match parts, sameNumber, further, sameAgain with
    | [_, _], _, [_, _], _ =>
      cases built
      rfl
  | conditional =>
    match parts, sameNumber, further, sameAgain with
    | [_, _, _], _, [_, _, _], _ =>
      cases built
      rfl
  | labelReference =>
    match parts, sameNumber, further, sameAgain with
    | [_], _, [_], _ =>
      obtain ⟨_, rfl, rfl⟩ := makeLabelReference_ok.mp built
      rfl
  | localReference =>
    match parts, sameNumber, further, sameAgain with
    | [_], _, [_], _ =>
      obtain ⟨_, rfl, rfl⟩ := makeLocalReference_ok.mp built
      rfl
  | constant =>
    match parts, sameNumber, further, sameAgain with
    | [_, _], _, [_, _], _ =>
      obtain ⟨_, rfl, rfl⟩ := makeConstant_ok.mp built
      rfl
  | call =>
    obtain ⟨-, rfl⟩ := makeCall_ok.mp built
    rfl
  | definition origin name parameters body =>
    cases built
    have nonempty : further ≠ [] := by
      rintro rfl
      simp [children] at sameAgain
    simp [rebuild, List.getLastD_eq_getLast?, List.getLast?_eq_some_getLast nonempty]
  | plain origin value =>
    cases value with
    | truth value =>
      cases value <;> cases built
      rfl
    | _ => cases built
  | _ =>
    cases built
    rfl

theorem rebuild_children (keeps : node.KeepsRules) : node.rebuild node.children = .ok node := by
  cases node with
  | address => exact makeAddress_ok.mpr ⟨keeps, rfl⟩
  | indexed => exact makeIndexed_ok.mpr ⟨keeps, rfl⟩
  | call => exact makeCall_ok.mpr ⟨keeps, rfl⟩
  | definition origin name parameters body =>
    simp [rebuild, children]
  | plain origin value =>
    obtain rfl : value = .truth true := keeps
    rfl
  | _ => rfl

/-- What every replacement of a part keeps is kept, the new parts are related to the old ones, and
the node is built from the new parts. -/
theorem mapChildren_ok (invariant : σ → Prop) (relation : Node → Node → Prop) {state after : σ}
    (each : ∀ child ∈ node.children, ∀ state after result, invariant state →
      (replace child).perform state = (.ok result, after) →
        invariant after ∧ relation child result) (initially : invariant state)
    (ran : (mapChildren replace node).perform state = (.ok result, after)) :
    invariant after ∧ List.Forall₂ relation node.children result.children ∧
      node.rebuild result.children = .ok result := by
  rw [mapChildren_eq] at ran
  simp only [perform_bind_ok, perform_lift, Prod.mk.injEq] at ran
  obtain ⟨parts, middle, replaced, built, rfl⟩ := ran
  obtain ⟨kept, related⟩ := perform_mapM_ok invariant relation each initially replaced
  obtain ⟨rfl, -, -⟩ := rebuild_ok built related.length_eq.symm
  exact ⟨kept, related, built⟩

theorem mapChildren_self {state : σ}
    (each : ∀ child ∈ node.children, (replace child).perform state = (.ok child, state))
    (keeps : node.KeepsRules) : (mapChildren replace node).perform state = (.ok node, state) := by
  rw [mapChildren_eq]
  simp only [perform_bind_ok, perform_lift, Prod.mk.injEq]
  exact ⟨node.children, state, perform_mapM_self each, rebuild_children keeps, rfl⟩

/-! ### Statements -/

theorem statements_of_single (single : node.isSequence = false) : node.statements = [node] := by
  cases node with
  | sequence => cases single
  | _ => rfl

theorem statementsOf_of_single {items : List Node}
    (single : ∀ item ∈ items, item.isSequence = false) : statementsOf items = items := by
  induction items with
  | nil => rfl
  | cons item rest ih =>
    obtain ⟨first, others⟩ := forall_mem_cons.mp single
    rw [statementsOf, statements_of_single first, ih others, singleton_append]

theorem isSequence_of_mem_statements {tree part : Node} (mem : part ∈ tree.statements) :
    part.isSequence = false := by
  induction tree with
  | step node ih =>
    cases node with
    | sequence origin items =>
      obtain ⟨item, itemMem, inside⟩ := mem_statementsOf.mp mem
      exact ih item itemMem inside
    | _ =>
      obtain rfl := mem_singleton.mp mem
      rfl

end MacroAssembler.Node
