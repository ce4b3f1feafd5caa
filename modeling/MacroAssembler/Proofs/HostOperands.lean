/-
This module says what the text of an operand in host code tells about the operand. Three sorts of
operands have a value: arithmetic over integers, conditions over truth values and settings, and
references to labels.

Arithmetic and conditions are written without parentheses. So the text tells the factors and
operators of an operand in their order, its chain, and not how they are grouped: a product of a
sum is written like the sum with a product. The host language groups the chain by precedence. An
operand that is grouped in this way has the value that the host language reads, and two such
operands with one text have one value. A reference is written as the name of its label, whatever
its offset.
-/
import MacroAssembler.Proofs.OperatorChains
import MacroAssembler.Folding

namespace MacroAssembler

open List

/-! ### Bitwise operations can be regrouped -/

namespace Bits

theorem testBit_without (left right index : Nat) :
    (without left right).testBit index = (left.testBit index && !right.testBit index) := by
  unfold without
  rw [Nat.testBit_xor, Nat.testBit_and]
  cases left.testBit index <;> cases right.testBit index <;> rfl

theorem conjunction_assoc (first second third : Int) :
    conjunction (conjunction first second) third =
      conjunction first (conjunction second third) := by
  rcases first with first | first <;> rcases second with second | second <;>
    rcases third with third | third <;> simp only [conjunction] <;> congr 1 <;>
    refine Nat.eq_of_testBit_eq fun index => ?_ <;>
    simp only [testBit_without, Nat.testBit_and, Nat.testBit_or] <;>
    cases first.testBit index <;> cases second.testBit index <;> cases third.testBit index <;> rfl

theorem disjunction_assoc (first second third : Int) :
    disjunction (disjunction first second) third =
      disjunction first (disjunction second third) := by
  rcases first with first | first <;> rcases second with second | second <;>
    rcases third with third | third <;> simp only [disjunction] <;> congr 1 <;>
    refine Nat.eq_of_testBit_eq fun index => ?_ <;>
    simp only [testBit_without, Nat.testBit_and, Nat.testBit_or] <;>
    cases first.testBit index <;> cases second.testBit index <;> cases third.testBit index <;> rfl

theorem difference_assoc (first second third : Int) :
    difference (difference first second) third = difference first (difference second third) := by
  rcases first with first | first <;> rcases second with second | second <;>
    rcases third with third | third <;> simp only [difference, Nat.xor_assoc]

end Bits

namespace HostCode

/-! ### Operands with a value -/

/-- Arithmetic over integers, or, if it is logical, conditions over truth values and settings
whose names are names of the host language. -/
inductive Expression : Bool → Node → Prop
  | immediate (origin : Origin) (value : Int) : Expression false (.immediate origin value)
  | truth (value : Bool) : Expression true (.truth value)
  | setting (origin : Origin) {name : String} (named : isHostName name) :
    Expression true (.setting origin name)
  | binary (origin : Origin) (operator : BinaryOperator) {left right : Node}
    (leftExpression : Expression operator.isLogical left)
    (rightExpression : Expression operator.isLogical right) :
    Expression operator.isLogical (.binary origin operator left right)
  | unary (origin : Origin) (operator : UnaryOperator) {child : Node}
    (childExpression : Expression operator.isLogical child) :
    Expression operator.isLogical (.unary origin operator child)

/-- The factor of an integer: its magnitude, behind a minus if it is negative. -/
def Factor.ofInteger (value : Int) : Factor :=
  ⟨if value < 0 then [.negate] else [], .number value.natAbs⟩

/-- The factors and operators of an operand in their order. -/
def chainOf : Node → Chain
  | .immediate _ value => ⟨.ofInteger value, []⟩
  | .truth value => ⟨⟨[], .truth value⟩, []⟩
  | .setting _ name => ⟨⟨[], .setting name⟩, []⟩
  | .binary _ operator left right => .joined operator (chainOf left) (chainOf right)
  | .unary _ operator child => (chainOf child).signed operator
  | _ => ⟨.ofInteger 0, []⟩

theorem text_ofInteger (value : Int) : (Factor.ofInteger value).text = Text.decimal value := by
  unfold Factor.ofInteger Factor.text
  split
  · rename_i negative
    rw [Text.decimal, if_pos negative, foldr_cons, foldr_nil, Atom.text,
      SymbolTable.decimal_natural, ← String.toList_inj, String.toList_append,
      toList_unaryOperator, String.toList_ofList, String.toList_ofList]
    rfl
  · rename_i natural
    rw [Text.decimal, if_neg natural, foldr_nil, Atom.text, SymbolTable.decimal_natural]
    rfl

variable {logical : Bool} {node : Node}

theorem chainOf_isNamed (expression : Expression logical node) : (chainOf node).isNamed = true := by
  induction expression with
  | immediate | truth => rfl
  | setting origin named => simpa [chainOf, Chain.isNamed, Atom.isNamed] using named
  | binary origin operator _ _ leftNamed rightNamed =>
    simp only [Chain.isNamed, Bool.and_eq_true] at leftNamed rightNamed
    simp [chainOf, Chain.joined, Chain.isNamed, leftNamed, rightNamed]
  | unary origin operator _ childNamed => exact childNamed

theorem lower_expression (expression : Expression logical node) (config : Configuration)
    (table : SymbolTable) :
    (lower config node).perform table = (.ok (.operand (chainOf node).text), table) := by
  unfold lower
  induction expression with
  | immediate origin value =>
    rw [chainOf, Chain.text, text_ofInteger, Chain.restText, String.append_empty]
    rfl
  | truth value => cases value <;> rfl
  | setting origin named =>
    rw [chainOf, Chain.text, Chain.restText, String.append_empty]
    rfl
  | binary origin operator _ _ leftLowers rightLowers =>
    rw [lowerAt, chainOf, Chain.text_joined]
    simp only [Action.perform_bind, leftLowers, rightLowers]
    rfl
  | unary origin operator _ childLowers =>
    rw [lowerAt, chainOf, Chain.text_signed]
    simp only [Action.perform_bind, childLowers]
    rfl

/-! ### Grouping -/

/-- How loose an operand is: one more than the level of its last operator, or zero if that is not
a binary one. -/
def looseness : Node → Nat
  | .binary _ operator _ _ => level operator + 1
  | _ => 0

/-- Whether an operand is grouped as the host language groups its text: a unary operator applies
to a factor, and a binary one to operands that are not looser than itself. Its right operand has
to be tighter if it subtracts. -/
def isGrouped : Node → Bool
  | .binary _ operator left right =>
    isGrouped left && isGrouped right && decide (looseness left ≤ level operator + 1) &&
      (decide (looseness right ≤ level operator) ||
        decide (operator ≠ .subtract) && decide (looseness right ≤ level operator + 1))
  | .unary _ _ child => isGrouped child && decide (looseness child = 0)
  | _ => true

def Meaning.value {α : Type} (meaning : Meaning α) : Node → α
  | .binary _ operator left right =>
    meaning.binary operator (meaning.value left) (meaning.value right)
  | .unary _ operator child => meaning.unary operator (meaning.value child)
  | leaf => meaning.factor (chainOf leaf).first

/-- A grouped operand is carried out by the levels up to its own. -/
theorem reduced_chainOf {α : Type} (meaning : Meaning α) (expression : Expression logical node)
    (grouped : isGrouped node) :
    meaning.reduced (looseness node) (chainOf node) = (meaning.value node, []) := by
  induction expression with
  | immediate | truth | setting => rfl
  | binary origin operator _ _ leftReduces rightReduces =>
    simp only [isGrouped, Bool.and_eq_true, Bool.or_eq_true, decide_eq_true_eq] at grouped
    obtain ⟨⟨⟨leftGrouped, rightGrouped⟩, leftLevel⟩, rightLevel⟩ := grouped
    refine Meaning.reduced_joined_eq (Meaning.reduced_mono (leftReduces leftGrouped) leftLevel) ?_
    refine rightLevel.imp (fun tighter => ?_) fun ⟨regroups, same⟩ => ⟨regroups, ?_⟩
    · exact Meaning.reduced_mono (rightReduces rightGrouped) tighter
    · exact Meaning.reduced_mono (rightReduces rightGrouped) same
  | unary origin operator _ childReduces =>
    simp only [isGrouped, Bool.and_eq_true, decide_eq_true_eq] at grouped
    have child := childReduces grouped.1
    rw [grouped.2] at child
    exact Meaning.reduced_signed operator child

theorem looseness_le (node : Node) : looseness node ≤ levelCount := by
  unfold looseness
  split
  · rename_i operator _ _
    cases operator <;> decide
  · exact Nat.zero_le _

theorem reading_chainOf {α : Type} (meaning : Meaning α) (expression : Expression logical node)
    (grouped : isGrouped node) : meaning.reading (chainOf node) = meaning.value node := by
  unfold Meaning.reading
  rw [Meaning.reduced_mono (reduced_chainOf meaning expression grouped) (looseness_le node)]

/-! ### Arithmetic and conditions -/

def arithmetic : Meaning Int where
  atom
    | .number magnitude => magnitude
    | _ => 0
  unary
    | .negate, value => -value
    | .complement, value => Bits.complement value
    | .not, _ => 0
  binary operator left right := (operator.compute? left right).getD 0
  regroup operator other regroups sameLevel first second third := by
    cases operator <;> cases other <;> simp [level] at regroups sameLevel <;>
      simp only [BinaryOperator.compute?, Option.getD_some, Option.getD_none]
    case add.add => exact Int.add_assoc first second third
    case add.subtract => exact Int.add_sub_assoc first second third
    case multiply.multiply => exact Int.mul_assoc first second third
    case bitOr.bitOr => exact Bits.disjunction_assoc first second third
    case bitAnd.bitAnd => exact Bits.conjunction_assoc first second third
    case bitXor.bitXor => exact Bits.difference_assoc first second third

def conditions (config : Configuration) : Meaning Bool where
  atom
    | .truth value => value
    | .setting name => (config.setting? name).getD false
    | .number _ => false
  unary
    | .not, value => !value
    | _, _ => false
  binary
    | .both, left, right => left && right
    | .either, left, right => left || right
    | _, _, _ => false
  regroup operator other regroups sameLevel first second third := by
    cases operator <;> cases other <;> simp [level] at regroups sameLevel <;>
      simp [Bool.and_assoc, Bool.or_assoc]

def settingsOf : Node → List String
  | .setting _ name => [name]
  | .binary _ _ left right => settingsOf left ++ settingsOf right
  | .unary _ _ child => settingsOf child
  | _ => []

theorem factor_ofInteger (value : Int) : arithmetic.factor (.ofInteger value) = value := by
  unfold Factor.ofInteger Meaning.factor
  split
  · show -((value.natAbs : Nat) : Int) = value
    omega
  · show ((value.natAbs : Nat) : Int) = value
    omega

theorem immediateValue_eq (expression : Expression false node) (config : Configuration) :
    node.immediateValue config = .ok (arithmetic.value node) := by
  generalize kind : false = logical at expression
  induction expression with
  | immediate origin value =>
    exact congrArg Except.ok (factor_ofInteger value).symm
  | truth | setting => cases kind
  | binary origin operator _ _ leftValue rightValue =>
    rw [Node.immediateValue, ← kind, leftValue kind, rightValue kind]
    rfl
  | unary origin operator _ childValue =>
    cases operator with
    | not => cases kind
    | negate | complement =>
      rw [Node.immediateValue, childValue kind]
      rfl

theorem evaluate_eq (expression : Expression true node) {config : Configuration}
    (defined : ∀ name ∈ settingsOf node, config.isDefined name) :
    node.evaluate config = .ok ((conditions config).value node) := by
  generalize kind : true = logical at expression
  induction expression with
  | immediate => cases kind
  | truth value => rfl
  | @setting origin name named =>
    obtain ⟨value, known⟩ := Option.isSome_iff_exists.mp (defined name mem_cons_self)
    have meaning : (conditions config).value (.setting origin name) =
      (config.setting? name).getD false := rfl
    rw [Node.evaluate, Configuration.isSet, meaning, known]
    rfl
  | binary origin operator _ _ leftValue rightValue =>
    simp only [settingsOf, mem_append] at defined
    have leftDone := leftValue (fun name mem => defined name (.inl mem)) kind
    have rightDone := rightValue (fun name mem => defined name (.inr mem)) kind
    cases operator with
    | both | either =>
      rw [Node.evaluate, leftDone, rightDone]
      rfl
    | add | subtract | multiply | bitOr | bitAnd | bitXor => cases kind
  | unary origin operator _ childValue =>
    cases operator with
    | not =>
      rw [Node.evaluate, childValue defined kind]
      rfl
    | negate | complement => cases kind

/-! ### What a text tells -/

def written (config : Configuration) (table : SymbolTable) (node : Node) : Checked Code :=
  ((lower config node).perform table).1

theorem written_expression (expression : Expression logical node) (config : Configuration)
    (table : SymbolTable) : written config table node = .ok (.operand (chainOf node).text) := by
  rw [written, lower_expression expression]

theorem written_eq_iff {first second : Node} (firstExpression : Expression logical first)
    (secondExpression : Expression logical second) (config : Configuration) (table : SymbolTable) :
    written config table first = written config table second ↔ chainOf first = chainOf second := by
  rw [written_expression firstExpression, written_expression secondExpression, Except.ok.injEq,
    Lowered.operand.injEq]
  exact ⟨Chain.text_injective (chainOf_isNamed firstExpression) (chainOf_isNamed secondExpression),
    congrArg Chain.text⟩

theorem written_labelReference (config : Configuration) (table : SymbolTable)
    (origin : Origin) (mark : Label) (offset : Int) :
    written config table (.labelReference origin mark offset) =
      .ok (.operand ("\"" ++ mark.name ++ "\"")) := rfl

/-- What the text of an operand tells. Arithmetic and conditions are always written, and two of
them have one text exactly if they have the same factors and operators in the same order. Operands
that are grouped as the host language groups them have the value that it reads from their chain,
so one text means one value. References have one text exactly if they name one label. -/
theorem operand_text_meaning (configuration : Configuration) (table : SymbolTable) :
    (∀ logical first second, Expression logical first → Expression logical second →
      (∃ text, written configuration table first = .ok (.operand text)) ∧
      (written configuration table first = written configuration table second ↔
        chainOf first = chainOf second)) ∧
    (∀ first second, Expression false first → Expression false second →
      isGrouped first → isGrouped second →
      written configuration table first = written configuration table second →
      first.immediateValue configuration = .ok (arithmetic.reading (chainOf first)) ∧
      second.immediateValue configuration = .ok (arithmetic.reading (chainOf first))) ∧
    (∀ first second, Expression true first → Expression true second →
      isGrouped first → isGrouped second →
      written configuration table first = written configuration table second →
      ∀ machine : Configuration,
        (∀ name ∈ settingsOf first ++ settingsOf second, machine.isDefined name) →
        first.evaluate machine = .ok ((conditions machine).reading (chainOf first)) ∧
        second.evaluate machine = .ok ((conditions machine).reading (chainOf first))) ∧
    (∀ origin mark offset otherOrigin otherMark otherOffset,
      written configuration table (.labelReference origin mark offset) =
          written configuration table (.labelReference otherOrigin otherMark otherOffset) ↔
        mark.name = otherMark.name) := by
  refine ⟨?_, ?_, ?_, ?_⟩
  · intro logical first second firstExpression secondExpression
    exact ⟨⟨_, written_expression firstExpression configuration table⟩,
      written_eq_iff firstExpression secondExpression configuration table⟩
  · intro first second firstExpression secondExpression firstGrouped secondGrouped sameText
    have sameChain :=
      (written_eq_iff firstExpression secondExpression configuration table).mp sameText
    constructor
    · rw [immediateValue_eq firstExpression,
        reading_chainOf arithmetic firstExpression firstGrouped]
    · rw [immediateValue_eq secondExpression, sameChain,
        reading_chainOf arithmetic secondExpression secondGrouped]
  · intro first second firstExpression secondExpression firstGrouped secondGrouped sameText machine
      defined
    have sameChain :=
      (written_eq_iff firstExpression secondExpression configuration table).mp sameText
    constructor
    · rw [evaluate_eq firstExpression fun name member =>
          defined name (List.mem_append_left _ member),
        reading_chainOf _ firstExpression firstGrouped]
    · rw [evaluate_eq secondExpression fun name member =>
          defined name (List.mem_append_right _ member),
        sameChain, reading_chainOf _ secondExpression secondGrouped]
  · intro origin mark offset otherOrigin otherMark otherOffset
    rw [written_labelReference, written_labelReference, Except.ok.injEq, Lowered.operand.injEq,
      String.append_left_inj, String.append_right_inj]

def loopMachine : Configuration := ⟨.loop, Configuration.defaultFeatures, [], []⟩

/-- The difference of a product and a negative number is written like the difference of the
product and a negation, and both are eleven. -/
theorem operand_text_meaning_negation :
    let number := Node.immediate .nowhere
    let product := Node.binary .nowhere .multiply (number 2) (number 3)
    let first := Node.binary .nowhere .subtract product (number (-5))
    let second := Node.binary .nowhere .subtract product (.unary .nowhere .negate (number 5))
    written loopMachine .empty first = written loopMachine .empty second ∧
      first.immediateValue loopMachine = .ok 11 ∧ second.immediateValue loopMachine = .ok 11 := by
  intro number product first second
  have isProduct : Expression false product :=
    .binary .nowhere .multiply (.immediate .nowhere 2) (.immediate .nowhere 3)
  have isFirst : Expression false first :=
    .binary .nowhere .subtract isProduct (.immediate .nowhere (-5))
  have isSecond : Expression false second :=
    .binary .nowhere .subtract isProduct (.unary .nowhere .negate (.immediate .nowhere 5))
  obtain ⟨texts, values, -, -⟩ := operand_text_meaning loopMachine .empty
  have sameText := (texts false first second isFirst isSecond).2.mpr (by decide)
  have reads : arithmetic.reading (chainOf first) = 11 := by decide
  have same := values first second isFirst isSecond (by decide) (by decide) sameText
  rw [reads] at same
  exact ⟨sameText, same⟩

/-- Pairs of operands with one text and two meanings: a product of a sum and the sum with a
product, a negated conjunction and the conjunction with a negation, and references to two places
of a label. -/
theorem operand_text_ambiguous :
    let number := Node.immediate .nowhere
    let join := Node.binary .nowhere
    let negate := Node.unary .nowhere .not
    let reference := Node.labelReference .nowhere ⟨.nowhere, "a"⟩
    let productOfSum := join .multiply (join .add (number 1) (number 2)) (number 3)
    let sumWithProduct := join .add (number 1) (join .multiply (number 2) (number 3))
    let negatedBoth := negate (join .both (.truth true) (.truth false))
    let bothNegated := join .both (negate (.truth true)) (.truth false)
    (written loopMachine .empty productOfSum = written loopMachine .empty sumWithProduct ∧
      productOfSum.immediateValue loopMachine = .ok 9 ∧
      sumWithProduct.immediateValue loopMachine = .ok 7) ∧
    (written loopMachine .empty negatedBoth = written loopMachine .empty bothNegated ∧
      negatedBoth.evaluate loopMachine = .ok true ∧
      bothNegated.evaluate loopMachine = .ok false) ∧
    written loopMachine .empty (reference 0) = written loopMachine .empty (reference 4) := by
  intro number join negate reference productOfSum sumWithProduct negatedBoth bothNegated
  have isNumber : ∀ value, Expression false (number value) := .immediate .nowhere
  have isProductOfSum : Expression false productOfSum :=
    .binary _ .multiply (.binary _ .add (isNumber 1) (isNumber 2)) (isNumber 3)
  have isSumWithProduct : Expression false sumWithProduct :=
    .binary _ .add (isNumber 1) (.binary _ .multiply (isNumber 2) (isNumber 3))
  have isNegatedBoth : Expression true negatedBoth :=
    .unary _ .not (.binary _ .both (.truth true) (.truth false))
  have isBothNegated : Expression true bothNegated :=
    .binary _ .both (.unary _ .not (.truth true)) (.truth false)
  refine ⟨⟨?_, rfl, rfl⟩, ⟨?_, rfl, rfl⟩, rfl⟩
  · exact (written_eq_iff isProductOfSum isSumWithProduct _ _).mpr (by decide)
  · exact (written_eq_iff isNegatedBoth isBothNegated _ _).mpr (by decide)

end HostCode

end MacroAssembler
