/-
This module is about operands as the host language reads them. Host code writes an operand without
parentheses, so its text is a chain: factors with an operator between each two, where a factor is
a number, a truth value or the name of a setting behind any number of unary operators.

The text of a chain determines the chain: it is cut at its blanks, and the marks of unary
operators can stand in no atom. The host language gives the chain a meaning by precedence. The
operators of the tightest level are carried out first, from left to right, then those of the next
level, and so on. Two facts say what a level does to a chain that was put together with one more
operator: an operator of a looser level leaves the two sides apart, and an operator of the same
level takes the finished left side as its left operand.
-/
import MacroAssembler.Proofs.LabelDirectives

namespace MacroAssembler.HostCode

open List

/-! ### Chains -/

/-- What an operand has between its operators. -/
inductive Atom
  | number (magnitude : Nat)
  | truth (value : Bool)
  | setting (name : String)
deriving DecidableEq, Repr

/-- An atom behind its unary operators. -/
structure Factor where
  signs : List UnaryOperator
  atom : Atom
deriving DecidableEq, Repr

/-- Factors with operators between them. -/
structure Chain where
  first : Factor
  rest : List (BinaryOperator × Factor)
deriving DecidableEq, Repr

def Atom.text : Atom → String
  | .number magnitude => Text.decimal magnitude
  | .truth value => if value then "true" else "false"
  | .setting name => name

def Factor.text (factor : Factor) : String :=
  factor.signs.foldr (fun sign written => unaryOperator sign ++ written) factor.atom.text

/-- How the factors after the first are written. -/
def Chain.restText : List (BinaryOperator × Factor) → String
  | [] => ""
  | (operator, factor) :: rest =>
    " " ++ binaryOperator operator ++ " " ++ factor.text ++ restText rest

def Chain.text (chain : Chain) : String := chain.first.text ++ restText chain.rest

def Chain.signed (sign : UnaryOperator) (chain : Chain) : Chain :=
  { chain with first := { chain.first with signs := sign :: chain.first.signs } }

def Chain.joined (operator : BinaryOperator) (left right : Chain) : Chain :=
  ⟨left.first, left.rest ++ (operator, right.first) :: right.rest⟩

theorem Chain.restText_append (first second : List (BinaryOperator × Factor)) :
    restText (first ++ second) = restText first ++ restText second := by
  induction first with
  | nil => simp [restText]
  | cons link rest ih =>
    rw [cons_append, restText, restText, ih]
    simp only [String.append_assoc]

@[simp]
theorem Chain.text_signed (sign : UnaryOperator) (chain : Chain) :
    (chain.signed sign).text = unaryOperator sign ++ chain.text := by
  unfold text signed Factor.text
  rw [foldr_cons, String.append_assoc]

@[simp]
theorem Chain.text_joined (operator : BinaryOperator) (left right : Chain) :
    (joined operator left right).text =
      left.text ++ " " ++ binaryOperator operator ++ " " ++ right.text := by
  unfold text joined
  rw [restText_append, restText]
  simp only [String.append_assoc]

/-! ### Reading a text back -/

/-- Whether a text is the name of something in the host language: an identifier that is not one of
the words for truth values. -/
def isHostName (name : String) : Bool :=
  name.toList.all isIdentifierCharacter && name.toList.head?.any (fun c => !c.isDigit) &&
    !(["true", "false"].contains name)

def Atom.isNamed : Atom → Bool
  | .setting name => isHostName name
  | _ => true

def Chain.isNamed (chain : Chain) : Bool :=
  chain.first.atom.isNamed && chain.rest.all fun link => link.2.atom.isNamed

theorem toList_decimal (magnitude : Nat) :
    (Text.decimal magnitude).toList = Nat.toDigits 10 magnitude := by
  rw [SymbolTable.decimal_natural, String.toList_ofList]

variable {magnitude : Nat}

theorem isDigit_of_mem_decimal {c : Char} (mem : c ∈ (Text.decimal magnitude).toList) :
    c.isDigit = true := by
  rw [toList_decimal] at mem
  exact Nat.isDigit_of_mem_toDigits (by decide) (by decide) mem

theorem Atom.isIdentifierCharacter_of_mem {atom : Atom} (named : atom.isNamed) {c : Char}
    (mem : c ∈ atom.text.toList) : isIdentifierCharacter c = true := by
  cases atom with
  | number magnitude =>
    have digit := isDigit_of_mem_decimal mem
    simp [isIdentifierCharacter, Char.isAlphanum, digit]
  | truth value =>
    have every : (Atom.truth value).text.toList.all isIdentifierCharacter = true := by
      cases value <;> decide
    exact all_eq_true.mp every c mem
  | setting name =>
    simp only [isNamed, isHostName, Bool.and_eq_true, all_eq_true] at named
    exact named.1.1 c mem

/-- A number is not written like a text whose first character is not a digit. -/
theorem toList_decimal_ne {name : String}
    (start : name.toList.head?.any (fun c => !c.isDigit) = true) :
    Text.decimal magnitude ≠ name := by
  rintro rfl
  obtain ⟨c, atHead, notDigit⟩ := (Option.any_eq_true _ _).mp start
  have digit := isDigit_of_mem_decimal (mem_of_mem_head? atHead)
  rw [digit] at notDigit
  cases notDigit

theorem Atom.text_injective {first second : Atom} (firstNamed : first.isNamed)
    (secondNamed : second.isNamed) (same : first.text = second.text) : first = second := by
  have truthStart : ∀ value : Bool,
      (text (.truth value)).toList.head?.any (fun c => !c.isDigit) = true := by decide
  have truthWord : ∀ value : Bool, ["true", "false"].contains (text (.truth value)) = true := by
    decide
  have nameStart : ∀ name, isHostName name = true →
      name.toList.head?.any (fun c => !c.isDigit) = true ∧
        ["true", "false"].contains name = false := by
    intro name named
    simp only [isHostName, Bool.and_eq_true, Bool.not_eq_true'] at named
    exact ⟨named.1.2, named.2⟩
  cases first with
  | number magnitude =>
    cases second with
    | number other => exact congrArg number (Int.ofNat.inj (decimal_injective same))
    | truth value => exact absurd same (toList_decimal_ne (truthStart value))
    | setting name => exact absurd same (toList_decimal_ne (nameStart name secondNamed).1)
  | truth value =>
    cases second with
    | number other => exact absurd same.symm (toList_decimal_ne (truthStart value))
    | truth other => revert same; revert value other; decide
    | setting name =>
      have word := truthWord value
      rw [same, text, (nameStart name secondNamed).2] at word
      cases word
  | setting name =>
    cases second with
    | number other => exact absurd same.symm (toList_decimal_ne (nameStart name firstNamed).1)
    | truth value =>
      have word := truthWord value
      rw [← same, text, (nameStart name firstNamed).2] at word
      cases word
    | setting other => exact congrArg setting same

def mark : UnaryOperator → Char
  | .negate => '-'
  | .complement => '~'
  | .not => '!'

theorem toList_unaryOperator (sign : UnaryOperator) :
    (unaryOperator sign).toList = [mark sign] := by
  cases sign <;> decide

theorem mark_not_identifierCharacter (sign : UnaryOperator) :
    isIdentifierCharacter (mark sign) = false := by
  cases sign <;> decide

theorem Factor.toList_text_cons (sign : UnaryOperator) (signs : List UnaryOperator) (atom : Atom) :
    (text ⟨sign :: signs, atom⟩).toList = mark sign :: (text ⟨signs, atom⟩).toList := by
  unfold text
  rw [foldr_cons, String.toList_append, toList_unaryOperator]
  rfl

theorem Atom.text_ne_mark {atom : Atom} (named : atom.isNamed) (sign : UnaryOperator)
    (rest : List Char) : atom.text.toList ≠ mark sign :: rest := by
  intro same
  have character := atom.isIdentifierCharacter_of_mem named (same ▸ mem_cons_self)
  rw [mark_not_identifierCharacter] at character
  cases character

theorem Factor.text_injective {first second : Factor} (firstNamed : first.atom.isNamed)
    (secondNamed : second.atom.isNamed) (same : first.text = second.text) : first = second := by
  obtain ⟨firstSigns, firstAtom⟩ := first
  obtain ⟨secondSigns, secondAtom⟩ := second
  replace same := congrArg String.toList same
  induction firstSigns generalizing secondSigns with
  | nil =>
    cases secondSigns with
    | nil =>
      have sameAtom : firstAtom = secondAtom :=
        Atom.text_injective firstNamed secondNamed (String.toList_inj.mp same)
      rw [sameAtom]
    | cons sign rest =>
      rw [toList_text_cons] at same
      exact absurd same (Atom.text_ne_mark firstNamed sign _)
  | cons sign rest ih =>
    rw [toList_text_cons] at same
    cases secondSigns with
    | nil => exact absurd same.symm (Atom.text_ne_mark secondNamed sign _)
    | cons otherSign otherRest =>
      rw [toList_text_cons, List.cons.injEq] at same
      have sameSign : sign = otherSign := by
        have marks := same.1
        revert marks
        cases sign <;> cases otherSign <;> decide
      have sameRest := ih firstNamed otherRest secondNamed same.2
      rw [Factor.mk.injEq] at sameRest ⊢
      exact ⟨by rw [sameSign, sameRest.1], sameRest.2⟩

theorem Factor.blank_notMem {factor : Factor} (named : factor.atom.isNamed) :
    ' ' ∉ factor.text.toList := by
  obtain ⟨signs, atom⟩ := factor
  induction signs with
  | nil =>
    intro mem
    have character := Atom.isIdentifierCharacter_of_mem named mem
    revert character
    decide
  | cons sign rest ih =>
    rw [toList_text_cons, mem_cons, not_or]
    exact ⟨by cases sign <;> decide, ih named⟩

theorem blank_notMem_binaryOperator (operator : BinaryOperator) :
    ' ' ∉ (binaryOperator operator).toList := by
  cases operator <;> decide

theorem binaryOperator_injective {first second : BinaryOperator}
    (same : binaryOperator first = binaryOperator second) : first = second := by
  revert same
  cases first <;> cases second <;> decide

theorem Chain.toList_restText_cons (operator : BinaryOperator) (factor : Factor)
    (rest : List (BinaryOperator × Factor)) : (restText ((operator, factor) :: rest)).toList =
      ' ' :: ((binaryOperator operator).toList ++
        ' ' :: (factor.text.toList ++ (restText rest).toList)) := by
  rw [restText]
  simp only [String.toList_append, append_assoc]
  rfl

/-- The text of a chain determines it: the factors and operators are what stands between its
blanks. -/
theorem Chain.text_injective {first second : Chain} (firstNamed : first.isNamed)
    (secondNamed : second.isNamed) (same : first.text = second.text) : first = second := by
  obtain ⟨factor, rest⟩ := first
  obtain ⟨otherFactor, otherRest⟩ := second
  simp only [isNamed, Bool.and_eq_true, all_eq_true] at firstNamed secondNamed
  replace same := congrArg String.toList same
  simp only [text, String.toList_append] at same
  induction rest generalizing factor otherFactor otherRest with
  | nil =>
    cases otherRest with
    | nil =>
      have sameFactor : factor.text = otherFactor.text := by
        simpa [restText, String.toList_inj] using same
      rw [Factor.text_injective firstNamed.1 secondNamed.1 sameFactor]
    | cons link others =>
      have blank : ' ' ∈ factor.text.toList := by
        rw [restText, String.toList_empty, append_nil, toList_restText_cons] at same
        rw [same]
        simp
      exact absurd blank (Factor.blank_notMem firstNamed.1)
  | cons link rest ih =>
    obtain ⟨operator, next⟩ := link
    rw [toList_restText_cons] at same
    cases otherRest with
    | nil =>
      have blank : ' ' ∈ otherFactor.text.toList := by
        rw [restText, String.toList_empty, append_nil] at same
        rw [← same]
        simp
      exact absurd blank (Factor.blank_notMem secondNamed.1)
    | cons otherLink others =>
      obtain ⟨otherOperator, otherNext⟩ := otherLink
      rw [toList_restText_cons] at same
      obtain ⟨sameFactor, same⟩ := eq_of_append_cons_eq (Factor.blank_notMem firstNamed.1)
        (Factor.blank_notMem secondNamed.1) same
      obtain ⟨sameOperator, same⟩ := eq_of_append_cons_eq (blank_notMem_binaryOperator operator)
        (blank_notMem_binaryOperator otherOperator) same
      have sameRest := ih next otherNext others
        ⟨firstNamed.2 _ mem_cons_self, fun link mem =>
          firstNamed.2 link (mem_cons_of_mem _ mem)⟩
        ⟨secondNamed.2 _ mem_cons_self, fun link mem =>
          secondNamed.2 link (mem_cons_of_mem _ mem)⟩ same
      rw [Chain.mk.injEq] at sameRest
      rw [Factor.text_injective firstNamed.1 secondNamed.1 (String.toList_inj.mp sameFactor),
        binaryOperator_injective (String.toList_inj.mp sameOperator), sameRest.1, sameRest.2]

/-! ### Precedence -/

/-- The level of an operator in the host language. Operators of a lower level bind tighter. -/
def level : BinaryOperator → Nat
  | .multiply => 0
  | .add | .subtract => 1
  | .bitAnd => 2
  | .bitXor => 3
  | .bitOr => 4
  | .both => 5
  | .either => 6

def levelCount : Nat := 7

/-- What atoms and operators mean. Only subtraction tells how its right operand is grouped with
further operators of its level. -/
structure Meaning (α : Type) where
  atom : Atom → α
  unary : UnaryOperator → α → α
  binary : BinaryOperator → α → α → α
  regroup : ∀ operator other, operator ≠ .subtract → level other = level operator →
    ∀ first second third, binary other (binary operator first second) third =
        binary operator first (binary other second third)

namespace Meaning

variable {α : Type} (meaning : Meaning α)

def factor (factor : Factor) : α := factor.signs.foldr meaning.unary (meaning.atom factor.atom)

/-- Carry out the operators of one level, from left to right. -/
def contract (current : Nat) (value : α) :
    List (BinaryOperator × α) → α × List (BinaryOperator × α)
  | [] => (value, [])
  | (operator, next) :: rest =>
    if level operator = current then contract current (meaning.binary operator value next) rest
    else
      let later := contract current next rest
      (value, (operator, later.1) :: later.2)

/-- Carry out the operators below a level, the tightest first. -/
def contractBelow : Nat → α → List (BinaryOperator × α) → α × List (BinaryOperator × α)
  | 0, value, rest => (value, rest)
  | current + 1, value, rest =>
    let tighter := contractBelow current value rest
    meaning.contract current tighter.1 tighter.2

/-- The values of the factors after the first. -/
def links (rest : List (BinaryOperator × Factor)) : List (BinaryOperator × α) :=
  rest.map fun link => (link.1, meaning.factor link.2)

/-- The chain that is left after the levels below the given one. -/
def reduced (bound : Nat) (chain : Chain) : α × List (BinaryOperator × α) :=
  meaning.contractBelow bound (meaning.factor chain.first) (meaning.links chain.rest)

/-- The value of a chain as the host language reads it. -/
def reading (chain : Chain) : α := (meaning.reduced levelCount chain).1

variable {meaning}

variable {operator : BinaryOperator} {current bound : Nat} {value : α} {chain : Chain}

/-- An operator of another level keeps the two sides apart. -/
theorem contract_append_other (other : level operator ≠ current) (value next : α)
    (front back : List (BinaryOperator × α)) :
    meaning.contract current value (front ++ (operator, next) :: back) =
      ((meaning.contract current value front).1, (meaning.contract current value front).2 ++
          (operator, (meaning.contract current next back).1) ::
            (meaning.contract current next back).2) := by
  induction front generalizing value with
  | nil => simp [contract, other]
  | cons link rest ih =>
    rw [cons_append, contract, contract]
    split
    · exact ih _
    · rw [ih]
      rfl

theorem contract_append_same (same : level operator = current) {finished : α}
    {front : List (BinaryOperator × α)}
    (left : meaning.contract current value front = (finished, [])) (next : α)
    (back : List (BinaryOperator × α)) :
    meaning.contract current value (front ++ (operator, next) :: back) =
      meaning.contract current (meaning.binary operator finished next) back := by
  induction front generalizing value with
  | nil =>
    rw [contract, Prod.mk.injEq] at left
    rw [nil_append, contract, if_pos same, left.1]
  | cons link rest ih =>
    rw [contract] at left
    rw [cons_append, contract]
    split at left
    · rename_i here
      rw [if_pos here]
      exact ih left
    · cases (Prod.mk.inj left).2

theorem contractBelow_append (looser : bound ≤ level operator) (value next : α)
    (front back : List (BinaryOperator × α)) :
    meaning.contractBelow bound value (front ++ (operator, next) :: back) =
      ((meaning.contractBelow bound value front).1, (meaning.contractBelow bound value front).2 ++
          (operator, (meaning.contractBelow bound next back).1) ::
            (meaning.contractBelow bound next back).2) := by
  induction bound with
  | zero => rfl
  | succ current ih =>
    rw [contractBelow, ih (by omega), contract_append_other (by omega)]
    rfl

theorem contract_regroup (same : level operator = current) (regroups : operator ≠ .subtract)
    {finished : α} {rest : List (BinaryOperator × α)}
    (right : meaning.contract current value rest = (finished, [])) (front : α) :
    meaning.contract current (meaning.binary operator front value) rest =
      (meaning.binary operator front finished, []) := by
  induction rest generalizing value with
  | nil =>
    rw [contract, Prod.mk.injEq] at right
    rw [contract, right.1]
  | cons link rest ih =>
    rw [contract] at right ⊢
    split at right
    · rename_i here
      rw [if_pos here, meaning.regroup operator link.1 regroups (here.trans same.symm)]
      exact ih right
    · cases (Prod.mk.inj right).2

theorem reduced_mono {wider : Nat} (finished : meaning.reduced bound chain = (value, []))
    (le : bound ≤ wider) : meaning.reduced wider chain = (value, []) := by
  induction wider, le using Nat.le_induction with
  | base => exact finished
  | succ wider _ ih =>
    unfold reduced at ih ⊢
    rw [contractBelow, ih]
    rfl

theorem reduced_joined (looser : bound ≤ level operator) (left right : Chain) :
    meaning.reduced bound (.joined operator left right) = ((meaning.reduced bound left).1,
        (meaning.reduced bound left).2 ++
          (operator, (meaning.reduced bound right).1) :: (meaning.reduced bound right).2) := by
  unfold reduced Chain.joined links
  rw [map_append, map_cons]
  exact contractBelow_append looser _ _ _ _

theorem reduced_succ (bound : Nat) (chain : Chain) : meaning.reduced (bound + 1) chain =
      meaning.contract bound (meaning.reduced bound chain).1 (meaning.reduced bound chain).2 :=
  rfl

/-- Two chains that are carried out up to the level of the operator between them: the operator
then joins their values. The right one may have operators of the same level only if the operator
does not subtract. -/
theorem reduced_joined_eq {left right : Chain} {leftValue rightValue : α}
    (leftDone : meaning.reduced (level operator + 1) left = (leftValue, []))
    (rightDone : meaning.reduced (level operator) right = (rightValue, []) ∨ operator ≠ .subtract ∧
        meaning.reduced (level operator + 1) right = (rightValue, [])) :
    meaning.reduced (level operator + 1) (.joined operator left right) =
      (meaning.binary operator leftValue rightValue, []) := by
  rw [reduced_succ] at leftDone
  rw [reduced_succ, reduced_joined (Nat.le_refl _), contract_append_same rfl leftDone]
  rcases rightDone with rightDone | ⟨regroups, rightDone⟩
  · rw [rightDone]
    rfl
  · rw [reduced_succ] at rightDone
    exact contract_regroup rfl regroups rightDone leftValue

theorem reduced_signed (sign : UnaryOperator) (done : meaning.reduced 0 chain = (value, [])) :
    meaning.reduced 0 (chain.signed sign) = (meaning.unary sign value, []) := by
  unfold reduced contractBelow at done ⊢
  rw [Prod.mk.injEq] at done ⊢
  exact ⟨congrArg (meaning.unary sign) done.1, done.2⟩

end Meaning

end MacroAssembler.HostCode
