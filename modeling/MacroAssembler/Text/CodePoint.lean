/-
This module holds texts that are more than characters. A document may spell half of a surrogate
pair alone, and no character has its code. A text holds such a half as two characters, a mark and
a character that stands for the half, and it holds the mark itself as two marks.

Neither the mark nor the characters that stand for halves are letters, digits, blanks or line ends,
so whatever looks for those need not know about halves.
-/
import MacroAssembler.Text.Integer

namespace MacroAssembler.Text

inductive CodePoint
  | char (c : Char)
  | half (unit : Nat)
deriving DecidableEq, Repr

/-- The character that announces a half. -/
def mark : Char := Char.ofNat 0x10ffff

def isHalf (unit : Nat) : Bool := decide (0xd800 ≤ unit) && decide (unit < 0xe000)

def ofUnit (unit : Nat) : CodePoint := if isHalf unit then .half unit else .char (Char.ofNat unit)

/-- The character that stands for a half after the mark: the one as far behind the halves as there
are halves. -/
def halfChar (unit : Nat) : Char := Char.ofNat (unit + 0x800)

def halfOf? (c : Char) : Option Nat :=
  if isHalf (c.toNat - 0x800) then some (c.toNat - 0x800) else none

theorem halfOf?_halfChar {unit : Nat} (half : isHalf unit = true) :
    halfOf? (halfChar unit) = some unit := by
  simp only [isHalf, Bool.and_eq_true, decide_eq_true_eq] at half
  have valid : (unit + 0x800).isValidChar := Or.inr ⟨by omega, by omega⟩
  have code : (halfChar unit).toNat = unit + 0x800 := by
    rw [halfChar, Char.ofNat, dif_pos valid]
    rfl
  simp [halfOf?, code, isHalf, half.1, half.2]

theorem halfChar_ne_mark {unit : Nat} (half : isHalf unit = true) : halfChar unit ≠ mark := by
  intro equal
  have found := halfOf?_halfChar half
  rw [equal] at found
  simp [halfOf?, isHalf, mark] at found

attribute [irreducible] halfOf?

def CodePoint.characters : CodePoint → List Char
  | .char c => if c = mark then [mark, mark] else [c]
  | .half unit => [mark, halfChar unit]

def ofPoints (points : List CodePoint) : String :=
  String.ofList (points.flatMap CodePoint.characters)

/-- The code points that characters hold. A mark that announces nothing is a character. -/
def pointsOf : List Char → List CodePoint
  | [] => []
  | [c] => [.char c]
  | c :: next :: rest =>
    if c = mark then
      if next = mark then .char mark :: pointsOf rest
      else
        match halfOf? next with
        | some unit => .half unit :: pointsOf rest
        | none => .char c :: pointsOf (next :: rest)
    else .char c :: pointsOf (next :: rest)

def points (text : String) : List CodePoint := pointsOf text.toList

/-! ### Nothing is lost -/

/-- Whether a code point is a character, or half of a pair in fact. -/
def CodePoint.isProper : CodePoint → Bool
  | .char _ => true
  | .half unit => Text.isHalf unit

theorem pointsOf_mark_mark (rest : List Char) :
    pointsOf (mark :: mark :: rest) = .char mark :: pointsOf rest := by
  rw [pointsOf, if_pos rfl, if_pos rfl]

theorem pointsOf_cons {c : Char} (other : c ≠ mark) (rest : List Char) :
    pointsOf (c :: rest) = .char c :: pointsOf rest := by
  cases rest with
  | nil => rfl
  | cons next rest => rw [pointsOf, if_neg other]

theorem pointsOf_mark_halfChar {unit : Nat} (half : isHalf unit = true) (rest : List Char) :
    pointsOf (mark :: halfChar unit :: rest) = .half unit :: pointsOf rest := by
  rw [pointsOf, if_pos rfl, if_neg (halfChar_ne_mark half), halfOf?_halfChar half]

theorem pointsOf_characters_append {point : CodePoint} (proper : point.isProper = true)
    (rest : List Char) :
    pointsOf (point.characters ++ rest) = point :: pointsOf rest := by
  cases point with
  | char c =>
    by_cases isMark : c = mark
    · rw [CodePoint.characters, if_pos isMark, isMark]
      exact pointsOf_mark_mark rest
    · rw [CodePoint.characters, if_neg isMark]
      exact pointsOf_cons isMark rest
  | half unit => exact pointsOf_mark_halfChar proper rest

/-- The code points of the text of code points are these, so different sequences of code points
are different texts. -/
theorem points_ofPoints {codePoints : List CodePoint}
    (proper : ∀ point ∈ codePoints, point.isProper = true) :
    points (ofPoints codePoints) = codePoints := by
  simp only [points, ofPoints, String.toList_ofList]
  induction codePoints with
  | nil => rfl
  | cons point rest ih =>
    rw [List.flatMap_cons, pointsOf_characters_append (proper point List.mem_cons_self),
      ih fun other member => proper other (List.mem_cons_of_mem _ member)]

/-! ### Inside and outside -/

/-- The text of a string from outside, in which every character means itself. -/
def carried (outside : String) : String := ofPoints (outside.toList.map .char)

/-- The last digits of a number in base sixteen, the given number of them. -/
def hexDigits : Nat → Nat → List Char
  | 0, _ => []
  | width + 1, value => hexDigits width (value / 16) ++ [Nat.digitChar (value % 16)]

/-- A code unit in base sixteen after a backslash and a letter. -/
def unitText (unit : Nat) : List Char := '\\' :: 'u' :: hexDigits 4 unit

/-- The characters that show a code point outside. A half is spelled by its code. -/
def CodePoint.shown : CodePoint → List Char
  | .char c => [c]
  | .half unit => unitText unit

/-- The string that shows a text outside. -/
def released (text : String) : String := String.ofList ((points text).flatMap CodePoint.shown)

/-! ### Encoding -/

/-- A run of halves in a text: its position, its length, and the first half. -/
structure HalfRun where
  position : Nat
  length : Nat
  first : Nat
deriving DecidableEq, Repr

def CodePoint.isHalf : CodePoint → Bool
  | .char _ => false
  | .half _ => true

def firstHalfRun? : Nat → List CodePoint → Option HalfRun
  | _, [] => none
  | position, .char _ :: rest => firstHalfRun? (position + 1) rest
  | position, .half unit :: rest =>
    some ⟨position, (rest.takeWhile CodePoint.isHalf).length + 1, unit⟩

/-- Why a text cannot be encoded as bytes, if so: it has a half of a pair. -/
def encodingProblem? (text : String) : Option HalfRun := firstHalfRun? 0 (points text)

/-- A run of halves as the reason why a text cannot be encoded. -/
def HalfRun.message (run : HalfRun) : String :=
  let place :=
    if run.length = 1 then
      " '" ++ String.ofList (unitText run.first) ++ "' in position " ++ decimal run.position
    else
      "s in position " ++ decimal run.position ++ "-" ++
        decimal (run.position + run.length - 1)
  "'utf-8' codec can't encode character" ++ place ++ ": surrogates not allowed"

end MacroAssembler.Text
