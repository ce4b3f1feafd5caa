/-
This module compares words by what they have in common. The common part of two words is their
longest common block, of several the one that starts first, together with the common parts of
what lies before the block and of what lies after it.
-/
import MacroAssembler.Text.CodePoint

namespace MacroAssembler.Text

def commonStart : List CodePoint → List CodePoint → Nat
  | left :: leftRest, right :: rightRest =>
    if left = right then commonStart leftRest rightRest + 1 else 0
  | _, _ => 0

structure CommonBlock where
  left : Nat
  right : Nat
  size : Nat
deriving DecidableEq, Repr

def longestBlock (left right : List CodePoint) : CommonBlock :=
  let starts := (List.range left.length).flatMap fun i =>
    (List.range right.length).map fun j => (i, j)
  starts.foldl (fun best (i, j) =>
    let size := commonStart (left.drop i) (right.drop j)
    if best.size < size then ⟨i, j, size⟩ else best) ⟨0, 0, 0⟩

/-- The size of the common part of two lists, for which as many blocks are looked at as the first
argument allows. -/
def commonSizeUpTo : Nat → List CodePoint → List CodePoint → Nat
  | 0, _, _ => 0
  | steps + 1, left, right =>
    let block := longestBlock left right
    if block.size = 0 then 0
    else
      commonSizeUpTo steps (left.take block.left) (right.take block.right) + block.size +
        commonSizeUpTo steps (left.drop (block.left + block.size))
          (right.drop (block.right + block.size))

def length (word : String) : Nat := (points word).length

/-- The size of the common part of two words. Every block makes the left word shorter, so there
are no more levels of blocks than it has characters. -/
def commonSize (left right : String) : Nat :=
  commonSizeUpTo (length left) (points left) (points right)

def isSimilar (left right : String) : Bool :=
  decide (3 * (length left + length right) ≤ 10 * commonSize left right)

/-- Whether the first of two words is closer to a third one, or as close and later in the
alphabet. -/
def isCloser (word left right : String) : Bool :=
  let leftScore := commonSize left word * (length right + length word)
  let rightScore := commonSize right word * (length left + length word)
  decide (rightScore < leftScore) || leftScore = rightScore && decide (right ≤ left)

/-- The words that are similar to the given one, the three closest at most, in alphabetical
order. -/
def similarWords (word : String) (known : List String) : List String :=
  let close := (known.filter fun other => isSimilar other word).mergeSort (isCloser word)
  (close.take 3).mergeSort fun left right => decide (left ≤ right)

end MacroAssembler.Text
