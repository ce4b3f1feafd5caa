/-
This module holds the bitwise operations on integers of any size. An operation on a negative
integer is an operation on the natural number of its complement, with the result complemented where
needed.
-/

namespace MacroAssembler.Bits

def without (left right : Nat) : Nat := left ^^^ (left &&& right)

def conjunction : Int → Int → Int
  | .ofNat left, .ofNat right => .ofNat (left &&& right)
  | .ofNat left, .negSucc right => .ofNat (without left right)
  | .negSucc left, .ofNat right => .ofNat (without right left)
  | .negSucc left, .negSucc right => .negSucc (left ||| right)

def disjunction : Int → Int → Int
  | .ofNat left, .ofNat right => .ofNat (left ||| right)
  | .ofNat left, .negSucc right => .negSucc (without right left)
  | .negSucc left, .ofNat right => .negSucc (without left right)
  | .negSucc left, .negSucc right => .negSucc (left &&& right)

def difference : Int → Int → Int
  | .ofNat left, .ofNat right => .ofNat (left ^^^ right)
  | .ofNat left, .negSucc right => .negSucc (left ^^^ right)
  | .negSucc left, .ofNat right => .negSucc (left ^^^ right)
  | .negSucc left, .negSucc right => .ofNat (left ^^^ right)

def complement (value : Int) : Int := -1 - value

/-- The word of the given number of bits that agrees with an integer in all of them. -/
def word (bits : Nat) (value : Int) : Nat := (value % (Nat.pow 2 bits : Nat)).toNat

def field (position bits : Nat) (value : Nat) : Nat := value / Nat.pow 2 position % Nat.pow 2 bits

def fitsUnsigned (bits : Nat) (value : Int) : Bool :=
  decide (0 ≤ value) && decide (value < (Nat.pow 2 bits : Nat))

/-- Whether an integer is a signed number of one bit more than the given number. -/
def fitsSigned (bits : Nat) (value : Int) : Bool :=
  decide (-(Nat.pow 2 bits : Nat) ≤ value) && decide (value < (Nat.pow 2 bits : Nat))

end MacroAssembler.Bits
