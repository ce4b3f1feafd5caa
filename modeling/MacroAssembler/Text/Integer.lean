/-
This module reads and writes integers.

A reader accepts more than a writer produces: blanks around the number, a plus sign, single
underscores between digits, and decimal digits of every script. In decimal and in hexadecimal the
base is fixed; a marked number says its own base by `0x`, `0o` or `0b`, and without a mark it is
decimal and starts with a zero only if it is zero.
-/
import MacroAssembler.Text.Blank
import MacroAssembler.Text.Digit

namespace MacroAssembler.Text

/-! ### Writing -/

def naturalDigits (base : Nat) (n : Nat) : List Char := Nat.toDigits base n

def decimal (n : Int) : String :=
  if n < 0 then String.ofList ('-' :: naturalDigits 10 n.natAbs)
  else String.ofList (naturalDigits 10 n.natAbs)

def hexadecimal (n : Int) : String :=
  if n < 0 then String.ofList ('-' :: '0' :: 'x' :: naturalDigits 16 n.natAbs)
  else String.ofList ('0' :: 'x' :: naturalDigits 16 n.natAbs)

/-! ### Reading -/

/-- How the reader finds the base of a number. -/
inductive IntegerStyle
  | decimal
  | hexadecimal
  /-- The base that the number's mark says, ten without a mark. -/
  | marked
deriving DecidableEq, Repr

/-- A character as a reader of numbers takes it: characters outside ASCII count as a space when
they are blank, as their value when they are digits, and as no part of a number otherwise. -/
def numeralOf (c : Char) : Char :=
  if c.toNat < 127 then c
  else if isBlank c then ' '
  else
    match digitValue? c with
    | some value => Nat.digitChar value
    | none => '?'

def isNumberBlank (c : Char) : Bool :=
  c = ' ' || decide (9 ≤ c.toNat) && decide (c.toNat ≤ 13)

def digitIn? (base : Nat) (c : Char) : Option Nat :=
  let value? :=
    if '0' ≤ c ∧ c ≤ '9' then some (c.toNat - '0'.toNat)
    else if 'a' ≤ c ∧ c ≤ 'z' then some (c.toNat - 'a'.toNat + 10)
    else if 'A' ≤ c ∧ c ≤ 'Z' then some (c.toNat - 'A'.toNat + 10)
    else none
  value?.filter fun value => decide (value < base)

def readDigits (base : Nat) (value : Nat) : List Char → Option Nat
  | [] => some value
  | '_' :: c :: rest => do
    let digit ← digitIn? base c
    readDigits base (value * base + digit) rest
  | c :: rest => do
    let digit ← digitIn? base c
    readDigits base (value * base + digit) rest

def readNatural (base : Nat) : List Char → Option Nat
  | [] => none
  | c :: rest => do
    let digit ← digitIn? base c
    readDigits base digit rest

/-- Read a natural number after its mark, which one underscore may follow. -/
def readAfterMark (base : Nat) : List Char → Option Nat
  | '_' :: rest => readNatural base rest
  | digits => readNatural base digits

def readMagnitude (style : IntegerStyle) (digits : List Char) : Option Nat :=
  match style, digits with
  | .decimal, _ => readNatural 10 digits
  | .hexadecimal, '0' :: 'x' :: rest => readAfterMark 16 rest
  | .hexadecimal, '0' :: 'X' :: rest => readAfterMark 16 rest
  | .hexadecimal, _ => readNatural 16 digits
  | .marked, '0' :: 'x' :: rest => readAfterMark 16 rest
  | .marked, '0' :: 'X' :: rest => readAfterMark 16 rest
  | .marked, '0' :: 'o' :: rest => readAfterMark 8 rest
  | .marked, '0' :: 'O' :: rest => readAfterMark 8 rest
  | .marked, '0' :: 'b' :: rest => readAfterMark 2 rest
  | .marked, '0' :: 'B' :: rest => readAfterMark 2 rest
  | .marked, '0' :: _ => (readNatural 10 digits).filter (· = 0)
  | .marked, _ => readNatural 10 digits

def readSigned (style : IntegerStyle) : List Char → Option Int
  | '-' :: digits => (readMagnitude style digits).map fun magnitude => -(magnitude : Int)
  | '+' :: digits => (readMagnitude style digits).map fun magnitude => (magnitude : Int)
  | digits => (readMagnitude style digits).map fun magnitude => (magnitude : Int)

def readInteger? (style : IntegerStyle) (text : String) : Option Int :=
  readSigned style (trimWhile isNumberBlank (text.toList.map numeralOf))

end MacroAssembler.Text
