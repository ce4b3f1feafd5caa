/-
This module counts the lines of a text and brings its line ends to one form. A carriage return and
the line feed after it end one line together.
-/

namespace MacroAssembler.Text

def endsLine (c : Char) : Bool :=
  decide (0xa ≤ c.toNat) && decide (c.toNat ≤ 0xd) ||
    decide (0x1c ≤ c.toNat) && decide (c.toNat ≤ 0x1e) ||
    c.toNat = 0x85 || c.toNat = 0x2028 || c.toNat = 0x2029

def countLinesFrom (started : Bool) : List Char → Nat
  | [] => if started then 1 else 0
  | '\r' :: '\n' :: rest => countLinesFrom false rest + 1
  | c :: rest => if endsLine c then countLinesFrom false rest + 1 else countLinesFrom true rest

def lineCount (text : String) : Nat := countLinesFrom false text.toList

def unifyLineEnds : List Char → List Char
  | [] => []
  | '\r' :: '\n' :: rest => '\n' :: unifyLineEnds rest
  | '\r' :: rest => '\n' :: unifyLineEnds rest
  | c :: rest => c :: unifyLineEnds rest

end MacroAssembler.Text
