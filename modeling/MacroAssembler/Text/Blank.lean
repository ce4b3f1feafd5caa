/-
This module says which characters are blank and takes blanks off the ends of a text. The blanks
are the white space of every script together with the four information separators.
-/
import MacroAssembler.Text.Ranges

namespace MacroAssembler.Text

def blankPoints : CodePointSet := [
  9, 5, 14, 5, 100, 1, 26, 1, 5599, 1, 2431, 11, 29, 2, 5, 1, 47, 1, 4000, 1]

def isBlank (c : Char) : Bool := blankPoints.holds c

def dropLastWhile {α : Type} (test : α → Bool) (items : List α) : List α :=
  (items.reverse.dropWhile test).reverse

def trimWhile {α : Type} (test : α → Bool) (items : List α) : List α :=
  dropLastWhile test (items.dropWhile test)

def stripRight (text : String) : String := String.ofList (dropLastWhile isBlank text.toList)

def strip (text : String) : String := String.ofList (trimWhile isBlank text.toList)

end MacroAssembler.Text
