/-
This module writes a name of capitalised words in lower case with underscores between the words. A
run of capitals stays one word, and its last letter belongs to the word after it.
-/
import MacroAssembler.Text.Lowercase

namespace MacroAssembler.Text

def isCapital (c : Char) : Bool := decide ('A' ≤ c) && decide (c ≤ 'Z')

def isSmall (c : Char) : Bool := decide ('a' ≤ c) && decide (c ≤ 'z')

def isAsciiDigit (c : Char) : Bool := decide ('0' ≤ c) && decide (c ≤ '9')

/-- Put an underscore in front of every capital that a small letter follows, except at the start
of the name. -/
def divideBeforeWords (atStart : Bool) : List Char → List Char
  | [] => []
  | [c] => [c]
  | c :: next :: rest =>
    let others := divideBeforeWords false (next :: rest)
    if !atStart && isCapital c && isSmall next then '_' :: c :: others else c :: others

/-- Put an underscore between a small letter or a digit and a capital. -/
def divideAfterWords : List Char → List Char
  | [] => []
  | [c] => [c]
  | c :: next :: rest =>
    let others := divideAfterWords (next :: rest)
    if (isSmall c || isAsciiDigit c) && isCapital next then c :: '_' :: others else c :: others

/-- A name in lower case with underscores between its words. -/
def snakeCase (name : String) : String :=
  lowercase (String.ofList (divideAfterWords (divideBeforeWords true name.toList)))

end MacroAssembler.Text
