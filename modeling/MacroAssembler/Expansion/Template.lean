/-
This module splits the template of a label name into its pieces. A parameter is a word between
two percent signs; everything else is literal.
-/
import MacroAssembler.Text.Word

namespace MacroAssembler

inductive TemplatePiece
  | literal (text : String)
  | parameter (name : String)
deriving DecidableEq, Repr

namespace Template

/-- Put literal characters, the last one first, in front of further pieces. -/
def withLiteral (reversed : List Char) (rest : List TemplatePiece) : List TemplatePiece :=
  if reversed.isEmpty then rest else .literal (String.ofList reversed.reverse) :: rest

/-- The pieces of the rest of a template. The first argument holds the literal characters since
the last parameter, the second one the word since a percent sign that may start a parameter; both
have their last character first. -/
def piecesFrom : List Char → Option (List Char) → List Char → List TemplatePiece
  | literal, none, [] => withLiteral literal []
  | literal, some word, [] => withLiteral (word ++ '%' :: literal) []
  | literal, none, c :: rest =>
    if c = '%' then piecesFrom literal (some []) rest else piecesFrom (c :: literal) none rest
  | literal, some word, c :: rest =>
    if c = '%' then
      if word.isEmpty then piecesFrom ('%' :: literal) (some []) rest
      else withLiteral literal
        (.parameter (String.ofList word.reverse) :: piecesFrom [] none rest)
    else if Text.isWord c then piecesFrom literal (some (c :: word)) rest
    else piecesFrom (c :: (word ++ '%' :: literal)) none rest

def pieces (template : String) : List TemplatePiece := piecesFrom [] none template.toList

end Template

end MacroAssembler
