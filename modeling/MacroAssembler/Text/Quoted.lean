/-
This module quotes a text the way the diagnostics show it: between single quotes, or between double
quotes when it holds a single quote and no double quote.
-/
import MacroAssembler.Text.CodePoint
import MacroAssembler.Text.Printable

namespace MacroAssembler.Text

def quotedChar (quote : Char) (c : Char) : List Char :=
  if c = quote ∨ c = '\\' then ['\\', c]
  else if c = '\n' then ['\\', 'n']
  else if c = '\r' then ['\\', 'r']
  else if c = '\t' then ['\\', 't']
  else if isPrintable c then [c]
  else if c.toNat < 0x100 then '\\' :: 'x' :: hexDigits 2 c.toNat
  else if c.toNat < 0x10000 then unitText c.toNat
  else '\\' :: 'U' :: hexDigits 8 c.toNat

def quotedPoint (quote : Char) : CodePoint → List Char
  | .char c => quotedChar quote c
  | .half unit => unitText unit

def quoteFor (characters : List Char) : Char :=
  if characters.contains '\'' && !characters.contains '"' then '"' else '\''

def quoted (text : String) : String :=
  let quote := quoteFor text.toList
  String.ofList (quote :: (points text).flatMap (quotedPoint quote) ++ [quote])

end MacroAssembler.Text
