/-
This module writes a document value as JSON text.
-/
import MacroAssembler.Document.Value

namespace MacroAssembler

namespace Writer

def charText (c : Char) : List Char :=
  if c = '"' ∨ c = '\\' then ['\\', c]
  else if c = '\n' then ['\\', 'n']
  else if c = '\r' then ['\\', 'r']
  else if c = '\t' then ['\\', 't']
  else if c.toNat = 8 then ['\\', 'b']
  else if c.toNat = 12 then ['\\', 'f']
  else if 0x20 ≤ c.toNat ∧ c.toNat < 0x7f then [c]
  else if c.toNat < 0x10000 then Text.unitText c.toNat
  else
    let offset := c.toNat - 0x10000
    Text.unitText (0xd800 + offset / 0x400) ++ Text.unitText (0xdc00 + offset % 0x400)

def pointText : Text.CodePoint → List Char
  | .char c => charText c
  | .half unit => Text.unitText unit

def text (content : String) : String :=
  String.ofList ('"' :: (Text.points content).flatMap pointText ++ ['"'])

def real : Binary64 → String
  | .infinite false => "Infinity"
  | .infinite true => "-Infinity"
  | .notANumber => "NaN"
  | finite => finite.text

end Writer

namespace Value

mutual

def write : Value → String
  | .null => "null"
  | .truth true => "true"
  | .truth false => "false"
  | .integer value => Text.decimal value
  | .real value => Writer.real value
  | .text value => Writer.text value
  | .list items => "[" ++ ", ".intercalate (writeItems items) ++ "]"
  | .object fields => "\x7b" ++ ", ".intercalate (writeFields fields) ++ "\x7d"

def writeItems : List Value → List String
  | [] => []
  | item :: rest => item.write :: writeItems rest

def writeFields : List (String × Value) → List String
  | [] => []
  | (key, value) :: rest => (Writer.text key ++ ": " ++ value.write) :: writeFields rest

end

end Value

end MacroAssembler
