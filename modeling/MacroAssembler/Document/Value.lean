/-
This module holds the values of an interchange document.

Diagnostics and generated code show a value by its written form. A text is shown as it is; inside
a list or an object a text is quoted, so that the parts can be told apart.
-/
import MacroAssembler.Association
import MacroAssembler.Number.Shortest
import MacroAssembler.Text.Quoted

namespace MacroAssembler

inductive Value
  | null
  | truth (value : Bool)
  | integer (value : Int)
  | real (value : Binary64)
  | text (value : String)
  | list (items : List Value)
  | object (fields : List (String × Value))
deriving Inhabited

namespace Value

def typeName : Value → String
  | .null => "NoneType"
  | .truth _ => "bool"
  | .integer _ => "int"
  | .real _ => "float"
  | .text _ => "str"
  | .list _ => "list"
  | .object _ => "dict"

def isNull : Value → Bool
  | .null => true
  | _ => false

def isPresent : Value → Bool
  | .null => false
  | .truth value => value
  | .integer value => value ≠ 0
  | .real value => !value.isZero
  | .text value => value ≠ ""
  | .list items => !items.isEmpty
  | .object fields => !fields.isEmpty

/-- The first value if it counts as present, the second otherwise. -/
def orElse (first second : Value) : Value := if first.isPresent then first else second

mutual

/-- The written form of a value inside another one, where texts are quoted. -/
def quoted : Value → String
  | .null => "None"
  | .truth true => "True"
  | .truth false => "False"
  | .integer value => Text.decimal value
  | .real value => value.text
  | .text value => Text.quoted value
  | .list items => "[" ++ ", ".intercalate (quotedItems items) ++ "]"
  | .object fields => "\x7b" ++ ", ".intercalate (quotedFields fields) ++ "\x7d"

def quotedItems : List Value → List String
  | [] => []
  | item :: rest => item.quoted :: quotedItems rest

def quotedFields : List (String × Value) → List String
  | [] => []
  | (key, value) :: rest => (Text.quoted key ++ ": " ++ value.quoted) :: quotedFields rest

end

/-- The written form of a value, where a text stands for itself. -/
def display : Value → String
  | .text value => value
  | other => other.quoted

/-- The value of a field of an object, if the value is an object that has the field. -/
def get? (value : Value) (key : String) : Option Value :=
  match value with
  | .object fields => Association.get? fields key
  | _ => none

end Value

end MacroAssembler
