/-
This module holds the names that symbols go by. A name is nearly always a text. A document may
put another scalar in its place, and such a name is kept as it was written. Numbers are compared by
value, so `1`, `1.0` and `true` name one thing.
-/
import MacroAssembler.Document.Value

namespace MacroAssembler

inductive Name
  | null
  | truth (value : Bool)
  | integer (value : Int)
  | real (value : Binary64)
  | text (value : String)
deriving DecidableEq, Repr, Inhabited

namespace Name

def ofValue? : Value → Option Name
  | .null => some .null
  | .truth value => some (.truth value)
  | .integer value => some (.integer value)
  | .real value => some (.real value)
  | .text value => some (.text value)
  | .list _ => none
  | .object _ => none

def toValue : Name → Value
  | .null => .null
  | .truth value => .truth value
  | .integer value => .integer value
  | .real value => .real value
  | .text value => .text value

theorem ofValue?_toValue (name : Name) : ofValue? name.toValue = some name := by
  cases name <;> rfl

def display (name : Name) : String := name.toValue.display

/-- What two spellings of one name have in common. -/
def key : Name → Name
  | .truth value => .integer (if value then 1 else 0)
  | .real value =>
    match value.toInt? with
    | some n => .integer n
    | none => .real value
  | other => other

theorem key_text (value : String) : key (.text value) = .text value := rfl

theorem eq_text_of_key {name : Name} {text : String} (same : name.key = .text text) :
    name = .text text := by
  cases name with
  | real value =>
    simp only [key] at same
    split at same <;> simp at same
  | text => exact same
  | _ => cases same

end Name

end MacroAssembler
