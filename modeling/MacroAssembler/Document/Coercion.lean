/-
This module reads integers and names off document values. Any scalar is a name, and a list or an
object is none.
-/
import MacroAssembler.Failure
import MacroAssembler.Name

namespace MacroAssembler

namespace Value

def toInteger : Value → Checked Int
  | .truth value => .ok (if value then 1 else 0)
  | .integer value => .ok value
  | .real value =>
    match value.truncate? with
    | some number => .ok number
    | none => refuse (.notFinite (value ≠ .notANumber))
  | .text value =>
    match Text.readInteger? .decimal value with
    | some number => .ok number
    | none => refuse (.notAnInteger (String.ofList ((Text.quoted value).toList.take 200)))
  | other => refuse (.notANumber other.typeName)

def toName (value : Value) : Checked Name :=
  match Name.ofValue? value with
  | some name => .ok name
  | none => refuse (.notAName value.typeName)

end Value

end MacroAssembler
