/-
This module takes the control sequences of a terminal out of a text. What only begins like one
stays in the text.
-/

namespace MacroAssembler.Text

def escapeChar : Char := Char.ofNat 0x1b

/-- Whether a character may stand between the bracket of a control sequence and its letter. -/
def isSequenceParameter (c : Char) : Bool := c.isDigit || c = ';' || c = '?'

/-- How far a control sequence is read. -/
inductive SequenceState
  /-- No control sequence has begun. -/
  | outside
  | escaped
  /-- The bracket was read, and after it these parameters, the last one first. -/
  | parameters (reversed : List Char)
deriving DecidableEq, Repr

def SequenceState.held : SequenceState → List Char
  | .outside => []
  | .escaped => [escapeChar]
  | .parameters reversed => escapeChar :: '[' :: reversed.reverse

/-- The rest of a text without its control sequences. The characters of a sequence are held back
until its letter shows that it is one. -/
def plainFrom : SequenceState → List Char → List Char
  | state, [] => state.held
  | state, c :: rest =>
    if c = escapeChar then state.held ++ plainFrom .escaped rest
    else
      match state with
      | .outside => c :: plainFrom .outside rest
      | .escaped =>
        if c = '[' then plainFrom (.parameters []) rest
        else escapeChar :: c :: plainFrom .outside rest
      | .parameters reversed =>
        if isSequenceParameter c then plainFrom (.parameters (c :: reversed)) rest
        else if c.isAlpha then plainFrom .outside rest
        else (SequenceState.parameters reversed).held ++ c :: plainFrom .outside rest

def plain (text : String) : String := String.ofList (plainFrom .outside text.toList)

end MacroAssembler.Text
