/-
This module reads the text of an interchange document, which is JSON.

A fault is a reason together with the number of characters that remained where it was found, so its
place in the text is known without counting on the way. Every step of the nested reading spends one
unit of a budget that starts above the length of the text, and every step consumes a character, so
the budget never runs out before the text does.
-/
import MacroAssembler.Document.Value
import MacroAssembler.Text.Lines

namespace MacroAssembler

/-- Why a text is not a document, and how many characters remained at that point. -/
structure ReadFault where
  reason : String
  remaining : Nat
deriving DecidableEq, Repr

namespace Reader

def stop {α : Type} (reason : String) (rest : List Char) : Except ReadFault α :=
  .error ⟨reason, rest.length⟩

/-- Whether a character may stand between two parts of a document. -/
def isSpace (c : Char) : Bool := c = ' ' || c = '\t' || c = '\n' || c = '\r'

def skipSpace (rest : List Char) : List Char := rest.dropWhile isSpace

/-! ### Texts -/

def hexValue? (first second third fourth : Char) : Option Nat := do
  let a ← Text.digitIn? 16 first
  let b ← Text.digitIn? 16 second
  let c ← Text.digitIn? 16 third
  let d ← Text.digitIn? 16 fourth
  return ((a * 16 + b) * 16 + c) * 16 + d

def escaped? : Char → Option Char
  | '"' => some '"'
  | '\\' => some '\\'
  | '/' => some '/'
  | 'b' => some (Char.ofNat 8)
  | 'f' => some (Char.ofNat 12)
  | 'n' => some '\n'
  | 'r' => some '\r'
  | 't' => some '\t'
  | _ => none

def pairChar (high low : Nat) : Char :=
  Char.ofNat (0x10000 + (high - 0xd800) * 0x400 + (low - 0xdc00))

def isPair (high low : Nat) : Bool :=
  decide (0xd800 ≤ high) && decide (high < 0xdc00) && decide (0xdc00 ≤ low) &&
    decide (low < 0xe000)

def pair? : List Char → Option (Nat × Nat × List Char)
  | a :: b :: c :: d :: '\\' :: 'u' :: e :: f :: g :: h :: rest => do
    let high ← hexValue? a b c d
    let low ← hexValue? e f g h
    if isPair high low && !rest.isEmpty then some (high, low, rest) else none
  | _ => none

/-- The characters that were read, the last one first, with those that hold a code point. -/
def hold (point : Text.CodePoint) (read : List Char) : List Char :=
  point.characters.reverse ++ read

/-- Read the characters of a text after its opening quote. The budget bounds the number of steps,
and a text without a closing quote is reported at its opening quote. -/
def textBody (opening : Nat) :
    Nat → List Char → List Char → Except ReadFault (String × List Char)
  | 0, _, _ => .error ⟨"Unterminated string starting at", opening⟩
  | _, [], _ => .error ⟨"Unterminated string starting at", opening⟩
  | _ + 1, '"' :: rest, read => .ok (String.ofList read.reverse, rest)
  | _ + 1, ['\\'], _ => .error ⟨"Unterminated string starting at", opening⟩
  | budget + 1, '\\' :: 'u' :: rest, read =>
    match pair? rest with
    | some (high, low, after) =>
      textBody opening budget after (hold (.char (pairChar high low)) read)
    | none =>
      match rest with
      | a :: b :: c :: d :: next :: after =>
        match hexValue? a b c d with
        | some unit => textBody opening budget (next :: after) (hold (Text.ofUnit unit) read)
        | none => stop "Invalid \\uXXXX escape" ('u' :: rest)
      | _ => stop "Invalid \\uXXXX escape" ('u' :: rest)
  | budget + 1, '\\' :: c :: rest, read =>
    match escaped? c with
    | some meant => textBody opening budget rest (meant :: read)
    | none => stop "Invalid \\escape" ('\\' :: c :: rest)
  | budget + 1, c :: rest, read =>
    if c.toNat < 0x20 then stop "Invalid control character at" (c :: rest)
    else textBody opening budget rest (c :: read)

def text (rest : List Char) : Except ReadFault (String × List Char) :=
  textBody (rest.length + 1) (rest.length + 1) rest []

/-! ### Numbers -/

def spanDigits (rest : List Char) : List Char × List Char :=
  (rest.takeWhile Char.isDigit, rest.dropWhile Char.isDigit)

/-- The whole part of a number: a zero, or digits that do not start with one. -/
def wholePart : List Char → Option (List Char × List Char)
  | '0' :: rest => some (['0'], rest)
  | rest =>
    let (digits, after) := spanDigits rest
    if digits.isEmpty then none else some (digits, after)

def fractionPart (rest : List Char) : Option (List Char × List Char) :=
  match rest with
  | '.' :: after =>
    let (digits, afterDigits) := spanDigits after
    if digits.isEmpty then none else some (digits, afterDigits)
  | _ => none

def exponentDigits (negative : Bool) (rest : List Char) : Option (Int × List Char) :=
  let (digits, after) := spanDigits rest
  if digits.isEmpty then none
  else
    let magnitude : Int := ((Text.readNatural 10 digits).getD 0 : Nat)
    some (if negative then -magnitude else magnitude, after)

def exponentPart : List Char → Option (Int × List Char)
  | 'e' :: '-' :: rest => exponentDigits true rest
  | 'e' :: '+' :: rest => exponentDigits false rest
  | 'e' :: rest => exponentDigits false rest
  | 'E' :: '-' :: rest => exponentDigits true rest
  | 'E' :: '+' :: rest => exponentDigits false rest
  | 'E' :: rest => exponentDigits false rest
  | _ => none

/-- Read a number without its sign: an integer unless it has a fraction or an exponent. -/
def magnitude (negative : Bool) (rest : List Char) : Option (Value × List Char) := do
  let (whole, afterWhole) ← wholePart rest
  let (fraction, afterFraction) := (fractionPart afterWhole).getD ([], afterWhole)
  let (power, afterPower) := (exponentPart afterFraction).getD (0, afterFraction)
  let digits := (Text.readNatural 10 (whole ++ fraction)).getD 0
  if afterPower.length = afterWhole.length then
    return (.integer (if negative then -(digits : Int) else digits), afterWhole)
  else
    return (.real (.ofDecimal negative digits (power - fraction.length)), afterPower)

def number : List Char → Option (Value × List Char)
  | '-' :: rest => magnitude true rest
  | rest => magnitude false rest

def words : List (String × Value) := [
  ("null", .null), ("true", .truth true), ("false", .truth false), ("NaN", .real .notANumber),
  ("Infinity", .real (.infinite false)), ("-Infinity", .real (.infinite true))]

def word? (rest : List Char) : Option (Value × List Char) :=
  words.findSome? fun entry =>
    if entry.1.toList.isPrefixOf rest then some (entry.2, rest.drop entry.1.length) else none

/-! ### Nested values -/

mutual

def value : Nat → List Char → Except ReadFault (Value × List Char)
  | 0, rest => stop "Expecting value" rest
  | _ + 1, '"' :: rest => do
    let (content, after) ← text rest
    return (.text content, after)
  | budget + 1, '[' :: rest =>
    match skipSpace rest with
    | ']' :: after => .ok (.list [], after)
    | first => items budget first []
  | budget + 1, '\x7b' :: rest =>
    match skipSpace rest with
    | '\x7d' :: after => .ok (.object [], after)
    | first => fields budget first []
  | _ + 1, rest =>
    match word? rest with
    | some result => .ok result
    | none =>
      match number rest with
      | some result => .ok result
      | none => stop "Expecting value" rest

def items : Nat → List Char → List Value → Except ReadFault (Value × List Char)
  | 0, rest, _ => stop "Expecting value" rest
  | budget + 1, rest, read => do
    let (item, after) ← value budget rest
    match skipSpace after with
    | ']' :: following => .ok (.list (item :: read).reverse, following)
    | ',' :: following => items budget (skipSpace following) (item :: read)
    | other => stop "Expecting ',' delimiter" other

def fields :
    Nat → List Char → List (String × Value) → Except ReadFault (Value × List Char)
  | 0, rest, _ => stop "Expecting value" rest
  | budget + 1, '"' :: rest, read => do
    let (key, afterKey) ← text rest
    match skipSpace afterKey with
    | ':' :: afterColon => do
      let (content, after) ← value budget (skipSpace afterColon)
      let read := Association.set read key content
      match skipSpace after with
      | '\x7d' :: following => .ok (.object read, following)
      | ',' :: following => fields budget (skipSpace following) read
      | other => stop "Expecting ',' delimiter" other
    | other => stop "Expecting ':' delimiter" other
  | _ + 1, rest, _ => stop "Expecting property name enclosed in double quotes" rest

end

def document (characters : List Char) : Except ReadFault Value :=
  match characters with
  | [] => stop "Expecting value" []
  | c :: rest =>
    if c.toNat = 0xfeff then stop "Unexpected UTF-8 BOM (decode using utf-8-sig)" (c :: rest)
    else do
      let (content, after) ← value (characters.length + 1) (skipSpace characters)
      match skipSpace after with
      | [] => return content
      | other => stop "Extra data" other

end Reader

namespace ReadFault

def before (fault : ReadFault) (characters : List Char) : List Char :=
  characters.take (characters.length - fault.remaining)

def message (fault : ReadFault) (characters : List Char) : String :=
  let before := Text.pointsOf (fault.before characters)
  let line := before.count (.char '\n') + 1
  let column := (before.reverse.takeWhile (· ≠ .char '\n')).length + 1
  fault.reason ++ ": line " ++ Text.decimal line ++ " column " ++ Text.decimal column ++
    " (char " ++ Text.decimal before.length ++ ")"

end ReadFault

def Value.read (content : String) : Except String Value :=
  let characters := Text.unifyLineEnds content.toList
  match Reader.document characters with
  | .ok value => .ok value
  | .error fault => .error (fault.message characters)

end MacroAssembler
