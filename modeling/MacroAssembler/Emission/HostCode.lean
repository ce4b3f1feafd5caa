/-
This module lowers a tree to code of the host language that builds the same program when the host
starts. It is how the generic interpreter loop is emitted.

Conditionals that were not folded are left to the host's preprocessor, and macros become functions.
A node becomes a text, or a list of statements: a sequence and an instruction are lists, all other
nodes are texts. Statements are ended by semicolons when they are put together.
-/
import MacroAssembler.Emission.Assembly

namespace MacroAssembler.HostCode

/-! ### Names -/

def isIdentifierCharacter (c : Char) : Bool := c.isAlphanum || c = '_'

/-- The character of an identifier for a code point: an underscore if it cannot stand in one. -/
def identifierCharacter : Text.CodePoint → Char
  | .char c => if isIdentifierCharacter c then c else '_'
  | .half _ => '_'

def identifier (name : String) : String :=
  String.ofList ((Text.points name).map identifierCharacter)

/-- The function of an opcode. One opcode is a keyword of the host language. -/
def functionName (opcode : String) : String := if opcode = "break" then "_break" else opcode

/-! ### Texts and statements -/

abbrev Code := Lowered String

namespace Code

def toValue : Code → Value
  | .operand text => .text text
  | .statements lines => .list (lines.map Value.text)

def display (code : Code) : String := code.toValue.display

end Code

/-- Statements put together, empty ones left out. -/
def joinStatements (statements : List String) : String :=
  let present := statements.filter fun statement => decide (statement ≠ "")
  if present.isEmpty then "" else ";\n".intercalate present ++ ";"

def render : Code → String
  | .operand text => text
  | .statements lines => joinStatements lines

def statementsOf : Code → List String
  | .operand text => if text = "" then [] else [text]
  | .statements lines => lines

def commaSeparated (operands : List Code) : Checked String :=
  joinTexts ", " (operands.map Code.toValue)

def framed (statements : List String) : List String :=
  let text := joinStatements statements
  if text = "" then [] else text.splitOn "\n"

/-! ### Leaves -/

def binaryOperator : BinaryOperator → String
  | .both => "&&"
  | .either => "||"
  | other => other.spelling

def unaryOperator : UnaryOperator → String
  | .not => "!"
  | other => other.spelling

def layoutText : LayoutConstant → String
  | .expression source => source
  | .offset struct field => "StructOffset(" ++ struct ++ ", " ++ field ++ ")"
  | .size struct => "sizeof(" ++ struct.display ++ ")"

def registerText (config : Configuration) (kind : RegisterClass) (name : String) :
    String :=
  if kind = .special then name
  else
    match config.registerName? name with
    | some spelled => if spelled = "" then name else spelled
    | none => name

def labelText (name : String) (flags : LabelFlags) : String :=
  "auto " ++ identifier name ++ " = label(\"" ++ name ++ "\")" ++
    (if flags.isDefined then "->inFile()" else "") ++
    (if flags.isGlobal then "->global()" else "") ++
    (match flags.alignTo with
      | some alignment => "->aligned(" ++ Text.decimal alignment ++ ")"
      | none => "") ++
    (if flags.isExternal then "->extern_()" else "")

def functionText (name : Value) (parameters body : String) : String :=
  let binder := if name.isPresent then "auto " ++ name.display ++ " = " else ""
  binder ++ "[&](" ++ parameters ++ ") -> Code \x7b\nCodeCollectionScope __;\n\x7b\n" ++ body ++
    "\n\x7d\nreturn __.code();\n\x7d"

def instructionText (opcode : String) (arguments : List Code) (comment : Value) :
    Checked String := do
  let shown := if comment.isPresent then [.operand ("\"" ++ comment.display ++ "\"")] else []
  let joined ← commaSeparated (arguments ++ shown)
  return functionName opcode ++ "(" ++ joined ++ ")"

/-! ### Nodes -/

/-- Where a node stands: by itself, or as the alternative of a condition. -/
inductive Place
  | plain
  | alternative (condition : String)

def conditionalEnd (condition : String) : String := "#endif // " ++ condition ++ "\n"

def conditionalStart (directive condition body : String) : String :=
  directive ++ " (" ++ condition ++ ")\n" ++ body ++ "\n"

/-- What the code of a node becomes in its place. A conditional continues the one it is an
alternative of, and an alternative without effect is left out. -/
def Place.finish (place : Place) (node : Node) (code : Code) : Code :=
  match place, node with
  | .plain, _ => code
  | .alternative _, .conditional .. => code
  | .alternative condition, .skip _ => .operand (conditionalEnd condition)
  | .alternative condition, _ =>
    .operand ("#else // " ++ condition ++ "\n" ++ render code ++ "\n" ++
      conditionalEnd condition)

def Place.conditional (place : Place) (condition body rest : String) : String :=
  match place with
  | .plain => "\n" ++ conditionalStart "#if" condition body ++ rest
  | .alternative _ => conditionalStart "#elif" condition body ++ rest

mutual

def lowerAt (config : Configuration) (place : Place) (node : Node) : Emit Code := do
  let code ← (match node with
    | .immediate _ value => return .operand (Text.decimal value)
    | .text _ value => return .operand ("\"" ++ value ++ "\"")
    | .register _ kind name => return .operand (registerText config kind name)
    | .var binding => return .operand binding.name
    | .layout _ which => return .operand (layoutText which)
    | .setting _ name => return .operand name
    | .truth value => return .operand (if value then "true" else "false")
    | .binary _ operator left right => do
      let leftCode ← lowerAt config .plain left
      let rightCode ← lowerAt config .plain right
      return .operand (leftCode.display ++ " " ++ binaryOperator operator ++ " " ++
        rightCode.display)
    | .unary _ operator child => do
      let childCode ← lowerAt config .plain child
      return .operand (unaryOperator operator ++ childCode.display)
    | .address _ base offset => do
      let baseCode ← lowerAt config .plain base
      let offsetCode ← lowerAt config .plain offset
      return .operand ("address(" ++ baseCode.display ++ ", " ++ offsetCode.display ++ ")")
    | .indexed _ base index scale offset => do
      let baseCode ← lowerAt config .plain base
      let indexCode ← lowerAt config .plain index
      let scaleCode ← lowerAt config .plain scale
      let offsetCode ← lowerAt config .plain offset
      let joined ← commaSeparated [baseCode, indexCode, scaleCode, offsetCode]
      return .operand ("BaseIndex(" ++ joined ++ ")")
    | .absolute _ place => do
      let placeCode ← lowerAt config .plain place
      return .operand ("AbsoluteAddress(" ++ placeCode.display ++ ")")
    | .label mark => do
      return .operand (labelText mark.name ((← get).flagsOf mark.name))
    | .localLabel mark => return .operand ("label(\"" ++ mark.name.display ++ "\")")
    | .labelReference _ mark _ => do
      noteLabelUse mark
      return .operand ("\"" ++ mark.name ++ "\"")
    | .localReference _ mark => return .operand ("\"" ++ mark.name.display ++ "\"")
    | .instruction _ opcode operands comment => do
      if Assembly.silentOpcodes.contains opcode then return .statements []
      else if opcode = "emit" then
        let text ← Assembly.verbatimText operands
        return .statements ["emit(\"" ++ text ++ "\")"]
      else
        let arguments ← lowerAll config operands
        let text ← instructionText opcode arguments comment
        return .statements [text]
    | .call _ name operands comment _ => do
      let arguments ← lowerAll config operands
      let joined ← commaSeparated arguments
      let text := name ++ "(" ++ joined ++ ")"
      if comment.isPresent then return .operand ("/* " ++ comment.display ++ " */ " ++ text)
      else return .operand text
    | .sequence _ items => do
      let codes ← lowerAll config items
      return .statements (codes.flatMap statementsOf)
    | .conditional _ predicate thenCase elseCase => do
      let condition ← lowerAt config .plain predicate
      let thenCode ← lowerAt config .plain thenCase
      let rest ← lowerAt config (.alternative condition.display) elseCase
      return .operand (place.conditional condition.display (render thenCode) (render rest))
    | .skip _ => return .statements []
    | .trap origin =>
      return .operand
        ("\x7b puts(\"error at " ++ origin.text ++ "\"); std::exit(1); \x7d")
    | .constant _ binding value => do
      let valueCode ← lowerAt config .plain value
      return .operand ("const auto " ++ binding.name ++ " = " ++ valueCode.display)
    | .definition _ name parameters body => do
      let parameterCodes ← lowerAll config parameters
      let bodyCode ← lowerAt config .plain body
      let shown := parameterCodes.map fun code => "auto " ++ code.display
      return .operand (functionText name (", ".intercalate shown) (render bodyCode))
    | .plain _ (.truth true) => return .operand "True"
    | .plain _ value => refuse (.noProperty value.typeName "origin") : Emit Code)
  return place.finish node code

def lowerAll (config : Configuration) : List Node → Emit (List Code)
  | [] => return []
  | node :: rest => do
    let first ← lowerAt config .plain node
    let others ← lowerAll config rest
    return first :: others

end

def lower (config : Configuration) (node : Node) : Emit Code :=
  lowerAt config .plain node

end MacroAssembler.HostCode
