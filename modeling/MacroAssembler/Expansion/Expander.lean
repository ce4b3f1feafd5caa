/-
This module expands the macro invocations of a unit.

The macros of a unit are collected first, so a macro may be invoked before its definition. Then
the constants are resolved in order, each against the ones before it. Then every statement is
expanded: an invocation becomes the expanded body of its macro, in a scope that binds the
parameters to the operands and gives every local label of the body a fresh name.

Invocations nest up to a limit. An invocation at the limit is reported, so expansion ends for
every unit; the number of further levels is what the recursion counts down.
-/
import MacroAssembler.Document.Coercion
import MacroAssembler.Expansion.Frame
import MacroAssembler.Expansion.Template
import MacroAssembler.Node.Property
import MacroAssembler.Notice

namespace MacroAssembler

structure Expander where
  table : SymbolTable
  /-- The macros of the units so far, in the order of their definition. -/
  macros : List (Name × Definition) := []
  /-- The constants of the units so far, in the order of their first declaration. -/
  constants : List (String × Node) := []
  /-- The number of invocations expanded so far. -/
  expansions : Nat := 0
  root : Scope Bound := {}
  /-- The scopes around the current statement. -/
  frame : Frame := []
  notices : List Notice := []

namespace Expander

abbrev Expand := Action Expander

/-- How deep invocations nest unless a limit is given. -/
def defaultLimit : Int := 100

/-! ### Steps -/

def note (notice : Notice) : Expand Unit :=
  modify fun state => { state with notices := state.notices ++ [notice] }

def onTable {α : Type} (change : SymbolTable → α × SymbolTable) : Expand α :=
  Action.ofFunction fun state =>
    let (result, table) := change state.table
    (.ok result, { state with table := table })

def inFrame {α : Type} (frame : Frame) (step : Expand α) : Expand α := do
  let outer := (← get).frame
  modify fun state => { state with frame := frame }
  let result ← step
  modify fun state => { state with frame := outer }
  return result

def bind (name : String) (bound : Bound) : Expand Unit :=
  modify fun state =>
    match state.frame with
    | [] =>
      { state with
        root := { state.root with bindings := Association.set state.root.bindings name bound } }
    | scope :: outer =>
      { state with
        frame := { scope with bindings := Association.set scope.bindings name bound } :: outer }

/-! ### Names -/

def findMacro? (state : Expander) (name : Name) : Option Definition :=
  (state.macros.find? fun entry => decide (entry.1.key = name.key)).map (·.2)

def binding? (state : Expander) (name : String) : Option Bound :=
  Frame.binding? (state.frame ++ [state.root]) name

/-- What a name means: its binding, the constant of that name, or the macro of that name. -/
def meaning? (state : Expander) (name : String) : Option Bound :=
  match state.binding? name with
  | some bound => some bound
  | none =>
    match Association.get? state.constants name with
    | some value => some (.operand value)
    | none => (state.findMacro? (.text name)).map fun definition => .closure definition []

/-- The macro that an invocation of a name means, with the scopes it is expanded in: the one that
the name is bound to, or the macro of that name. -/
def callee? (state : Expander) (name : String) : Option (Definition × Frame) :=
  match state.binding? name with
  | some (.closure definition frame) => some (definition, frame)
  | _ => (state.findMacro? (.text name)).map fun definition => (definition, [])

def renamed? (state : Expander) (name : Name) : Option LocalLabel :=
  Frame.label? (state.frame ++ [state.root]) name

/-! ### Label templates -/

def contribution? : Bound → Option Value
  | .operand (.var binding) => some (.text binding.name)
  | .operand (.register _ .general name) => some (.text name)
  | .operand (.label mark) => some (.text mark.name)
  | .operand (.labelReference _ mark _) => some (.text mark.name)
  | .operand (.localLabel mark) => some mark.name.toValue
  | .operand (.localReference _ mark) => some mark.name.toValue
  | .operand (.immediate _ value) => some (.text (Text.hexadecimal value))
  | .operand (.text _ value) => some (.text value)
  | _ => none

def pieceValue (state : Expander) (node : Node) : TemplatePiece → Checked Value
  | .literal content => .ok (.text content)
  | .parameter name =>
    match state.meaning? name with
    | none => do
      let shown ← node.construct
      report (.unboundVariable name) node.origin shown
    | some bound =>
      match contribution? bound with
      | some .null | none => do
        let shown ← node.construct
        report (.cannotInterpolate name) node.origin shown
      | some value => .ok value

def interpolate (state : Expander) (node : Node) (template : String) : Checked String := do
  let parts ← (Template.pieces template).mapM (state.pieceValue node)
  joinTexts "" parts

/-! ### Operands -/

def substituteVariable (binding : Variable) : Expand Node := do
  match (← get).meaning? binding.name with
  | none => return .var binding
  | some (.operand node) => return node
  | some (.closure definition _) =>
    let shown ← (Node.var binding).construct
    report (.macroAsValue definition.title) binding.origin shown

def substituteReference (origin : Origin) (mark : Label) (offset : Int) : Expand Node := do
  let node := Node.labelReference origin mark offset
  if SymbolTable.isTemplate mark.name then
    let name ← (← get).interpolate node mark.name
    onTable fun table => table.labelReference name origin offset
  else return node

def substituteLocal (origin : Origin) (mark : LocalLabel) : Expand Node := do
  return .localReference origin (((← get).renamed? mark.name).getD mark)

mutual

/-- Replace the bound variables and the renamed labels of an operand. -/
def substitute : Node → Expand Node
  | .var binding => substituteVariable binding
  | .localReference origin mark => substituteLocal origin mark
  | .labelReference origin mark offset => substituteReference origin mark offset
  | .definition origin name parameters body => do
    let shown ← (Node.definition origin name parameters body).construct
    report .strayMacro origin shown
  | .address origin base offset => do
    let base ← substitute base
    let offset ← substitute offset
    Node.makeAddress origin base offset
  | .indexed origin base index scale offset => do
    let base ← substitute base
    let index ← substitute index
    let scale ← substitute scale
    let offset ← substitute offset
    Node.makeIndexed origin base index scale offset
  | .absolute origin place => do
    let place ← substitute place
    return .absolute origin place
  | .binary origin operator left right => do
    let left ← substitute left
    let right ← substitute right
    return .binary origin operator left right
  | .unary origin operator child => do
    let child ← substitute child
    return .unary origin operator child
  | .instruction origin opcode operands comment => do
    let operands ← substituteAll operands
    return .instruction origin opcode operands comment
  | .call origin name operands comment writtenName => do
    let operands ← substituteAll operands
    Node.makeCall origin name operands comment writtenName
  | .sequence origin items => do
    let items ← substituteAll items
    return .sequence origin items
  | .conditional origin predicate thenCase elseCase => do
    let predicate ← substitute predicate
    let thenCase ← substitute thenCase
    let elseCase ← substitute elseCase
    return .conditional origin predicate thenCase elseCase
  | .constant origin binding value => do
    let declared ← substituteVariable binding
    let value ← substitute value
    Node.makeConstant origin declared value
  | .plain origin (.truth true) => return .plain origin (.truth true)
  | .plain _ value => refuse (.noProperty value.typeName "map_children")
  | leaf => return leaf

def substituteAll : List Node → Expand (List Node)
  | [] => return []
  | node :: rest => do
    let first ← substitute node
    let others ← substituteAll rest
    return first :: others

end

def evaluateOperand : Node → Expand Bound
  | .definition origin name parameters body => do
    return .closure ⟨origin, name, parameters, body⟩ (← get).frame
  | .var binding => do
    return ((← get).meaning? binding.name).getD (.operand (.var binding))
  | operand => do
    let node ← substitute operand
    return .operand node

/-! ### Invocations -/

/-- An invocation: the name that is invoked, the name that is shown for it, the operands, and the
statement. -/
structure Invocation where
  name : String
  shown : Value
  operands : List Node
  statement : Node

/-- The first of some names that is equal to the given one in lower case. -/
def similarName? (known : List String) (name : String) : Option String :=
  known.find? fun word => decide (Text.lowercase word = Text.lowercase name)

/-- The types of the first two neighbours that have no order, since only one of them is a text.
The type of the later one comes first. -/
def unorderedNeighbours? : List Name → Option (String × String)
  | earlier :: later :: rest =>
    let before := earlier.toValue.typeName
    let after := later.toValue.typeName
    if decide (before = "str") != decide (after = "str") then some (after, before)
    else unorderedNeighbours? (later :: rest)
  | _ => none

/-- The first known macro, in alphabetical order, whose name differs from the given one in case
only. -/
def similarMacro? (known : List Name) (shown : Value) : Checked (Option String) :=
  let words := known.filterMap fun name =>
    match name with
    | .text word => some word
    | _ => none
  match unorderedNeighbours? known, known.find? fun name => name.toValue.typeName ≠ "str" with
  | some (left, right), _ => refuse (.notOrdered left right)
  | none, some other => refuse (.noProperty other.toValue.typeName "lower")
  | none, none =>
    if words.isEmpty then .ok none
    else
      match shown with
      | .text name =>
        .ok (similarName? (words.mergeSort fun left right => decide (left ≤ right)) name)
      | other => refuse (.noProperty other.typeName "lower")

def refuseInvocation {α : Type} (state : Expander) (invocation : Invocation) : Checked α := do
  let origin := invocation.statement.origin
  let construct ← invocation.statement.construct
  if (state.binding? invocation.name).isSome then
    report (.notBoundToMacro invocation.shown.display) origin construct
  else
    let similar ← similarMacro? (state.macros.map (·.1)) invocation.shown
    report (.undefinedMacro invocation.shown.display similar) origin construct

/-- The macro of an invocation, which has to take as many operands as it is given. -/
def calleeOf (invocation : Invocation) : Expand (Definition × Frame) := do
  let state ← get
  match state.callee? invocation.name with
  | none => state.refuseInvocation invocation
  | some (definition, frame) =>
    if invocation.operands.length = definition.parameters.length then return (definition, frame)
    else
      let construct ← invocation.statement.construct
      report (.macroArity (definition.nameOr invocation.shown) definition.parameters.length
        invocation.operands.length) invocation.statement.origin construct

/-- The name that a parameter binds, none if it is a name that no text spells. -/
def parameterName (table : SymbolTable) (parameter : Node) : Checked (Option String) := do
  match ← parameter.property table .name with
  | .value value =>
    match ← value.toName with
    | .text name => return some name
    | _ => return none
  | .node _ => return none

/-- Bind parameters to arguments; of two parameters with one name the last one counts. -/
def bindParameters (table : SymbolTable) : List (Node × Bound) → Checked (List (String × Bound))
  | [] => .ok []
  | (parameter, argument) :: rest => do
    let name ← parameterName table parameter
    let others ← bindParameters table rest
    match name with
    | some name =>
      if Association.holds others name then return others else return (name, argument) :: others
    | none => return others

def renameLabels (name : String) :
    List (Name × LocalLabel) → List LocalLabel → Expand (List (Name × LocalLabel))
  | renamed, [] => return renamed
  | renamed, mark :: rest =>
    if (Frame.labelIn? renamed mark.name).isSome then renameLabels name renamed rest
    else do
      let clean ← mark.cleanName
      let fresh ← onTable fun table => table.freshLocalLabel (name ++ "_" ++ clean) mark.origin
      renameLabels name (renamed ++ [(mark.name, fresh)]) rest

def openScope (definition : Definition) (invocation : Invocation) : Expand (Scope Bound) := do
  let arguments ← invocation.operands.mapM evaluateOperand
  let bindings ← bindParameters (← get).table (definition.parameters.zip arguments)
  let labels ← renameLabels (definition.nameOr invocation.shown) [] definition.body.localLabels
  return ⟨bindings, labels⟩

def countExpansion (invocation : Invocation) : Expand Unit := do
  modify fun state => { state with expansions := state.expansions + 1 }
  note (.expanding invocation.statement.origin invocation.shown.display
    invocation.operands.length)

/-! ### Statements -/

def expandLabel (mark : Label) : Expand Node := do
  if SymbolTable.isTemplate mark.name then
    let name ← (← get).interpolate (.label mark) mark.name
    let defined ← onTable fun table => table.defineLabel name mark.origin
    return .label defined
  else return .label mark

mutual

def expandNode (invoke : Invocation → Expand (List Node)) : Node → Expand (List Node)
  | .sequence _ items => expandItems invoke items
  | .call origin name operands comment writtenName =>
    invoke ⟨name, writtenName.orElse (.text name), operands,
      .call origin name operands comment writtenName⟩
  | .instruction origin opcode operands comment => do
    if ((← get).callee? opcode).isSome then
      invoke ⟨opcode, .text opcode, operands, .instruction origin opcode operands comment⟩
    else
      let operands ← substituteAll operands
      return [.instruction origin opcode operands comment]
  | .label mark => do
    let defined ← expandLabel mark
    return [defined]
  | .localLabel mark => do
    return [.localLabel (((← get).renamed? mark.name).getD mark)]
  | .constant origin binding value => do
    let value ← substitute value
    bind binding.name (.operand value)
    return [.constant origin binding value]
  | .definition origin name parameters body => do
    if !name.isNull && (← get).frame.isEmpty then return []
    else
      let shown ← (Node.definition origin name parameters body).construct
      report .nestedMacro origin shown
  | .conditional origin predicate thenCase elseCase => do
    let thenItems ← expandNode invoke thenCase
    let elseItems ← expandNode invoke elseCase
    return [.conditional origin predicate (.sequence thenCase.origin thenItems)
      (.sequence elseCase.origin elseItems)]
  | .skip _ => return []
  | .trap origin => return [.trap origin]
  | other => do
    let node ← substitute other
    return [node]

def expandItems (invoke : Invocation → Expand (List Node)) : List Node → Expand (List Node)
  | [] => return []
  | item :: rest => do
    let first ← expandNode invoke item
    let others ← expandItems invoke rest
    return first ++ others

end

/-- Expand an invocation, inside which invocations may nest to the given further depth. -/
def invoke (limit : Int) : Nat → Invocation → Expand (List Node)
  | 0, invocation => do
    let _ ← calleeOf invocation
    let construct ← invocation.statement.construct
    report (.expansionTooDeep limit) invocation.statement.origin construct
  | depth + 1, invocation => do
    let (definition, captured) ← calleeOf invocation
    let scope ← openScope definition invocation
    countExpansion invocation
    inFrame (scope :: captured) (expandNode (invoke limit depth) definition.body)

/-! ### Units -/

def collectMacros : List Node → Expand Unit
  | [] => return ()
  | .definition _ .null _ _ :: rest => collectMacros rest
  | .definition origin name parameters body :: rest => do
    let key ← name.toName
    match (← get).findMacro? key with
    | some first => report (.macroRedefined name.display first.origin.text) origin
    | none =>
      modify fun state =>
        { state with macros := state.macros ++ [(key, ⟨origin, name, parameters, body⟩)] }
      collectMacros rest
  | _ :: rest => collectMacros rest

def noteConstant (origin : Origin) (name : String) (previous value : Node) : Expand Unit := do
  let before ← previous.spelling
  let after ← value.spelling
  if before.quoted = after.quoted then note (.constantRedeclared origin name)
  else note (.constantRebound origin name before.display after.display)

/-- Resolve the constants of a unit: their declarations get the values that they have where they
stand, and are told apart from the statements that are still to be expanded. -/
def resolveConstants : List Node → Expand (List (Node ⊕ Node))
  | [] => return []
  | .constant origin binding value :: rest => do
    let value ← substitute value
    if let some previous := Association.get? (← get).constants binding.name then
      noteConstant origin binding.name previous value
    modify fun state =>
      { state with constants := Association.set state.constants binding.name value }
    let others ← resolveConstants rest
    return .inl (.constant origin binding value) :: others
  | other :: rest => do
    let others ← resolveConstants rest
    return .inr other :: others

def expandUnit (invoke : Invocation → Expand (List Node)) :
    List (Node ⊕ Node) → Expand (List Node)
  | [] => return []
  | .inl resolved :: rest => do
    let others ← expandUnit invoke rest
    return resolved :: others
  | .inr item :: rest => do
    let first ← expandNode invoke item
    let others ← expandUnit invoke rest
    return first ++ others

def expand (limit : Int) (tree : Node) : Expand Node := do
  modify fun state => { state with frame := [] }
  collectMacros tree.statements
  let items ← resolveConstants tree.statements
  let result ← expandUnit (invoke limit limit.toNat) items
  let state ← get
  note (.expanded state.expansions state.macros.length state.constants.length)
  return .sequence tree.origin result

end Expander

end MacroAssembler
