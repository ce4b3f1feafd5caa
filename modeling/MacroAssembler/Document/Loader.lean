/-
This module builds the tree of a document, interning every named node in a symbol table.

Fields are read in a fixed order, so of several problems the first in that order is reported. What
was interned before a problem stays in the table.

Loading follows the structure of the document. A first pass pairs every value with the action
that would load it as a node; the action of an object then chooses among the actions of its
fields. No action runs before it is chosen.
-/
import MacroAssembler.Document.Coercion
import MacroAssembler.Document.Kind
import MacroAssembler.SymbolTable

namespace MacroAssembler

/-- What loading changes: the symbol table, and the number of nodes built so far. -/
structure LoadState where
  table : SymbolTable
  loaded : Nat := 0

namespace Loader

abbrev Load := Action LoadState

def onTable {α : Type} (change : SymbolTable → α × SymbolTable) : Load α :=
  Action.ofFunction fun state =>
    let (result, table) := change state.table
    (.ok result, { state with table := table })

def onTableChecked {α : Type} (change : SymbolTable → Checked α × SymbolTable) : Load α :=
  Action.ofFunction fun state =>
    let (result, table) := change state.table
    (result, { state with table := table })

def countNode : Load Unit :=
  modify fun state => { state with loaded := state.loaded + 1 }

/-- A value of a document, the action that loads it as a node in the place of a given origin,
and its items if it is a list. -/
inductive Part
  | mk (value : Value) (load : Option Origin → Load Node) (items : List Part)

namespace Part

def value : Part → Value
  | mk value _ _ => value

def load : Part → Option Origin → Load Node
  | mk _ load _ => load

def items : Part → List Part
  | mk _ _ items => items

end Part

abbrev Fields := List (String × Part)

def field? (fields : Fields) (key : String) : Option Part := Association.get? fields key

def optional (fields : Fields) (key : String) : Value :=
  match field? fields key with
  | some part => part.value
  | none => .null

/-! ### Origins -/

/-- An origin from the items of a list, of which the later ones may be missing. -/
def originOfItems (file line column : Value) : Checked Origin := do
  let lineNumber ← line.toInteger
  let columnNumber ← column.toInteger
  return ⟨file.display, lineNumber, columnNumber⟩

def originOf (filename : String) (written : Value) (parent : Option Origin) : Checked Origin :=
  match written with
  | .null => .ok (parent.getD ⟨filename, 0, 0⟩)
  | .object fields =>
    originOfItems ((Association.get? fields "file").getD (.text filename))
      ((Association.get? fields "line").getD (.integer 0))
      ((Association.get? fields "column").getD (.integer 0))
  | .list [file] => originOfItems file (.integer 0) (.integer 0)
  | .list [file, line] => originOfItems file line (.integer 0)
  | .list [file, line, column] => originOfItems file line column
  | other => report (.badOrigin other.quoted) parent

/-! ### Fields -/

def required (kind : Kind) (fields : Fields) (key : String) (origin : Origin) : Checked Part :=
  match field? fields key with
  | some part => .ok part
  | none => report (.missingField kind.name key) origin

/-- A field that holds a text, or anything else by its written form. -/
def textField (kind : Kind) (fields : Fields) (key : String) (origin : Origin) :
    Checked String := do
  let part ← required kind fields key origin
  return part.value.display

def child (kind : Kind) (fields : Fields) (key : String) (origin : Origin) : Load Node := do
  let part ← required kind fields key origin
  part.load origin

def childList (kind : Kind) (fields : Fields) (key : String) (origin : Origin) :
    Load (List Node) := do
  let part ← required kind fields key origin
  match part.value with
  | .list _ => part.items.mapM fun item => item.load origin
  | _ => report (.fieldNotList key) origin

/-! ### Objects -/

/-- The value of an immediate: a text in any marked base, anything else as an integer. -/
def immediateValue (value : Value) (origin : Origin) : Checked Int :=
  match value with
  | .text written =>
    match Text.readInteger? .marked written with
    | some number => .ok number
    | none => report (.badImmediate (Text.quoted written)) origin
  | other => other.toInteger

def variableOrNode (part : Part) (origin : Origin) : Load Node :=
  match part.value with
  | .text name => onTable fun table => table.variableNamed name origin
  | _ => part.load origin

/-- The parameters of a macro: the items of a list, the names of an object's fields, or the
characters of a text. -/
def parameters (part : Part) (origin : Origin) : Load (List Node) :=
  match part.value with
  | .list _ => part.items.mapM fun item => variableOrNode item origin
  | .object fields =>
    fields.mapM fun field => onTable fun table => table.variableNamed field.1 origin
  | .text characters =>
    (Text.points characters).mapM fun point =>
      onTable fun table => table.variableNamed (Text.ofPoints [point]) origin
  | other => refuse (.notIterable other.typeName)

/-- The scale of an indexed address: a node, a number, or a bare value. -/
def scaleNode (part : Part) (origin : Origin) : Load Node :=
  match part.value with
  | .object _ => part.load origin
  | .integer value => return .immediate origin value
  | other => return .plain origin other

/-- A reference to a label by a value that has to be a text. Another scalar is interned before it
is refused. -/
def referenceTo (value : Value) (origin : Origin) (offset : Int) : Load Node := do
  let name ← value.toName
  match name with
  | .text text => onTable fun table => table.labelReference text origin offset
  | other =>
    onTable fun table => ((), table.withLabel other origin)
    refuse (.notSearchable value.typeName)

def declaration? : String → Option LabelDeclaration
  | "global" => some (.global false false)
  | "global_export" => some (.global true false)
  | "unaligned_global" => some (.global false true)
  | "unaligned_global_export" => some (.global true true)
  | _ => none

def declareLabel (fields : Fields) (origin : Origin) : Load Node := do
  let name ← textField .labelDeclaration fields "name" origin
  let word ← required .labelDeclaration fields "declaration" origin
  match word.value with
  | .text "extern" =>
    onTable fun table => ((), (table.label name origin).2.noteUse name)
  | .text "aligned" =>
    let alignment ← required .labelDeclaration fields "alignment" origin
    let number ← alignment.value.toInteger
    let _ ← onTableChecked fun table => table.declare (.aligned number) name origin
  | .text other =>
    match declaration? other with
    | some declaration =>
      let _ ← onTableChecked fun table => table.declare declaration name origin
    | none => report (.unknownDeclaration (Text.quoted other)) origin
  | other => report (.unknownDeclaration other.quoted) origin
  return .skip origin

def build (kind : Kind) (fields : Fields) (origin : Origin) : Load Node :=
  match kind with
  | .immediate => do
    let part ← required kind fields "value" origin
    let value ← immediateValue part.value origin
    return .immediate origin value
  | .text => do
    let value ← textField kind fields "value" origin
    return .text origin value
  | .register .special => do
    let name ← textField kind fields "name" origin
    return .register origin .special name
  | .register cls => do
    let name ← textField kind fields "name" origin
    onTable fun table => table.register cls name origin
  | .var => do
    let name ← textField kind fields "name" origin
    onTable fun table => table.variableNamed name origin (optional fields "original_name")
  | .expression => do
    let value ← textField kind fields "value" origin
    onTable fun table => table.layoutConstant (.expression value) origin
  | .setting => do
    let name ← textField kind fields "name" origin
    onTable fun table => table.setting name origin
  | .truth value => return .truth value
  | .address => do
    let base ← child kind fields "base" origin
    let offset ← child kind fields "offset" origin
    Node.makeAddress origin base offset
  | .indexed => do
    let scalePart ← required kind fields "scale" origin
    let scale ← scaleNode scalePart origin
    let base ← child kind fields "base" origin
    let index ← child kind fields "index" origin
    let offset ← child kind fields "offset" origin
    Node.makeIndexed origin base index scale offset
  | .absolute => do
    let place ← child kind fields "address" origin
    return .absolute origin place
  | .fieldOffset => do
    let struct ← textField kind fields "struct" origin
    let field ← textField kind fields "field" origin
    onTable fun table => table.layoutConstant (.offset struct field) origin
  | .size => do
    let part ← required kind fields "struct" origin
    let struct ← part.value.toName
    onTable fun table => table.layoutConstant (.size struct) origin
  | .binary operator => do
    let left ← child kind fields "left" origin
    let right ← child kind fields "right" origin
    return .binary origin operator left right
  | .unary operator => do
    let operand ← child kind fields "child" origin
    return .unary origin operator operand
  | .instruction => do
    let operands ←
      if (field? fields "operands").isSome then childList kind fields "operands" origin
      else pure []
    let opcode ← textField kind fields "opcode" origin
    return .instruction origin opcode operands (optional fields "annotation")
  | .call => do
    let name ← textField kind fields "name" origin
    let operands ← childList kind fields "operands" origin
    Node.makeCall origin name operands (optional fields "annotation")
      (optional fields "original_name")
  | .sequence => do
    let items ← childList kind fields "items" origin
    return .sequence origin items
  | .conditional => do
    let elseCase ←
      match field? fields "else" with
      | some part =>
        match part.value with
        | .null => pure (.skip origin)
        | _ => part.load origin
      | none => pure (.skip origin)
    let predicate ← child kind fields "predicate" origin
    let thenCase ← child kind fields "then" origin
    return .conditional origin predicate thenCase elseCase
  | .skip => return .skip origin
  | .trap => return .trap origin
  | .constant => do
    let part ← required kind fields "variable" origin
    let declared ← variableOrNode part origin
    let value ← child kind fields "value" origin
    Node.makeConstant origin declared value
  | .definition => do
    let part ← required kind fields "variables" origin
    let formals ← parameters part origin
    let body ← child kind fields "body" origin
    return .definition origin (optional fields "name") formals body
  | .label => do
    let name ← textField kind fields "name" origin
    let mark ← onTable fun table => table.labelDefinition name origin
    return .label mark
  | .localLabel => do
    let name ← textField kind fields "name" origin
    let mark ← onTable fun table => table.localLabel (.text name) origin
    return .localLabel mark
  | .labelReference => do
    let part ← required kind fields "label" origin
    let offset ←
      match field? fields "offset" with
      | some offsetPart => liftExcept offsetPart.value.toInteger
      | none => pure 0
    referenceTo part.value origin offset
  | .localReference => do
    let part ← required kind fields "label" origin
    let name ← part.value.toName
    let mark ← onTable fun table => table.localLabel name origin
    return .localReference origin mark
  | .labelDeclaration => declareLabel fields origin

def loadObject (filename : String) (fields : Fields) (parent : Option Origin) : Load Node := do
  let origin ← originOf filename (optional fields "origin") parent
  let written := optional fields "kind"
  let _ ← written.toName
  match written with
  | .text name =>
    match Kind.ofName? name with
    | some kind =>
      countNode
      build kind fields origin
    | none => report (.unknownKind written.quoted (Kind.all.map Kind.name)) origin
  | _ => report (.unknownKind written.quoted (Kind.all.map Kind.name)) origin

mutual

def part (filename : String) : Value → Part
  | .object fields =>
    .mk (.object fields) (loadObject filename (fieldParts filename fields)) []
  | .list items =>
    .mk (.list items) (fun parent => report (.notAnObject (Value.list items).typeName) parent)
      (itemParts filename items)
  | other => .mk other (fun parent => report (.notAnObject other.typeName) parent) []

def itemParts (filename : String) : List Value → List Part
  | [] => []
  | item :: rest => part filename item :: itemParts filename rest

def fieldParts (filename : String) : List (String × Value) → Fields
  | [] => []
  | (key, value) :: rest => (key, part filename value) :: fieldParts filename rest

end

def load (filename : String) (document : Value) : Load Node := (part filename document).load none

end Loader

def SymbolTable.load (table : SymbolTable) (document : Value) (filename : String) :
    Checked (Node × Nat) × SymbolTable :=
  let (outcome, state) := (Loader.load filename document).perform { table := table }
  (outcome.map fun tree => (tree, state.loaded), state.table)

end MacroAssembler
