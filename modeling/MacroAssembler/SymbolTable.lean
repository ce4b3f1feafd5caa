/-
This module holds the symbol table of a compilation run.

The first request for a name creates its node, and every later request returns that node. A label
starts out external and not global; a definition makes it internal for good. The table also keeps
the forward references: the labels that were used while they were still external, in the order of
their first use.

A name that contains a percent sign is a template, which macro expansion turns into a label. A
template is interned, but it is neither defined nor used by being written.
-/
import MacroAssembler.Node.Build
import MacroAssembler.Node.Symbol

namespace MacroAssembler

structure LabelFlags where
  isDefined : Bool := false
  isExternal : Bool := true
  isGlobal : Bool := false
  isAligned : Bool := true
  alignTo : Option Int := none
  isExported : Bool := false
deriving DecidableEq, Repr

structure LabelEntry where
  name : Name
  origin : Origin
  flags : LabelFlags := {}
deriving DecidableEq, Repr

inductive LabelDeclaration
  | global (exported unaligned : Bool)
  | aligned (alignment : Int)
deriving DecidableEq, Repr

structure SymbolTable where
  /-- The interned nodes other than labels, in the order of their first request. -/
  symbols : List Node := []
  /-- The labels, in the order of their first request. -/
  labels : List LabelEntry := []
  /-- The labels used while they were external, in the order of their first use. -/
  referenced : List String := []
  /-- The last number that was tried for a fresh local label. -/
  counter : Nat := 0

namespace SymbolTable

def empty : SymbolTable := {}

/-! ### Interning -/

def find? (table : SymbolTable) (key : SymbolKey) : Option Node :=
  table.symbols.find? fun node => decide (node.symbolKey? = some key)

/-- The interned node with the identity of the given one, which is interned itself if there is
none yet. A node without an identity is returned as it is. -/
def intern (table : SymbolTable) (node : Node) : Node × SymbolTable :=
  match node.symbolKey? with
  | none => (node, table)
  | some key =>
    match table.find? key with
    | some known => (known, table)
    | none => (node, { table with symbols := table.symbols ++ [node] })

def register (table : SymbolTable) (kind : RegisterClass) (name : String) (origin : Origin) :
    Node × SymbolTable :=
  table.intern (.register origin kind name)

def variableNamed (table : SymbolTable) (name : String) (origin : Origin)
    (writtenName : Value := .null) : Node × SymbolTable :=
  table.intern (.var ⟨origin, name, writtenName⟩)

def layoutConstant (table : SymbolTable) (constant : LayoutConstant) (origin : Origin) :
    Node × SymbolTable :=
  table.intern (.layout origin constant)

def setting (table : SymbolTable) (name : String) (origin : Origin) : Node × SymbolTable :=
  table.intern (.setting origin name)

def findLocal? (table : SymbolTable) (name : Name) : Option LocalLabel :=
  match table.find? (.localLabel name.key) with
  | some (.localLabel mark) => some mark
  | _ => none

def localLabel (table : SymbolTable) (name : Name) (origin : Origin) :
    LocalLabel × SymbolTable :=
  match table.findLocal? name with
  | some mark => (mark, table)
  | none =>
    (⟨origin, name⟩, { table with symbols := table.symbols ++ [.localLabel ⟨origin, name⟩] })

/-! ### Fresh local labels -/

def numberedName (number : Nat) (comment : String) : String :=
  "_" ++ Text.decimal number ++ "_" ++ comment

/-- The least number above the given one whose name is free, looked for in that many steps. -/
def freeNumber (table : SymbolTable) (comment : String) : Nat → Nat → Nat
  | 0, number => number + 1
  | steps + 1, number =>
    if (table.findLocal? (.text (numberedName (number + 1) comment))).isSome then
      freeNumber table comment steps (number + 1)
    else number + 1

/-- Intern a local label whose name is new. The name is the comment after an underscore if that
is free. Otherwise a number is put in between, the least one above the table's counter that makes
the name free; one of the numbers up to the count of symbols does. -/
def freshLocalLabel (table : SymbolTable) (comment : String) (origin : Origin) :
    LocalLabel × SymbolTable :=
  let simple := "_" ++ comment
  if (table.findLocal? (.text simple)).isSome then
    let number := table.freeNumber comment table.symbols.length table.counter
    { table with counter := number }.localLabel (.text (numberedName number comment)) origin
  else table.localLabel (.text simple) origin

/-! ### Labels -/

def findLabel? (table : SymbolTable) (name : Name) : Option LabelEntry :=
  table.labels.find? fun entry => decide (entry.name.key = name.key)

def withLabel (table : SymbolTable) (name : Name) (origin : Origin) : SymbolTable :=
  if (table.findLabel? name).isSome then table
  else { table with labels := table.labels ++ [{ name := name, origin := origin }] }

def label (table : SymbolTable) (name : String) (origin : Origin) : Label × SymbolTable :=
  match table.findLabel? (.text name) with
  | some entry => (⟨entry.origin, name⟩, table)
  | none => (⟨origin, name⟩, table.withLabel (.text name) origin)

def flagsOf (table : SymbolTable) (name : String) : LabelFlags :=
  match table.findLabel? (.text name) with
  | some entry => entry.flags
  | none => {}

def updateFlags (table : SymbolTable) (name : String) (change : LabelFlags → LabelFlags) :
    SymbolTable :=
  { table with
    labels := table.labels.map fun entry =>
      if entry.name.key = .text name then { entry with flags := change entry.flags } else entry }

def isTemplate (name : String) : Bool := name.toList.contains '%'

/-- Note the use of a label: an external label becomes a forward reference. -/
def noteUse (table : SymbolTable) (name : String) : SymbolTable :=
  if (table.flagsOf name).isExternal && !table.referenced.contains name then
    { table with referenced := table.referenced ++ [name] }
  else table

/-- Refer to a label; the use is noted unless the name is a template. -/
def labelReference (table : SymbolTable) (name : String) (origin : Origin) (offset : Int) :
    Node × SymbolTable :=
  let (mark, table) := table.label name origin
  (.labelReference origin mark offset, if isTemplate name then table else table.noteUse name)

def defineLabel (table : SymbolTable) (name : String) (origin : Origin) : Label × SymbolTable :=
  let (mark, table) := table.label name origin
  (mark, table.updateFlags name fun flags => { flags with isDefined := true, isExternal := false })

/-- The label of a definition; a template is interned without being defined. -/
def labelDefinition (table : SymbolTable) (name : String) (origin : Origin) :
    Label × SymbolTable :=
  if isTemplate name then table.label name origin else table.defineLabel name origin

def declared : LabelDeclaration → LabelFlags → LabelFlags
  | .global exported unaligned, flags =>
    { flags with
      isGlobal := true
      isExported := exported || flags.isExported
      isAligned := !unaligned && flags.isAligned }
  | .aligned alignment, flags =>
    { flags with alignTo := some alignment, isAligned := true, isGlobal := true }

/-- Why a declaration does not fit what is known about a label. -/
def conflict? (declaration : LabelDeclaration) (name : String) (first : Origin)
    (flags : LabelFlags) : Option Cause :=
  match declaration with
  | .global .. => if flags.isGlobal then some (.globalTwice name first.text) else none
  | .aligned _ => flags.alignTo.map fun alignment => .alignedTwice name alignment

def declare (table : SymbolTable) (declaration : LabelDeclaration) (name : String)
    (origin : Origin) : Checked Label × SymbolTable :=
  let (mark, table) := table.label name origin
  match conflict? declaration name mark.origin (table.flagsOf name) with
  | some cause => (report cause origin, table)
  | none => (.ok mark, table.updateFlags name (declared declaration))

/-! ### Forward references -/

def unresolved (table : SymbolTable) : List String :=
  table.referenced.filter fun name => (table.flagsOf name).isExternal

/-- Perform an action for each forward reference that was never defined, in their order. -/
def forUnresolved {m : Type → Type} [Monad m] (table : SymbolTable) (action : String → m Unit) :
    m Unit :=
  table.unresolved.forM action

def resetReferenced (table : SymbolTable) : SymbolTable := { table with referenced := [] }

def variableCount (table : SymbolTable) : Nat := table.symbols.countP Node.isVariable

def describe (table : SymbolTable) : String :=
  "SymbolTable(" ++ Text.decimal table.labels.length ++ " labels, " ++
    Text.decimal table.variableCount ++ " variables, " ++
    Text.decimal table.referenced.length ++ " extern refs)"

end SymbolTable

end MacroAssembler
