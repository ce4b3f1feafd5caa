/-
This module says what loading a document can do to a symbol table and which nodes it can give.

Every step of loading either builds a node around nodes that were loaded before it, interns a name,
or asks the table for a label. A law is a property of steps that these have and that is kept when
steps are put together, so a law holds of loading any document. The rules below list the steps, and
one law is that whatever loads successfully follows them. What holds of every loaded tree is then
shown by induction on the rules.
-/
import MacroAssembler.Document.Loader
import MacroAssembler.Proofs.Construction

namespace MacroAssembler

open List Node

/-- Whether a table can become another one while the given nodes are loaded, in this order. -/
inductive SymbolTable.Loads : SymbolTable → List Node → SymbolTable → Prop
  | none {table : SymbolTable} : Loads table [] table
  | append {before middle after : SymbolTable} {nodes others : List Node}
      (first : Loads before nodes middle) (second : Loads middle others after) :
      Loads before (nodes ++ others) after
  | node {before after : SymbolTable} {parts : List Node} {node : Node}
      (loads : Loads before parts after) (keeps : node.KeepsRules)
      (unkeyed : node.symbolKey? = none) (notReference : node.isReference = false)
      (same : ∀ part, part ∈ node.children ↔ part ∈ parts) : Loads before [node] after
  | plain {table : SymbolTable} (origin : Origin) (value : Value) :
      Loads table [.plain origin value] table
  | truth {table : SymbolTable} (value : Bool) : Loads table [.truth value] table
  | intern {table : SymbolTable} {node : Node} {key : SymbolKey}
      (keyed : node.symbolKey? = some key) (notLabel : node.isLabel = false) :
      Loads table [(table.intern node).1] (table.intern node).2
  | label {table : SymbolTable} (name : String) (origin : Origin) :
      Loads table [.label (table.labelDefinition name origin).1]
        (table.labelDefinition name origin).2
  | localLabel {table : SymbolTable} (name : Name) (origin : Origin) :
      Loads table [.localLabel (table.localLabel name origin).1] (table.localLabel name origin).2
  | labelReference {table : SymbolTable} (name : String) (origin : Origin) (offset : Int) :
      Loads table [(table.labelReference name origin offset).1]
        (table.labelReference name origin offset).2
  | localReference {table : SymbolTable} (name : Name) (origin : Origin) :
      Loads table [.localReference origin (table.localLabel name origin).1]
        (table.localLabel name origin).2
  | use {table : SymbolTable} (name : String) (origin : Origin) :
      Loads table [] ((table.label name origin).2.noteUse name)
  | declare {table : SymbolTable} (declaration : LabelDeclaration) (name : String)
      (origin : Origin) : Loads table [] (table.declare declaration name origin).2

namespace Loader

@[simp]
theorem perform_onTable {α : Type} (change : SymbolTable → α × SymbolTable) (state : LoadState) :
    (onTable change).perform state =
      (.ok (change state.table).1, { state with table := (change state.table).2 }) := rfl

@[simp]
theorem perform_onTableChecked {α : Type} (change : SymbolTable → Checked α × SymbolTable)
    (state : LoadState) : (onTableChecked change).perform state =
      ((change state.table).1, { state with table := (change state.table).2 }) := rfl

/-- A request that loading makes to the table, with the nodes that come of its answer. -/
inductive Request : {α : Type} → (α → List Node) → (SymbolTable → α × SymbolTable) → Prop
  | intern {node : Node} {key : SymbolKey} (keyed : node.symbolKey? = some key)
      (notLabel : node.isLabel = false) : Request ([·]) fun table => table.intern node
  | label (name : String) (origin : Origin) :
      Request ([.label ·]) fun table => table.labelDefinition name origin
  | localLabel (name : Name) (origin : Origin) :
      Request ([.localLabel ·]) fun table => table.localLabel name origin
  | localReference (name : Name) (origin : Origin) :
      Request ([.localReference origin ·]) fun table => table.localLabel name origin
  | labelReference (name : String) (origin : Origin) (offset : Int) :
      Request ([·]) fun table => table.labelReference name origin offset
  | use (name : String) (origin : Origin) :
      Request (fun _ => []) fun table => ((), (table.label name origin).2.noteUse name)

/-- A property of steps of loading that holds of all of them: it holds of every request, and is kept
when steps are put together. A step comes after the known nodes were loaded and leaves the gathered
ones. The property need not hold of all declarations of labels. -/
structure Law where
  Holds {α : Type} : List Node → (α → List Node) → Load α → Prop
  Declares : Prop
  pure {α : Type} {known : List Node} {gathered : α → List Node} {value : α}
    (leaves : ∀ {before after : SymbolTable}, before.Loads known after →
      before.Loads (gathered value) after) : Holds known gathered (Pure.pure value)
  fails {α : Type} {known : List Node} {gathered : α → List Node} {step : Load α}
    (never : ∀ state value after, step.perform state ≠ (.ok value, after)) :
    Holds known gathered step
  bind {α β : Type} {known : List Node} {gathered : α → List Node} {nextGathered : β → List Node}
    {first : Load α} {next : α → Load β} (holds : Holds known gathered first)
    (continues : ∀ value, Holds (gathered value) nextGathered (next value)) :
    Holds known nextGathered (first >>= next)
  after {α : Type} {known : List Node} {gathered : α → List Node} {step : Load α}
    (holds : Holds [] gathered step) : Holds known (fun value => known ++ gathered value) step
  count : Holds [] (fun _ => []) countNode
  request {α : Type} {gathered : α → List Node} {change : SymbolTable → α × SymbolTable}
    (asks : Request gathered change) : Holds [] gathered (onTable change)
  declare (declares : Declares) (declaration : LabelDeclaration) (name : String)
    (origin : Origin) : Holds [] (fun _ => [])
      (onTableChecked fun table => table.declare declaration name origin)

variable {α β : Type} {known : List Node} {gathered : α → List Node}
  {nextGathered : β → List Node}

namespace Law

variable (law : Law)

theorem node {node : Node} (keeps : node.KeepsRules) (unkeyed : node.symbolKey? = none)
    (notReference : node.isReference = false) (same : ∀ part, part ∈ node.children ↔ part ∈ known) :
    law.Holds known ([·]) (Pure.pure node) :=
  law.pure fun loads => loads.node keeps unkeyed notReference same

theorem leaf {node : Node} (keeps : node.KeepsRules) (unkeyed : node.symbolKey? = none)
    (notReference : node.isReference = false) (leaf : node.children = []) :
    law.Holds [] ([·]) (Pure.pure node) :=
  law.node keeps unkeyed notReference (by simp [leaf])

theorem error {failure : Failure} {next : α → Load β} :
    law.Holds known nextGathered (liftM (.error failure : Checked α) >>= next) :=
  law.fails fun _ _ _ ran => by cases ran

theorem check {outcome : Checked α} {next : α → Load β}
    (continues : ∀ value, outcome = .ok value → law.Holds known nextGathered (next value)) :
    law.Holds known nextGathered (liftM outcome >>= next) := by
  cases outcome with
  | ok value => exact continues value rfl
  | error failure => exact law.error

theorem made {outcome : Checked Node}
    (made : ∀ node, outcome = .ok node → law.Holds known ([·]) (Pure.pure node : Load Node)) :
    law.Holds known ([·]) (liftM outcome : Load Node) := by
  cases outcome with
  | ok value => exact made value rfl
  | error failure => exact law.fails fun _ _ _ ran => by cases ran

theorem report {cause : Cause} {location : Option Origin} :
    law.Holds known gathered (liftM (MacroAssembler.report cause location : Checked α) : Load α) :=
  law.fails fun _ _ _ ran => by cases ran

theorem mapM {items : List α} {step : α → Load Node}
    (each : ∀ item ∈ items, law.Holds [] ([·]) (step item)) :
    law.Holds known (known ++ ·) (items.mapM step) := by
  induction items generalizing known with
  | nil =>
    rw [mapM_nil]
    exact law.pure fun loads => by rwa [append_nil]
  | cons item rest ih =>
    rw [mapM_cons]
    obtain ⟨first, others⟩ := forall_mem_cons.mp each
    refine law.bind (law.after first) fun head => law.bind (ih others) fun tail => ?_
    exact law.pure fun loads => by rwa [append_assoc, singleton_append] at loads

theorem requested {change : SymbolTable → α × SymbolTable} {nodeOf : α → Node}
    (asks : Request (fun found => [nodeOf found]) change) :
    law.Holds [] ([·]) (do let found ← onTable change; return nodeOf found) :=
  law.bind (law.request asks) fun _ => law.pure id

end Law

/-- Whether a law holds of loading a part as a node, or an item of it. -/
def Part.Follows (part : Part) (law : Law) : Prop :=
  (∀ parent, law.Holds [] ([·]) (part.load parent)) ∧
    ∀ item ∈ part.items, ∀ parent, law.Holds [] ([·]) (item.load parent)

def Fields.Follow (fields : Fields) (law : Law) : Prop :=
  ∀ key part, field? fields key = some part → part.Follows law

section Objects

variable {law : Law} {fields : Fields} {kind : Kind} {key : String} {origin : Origin} {part : Part}

theorem required_ok (found : required kind fields key origin = .ok part) :
    field? fields key = some part := by
  unfold required at found
  split at found
  · cases found
    assumption
  · cases found

theorem holds_child (follow : fields.Follow law) :
    law.Holds known (known ++ [·]) (child kind fields key origin) :=
  law.check fun part found => law.after ((follow key part (required_ok found)).1 _)

theorem holds_childList (follow : fields.Follow law) :
    law.Holds known (known ++ ·) (childList kind fields key origin) := by
  refine law.check fun part found => ?_
  split
  · exact law.mapM fun item mem => (follow key part (required_ok found)).2 item mem _
  · exact law.report

theorem holds_intern {node : Node} {key : SymbolKey} (keyed : node.symbolKey? = some key)
    (notLabel : node.isLabel = false) :
    law.Holds [] ([·]) (onTable fun table => table.intern node) :=
  law.request (.intern keyed notLabel)

theorem holds_variableOrNode (follows : ∀ parent, law.Holds [] ([·]) (part.load parent)) :
    law.Holds [] ([·]) (variableOrNode part origin) := by
  unfold variableOrNode
  split
  · exact holds_intern rfl rfl
  · exact follows _

theorem holds_parameters (follows : part.Follows law) :
    law.Holds [] ([] ++ ·) (parameters part origin) := by
  unfold parameters
  split
  · exact law.mapM fun item mem => holds_variableOrNode (follows.2 item mem)
  · exact law.mapM fun _ _ => holds_intern rfl rfl
  · exact law.mapM fun _ _ => holds_intern rfl rfl
  · exact law.fails fun _ _ _ ran => by cases ran

theorem holds_scaleNode (follows : part.Follows law) :
    law.Holds [] ([·]) (scaleNode part origin) := by
  unfold scaleNode
  split
  · exact follows.1 _
  · exact law.leaf trivial rfl rfl rfl
  · exact law.pure fun loads => loads.append (.plain _ _)

theorem holds_referenceTo (value : Value) (offset : Int) :
    law.Holds [] ([·]) (referenceTo value origin offset) := by
  refine law.check fun name _ => ?_
  split
  · exact law.request (.labelReference _ _ _)
  · refine law.fails fun state result after ran => ?_
    obtain ⟨_, _, -, impossible⟩ := Action.perform_bind_ok.mp ran
    cases impossible

theorem holds_declareLabel (externs : law.Declares ∨
      ∀ word, optional fields "declaration" = .text word → word = "extern") :
    law.Holds [] ([·]) (declareLabel fields origin) := by
  have skips : law.Holds [] ([·]) (pure (.skip origin) : Load Node) := law.leaf trivial rfl rfl rfl
  refine law.check fun name _ => law.check fun word found => ?_
  have written : optional fields "declaration" = word.value := by
    rw [optional, required_ok found]
  rw [written] at externs
  split
  · exact law.bind (law.request (.use name origin)) fun _ => skips
  · rename_i aligned
    have declares := externs.resolve_right fun externs => absurd (externs _ aligned) (by decide)
    refine law.check fun _ _ => law.check fun number _ => ?_
    exact law.bind (law.declare declares _ name origin) fun _ => skips
  · rename_i other others _ same
    have declares := externs.resolve_right fun externs => others (externs _ same)
    split
    · exact law.bind (law.declare declares _ name origin) fun _ => skips
    · exact law.error
  · exact law.error

theorem holds_build (follow : fields.Follow law) (externs : kind = .labelDeclaration →
      law.Declares ∨ ∀ word, optional fields "declaration" = .text word → word = "extern") :
    law.Holds [] ([·]) (build kind fields origin) := by
  cases kind with
  | immediate => exact law.check fun _ _ => law.check fun _ _ => law.leaf trivial rfl rfl rfl
  | text => exact law.check fun _ _ => law.leaf trivial rfl rfl rfl
  | skip | trap => exact law.leaf trivial rfl rfl rfl
  | truth value => exact law.pure fun loads => loads.append (.truth value)
  | register cls =>
    cases cls with
    | special => exact law.check fun _ _ => law.leaf trivial rfl rfl rfl
    | _ => exact law.check fun _ _ => holds_intern rfl rfl
  | var | expression | setting => exact law.check fun _ _ => holds_intern rfl rfl
  | fieldOffset | size => exact law.check fun _ _ => law.check fun _ _ => holds_intern rfl rfl
  | address =>
    refine law.bind (holds_child follow) fun base => law.bind (holds_child follow) fun offset => ?_
    refine law.made fun node made => ?_
    obtain ⟨keeps, rfl⟩ := makeAddress_ok.mp made
    exact law.node keeps rfl rfl (by simp [children])
  | indexed =>
    refine law.check fun part found => ?_
    refine law.bind (holds_scaleNode (follow _ part (required_ok found))) fun scale => ?_
    refine law.bind (holds_child follow) fun base => law.bind (holds_child follow) fun index => ?_
    refine law.bind (holds_child follow) fun offset => law.made fun node made => ?_
    obtain ⟨keeps, rfl⟩ := makeIndexed_ok.mp made
    exact law.node keeps rfl rfl (by simp [children]; tauto)
  | absolute | unary =>
    exact law.bind (holds_child follow) fun child => law.node trivial rfl rfl (by simp [children])
  | binary =>
    refine law.bind (holds_child follow) fun left => law.bind (holds_child follow) fun right => ?_
    exact law.node trivial rfl rfl (by simp [children])
  | instruction =>
    rw [build]
    split
    · refine law.bind (holds_childList follow) fun operands => law.check fun _ _ => ?_
      exact law.node trivial rfl rfl (by simp [children])
    · rw [pure_bind]
      exact law.check fun _ _ => law.leaf trivial rfl rfl rfl
  | call =>
    refine law.check fun _ _ => law.bind (holds_childList follow) fun operands => ?_
    refine law.made fun node made => ?_
    obtain ⟨keeps, rfl⟩ := makeCall_ok.mp made
    exact law.node keeps rfl rfl (by simp [children])
  | sequence =>
    refine law.bind (holds_childList follow) fun items => ?_
    exact law.node trivial rfl rfl (by simp [children])
  | conditional =>
    have rest : ∀ elseCase : Node, law.Holds [elseCase] ([·]) (do
        let predicate ← child .conditional fields "predicate" origin
        let thenCase ← child .conditional fields "then" origin
        return Node.conditional origin predicate thenCase elseCase) := by
      intro elseCase
      refine law.bind (holds_child follow) fun predicate => ?_
      refine law.bind (holds_child follow) fun thenCase => ?_
      exact law.node trivial rfl rfl (by simp [children]; tauto)
    have skips : law.Holds [] ([·]) (pure (.skip origin) : Load Node) :=
      law.leaf trivial rfl rfl rfl
    rw [build]
    split
    · rename_i part found
      split
      · exact law.bind skips rest
      · exact law.bind ((follow _ part found).1 _) rest
    · exact law.bind skips rest
  | constant =>
    refine law.check fun part found => ?_
    refine law.bind (holds_variableOrNode (follow _ part (required_ok found)).1) fun declared => ?_
    refine law.bind (holds_child follow) fun value => law.made fun node made => ?_
    obtain ⟨binding, rfl, rfl⟩ := makeConstant_ok.mp made
    exact law.node trivial rfl rfl (by simp [children])
  | definition =>
    refine law.check fun part found => ?_
    refine law.bind (holds_parameters (follow _ part (required_ok found))) fun formals => ?_
    refine law.bind (holds_child follow) fun body => law.node trivial rfl rfl ?_
    simp [children]
  | label => exact law.check fun name _ => law.requested (.label name origin)
  | localLabel => exact law.check fun _ _ => law.requested (.localLabel _ origin)
  | labelReference =>
    refine law.check fun part _ => ?_
    split
    · rename_i offsetPart _
      cases offsetPart.value.toInteger with
      | ok number => exact holds_referenceTo _ number
      | error failure => exact law.fails fun _ _ _ impossible => by cases impossible
    · exact holds_referenceTo _ _
  | localReference =>
    exact law.check fun part _ => law.check fun name _ =>
      law.requested (.localReference name origin)
  | labelDeclaration => exact holds_declareLabel (externs rfl)

end Objects

/-! ### Documents -/

theorem value_part (filename : String) (value : Value) : (part filename value).value = value := by
  cases value <;> rfl

theorem optional_fieldParts (filename key : String) (fields : List (String × Value)) :
    optional (fieldParts filename fields) key = (Association.get? fields key).getD .null := by
  unfold optional field?
  induction fields with
  | nil => rfl
  | cons entry rest ih =>
    obtain ⟨name, value⟩ := entry
    rw [fieldParts, Association.get?_cons, Association.get?_cons]
    by_cases same : name = key
    · simp only [same, if_true]
      exact value_part filename value
    · simp only [same, if_false]
      exact ih

end Loader

namespace Value

def kindOf? (fields : List (String × Value)) : Option Kind :=
  match Association.get? fields "kind" with
  | some (.text name) => Kind.ofName? name
  | _ => none

/-- Whether an object with some fields is no label declaration, or one of an external label. -/
def isNoOrExtern (fields : List (String × Value)) : Bool :=
  match kindOf? fields, Association.get? fields "declaration" with
  | some .labelDeclaration, some (.text word) => decide (word = "extern")
  | _, _ => true

theorem some_of_getD {found : Option Value} {word : String} (written : found.getD .null = .text word) :
    found = some (.text word) := by
  cases found with
  | none => cases written
  | some value => exact congrArg some written

mutual

/-- Whether no object in a value declares a label as anything but external. -/
def declaresExterns : Value → Bool
  | .object fields => isNoOrExtern fields && fieldsDeclareExterns fields
  | .list items => itemsDeclareExterns items
  | _ => true

def itemsDeclareExterns : List Value → Bool
  | [] => true
  | item :: rest => item.declaresExterns && itemsDeclareExterns rest

def fieldsDeclareExterns : List (String × Value) → Bool
  | [] => true
  | (_, value) :: rest => value.declaresExterns && fieldsDeclareExterns rest

end

end Value

namespace Loader

variable {law : Law}

theorem holds_loadObject (filename : String) {fields : List (String × Value)}
    (externs : law.Declares ∨ Value.isNoOrExtern fields)
    (follow : (fieldParts filename fields).Follow law) (parent : Option Origin) :
    law.Holds [] ([·]) (loadObject filename (fieldParts filename fields) parent) := by
  refine law.check fun _ _ => law.check fun _ _ => ?_
  split
  · rename_i name written
    split
    · rename_i kind named
      refine law.bind law.count fun _ => holds_build follow ?_
      rintro rfl
      refine externs.imp_right fun externs word declared => ?_
      rw [optional_fieldParts] at written declared
      have isDeclaration : Value.kindOf? fields = some .labelDeclaration := by
        rw [Value.kindOf?, Value.some_of_getD written]
        exact named
      rw [Value.isNoOrExtern, isDeclaration, Value.some_of_getD declared] at externs
      exact of_decide_eq_true externs
    · exact law.report
  · exact law.report

mutual

theorem follows_part (filename : String) : ∀ value : Value,
    law.Declares ∨ value.declaresExterns → (part filename value).Follows law
  | .object fields, externs => by
    rw [Value.declaresExterns, Bool.and_eq_true] at externs
    refine ⟨holds_loadObject filename (externs.imp_right And.left) ?_, by simp [part, Part.items]⟩
    exact follow_fieldParts filename fields (externs.imp_right And.right)
  | .list items, externs => ⟨fun _ => law.report, follows_itemParts filename items (by
      rwa [Value.declaresExterns] at externs)⟩
  | .null, _ | .truth _, _ | .integer _, _ | .real _, _ | .text _, _ =>
    ⟨fun _ => law.report, by simp [part, Part.items]⟩

theorem follows_itemParts (filename : String) : ∀ values : List Value,
    law.Declares ∨ Value.itemsDeclareExterns values →
      ∀ item ∈ itemParts filename values, ∀ parent, law.Holds [] ([·]) (item.load parent)
  | [], _ => by simp [itemParts]
  | value :: rest, externs => by
    rw [Value.itemsDeclareExterns, Bool.and_eq_true] at externs
    rw [itemParts, forall_mem_cons]
    exact ⟨(follows_part filename value (externs.imp_right And.left)).1,
      follows_itemParts filename rest (externs.imp_right And.right)⟩

theorem follow_fieldParts (filename : String) : ∀ fields : List (String × Value),
    law.Declares ∨ Value.fieldsDeclareExterns fields → (fieldParts filename fields).Follow law
  | [], _ => by
    intro key part found
    cases found
  | (name, value) :: rest, externs => by
    rw [Value.fieldsDeclareExterns, Bool.and_eq_true] at externs
    intro key part found
    rw [fieldParts, field?, Association.get?_cons] at found
    split at found
    · cases found
      exact follows_part filename value (externs.imp_right And.left)
    · exact follow_fieldParts filename rest (externs.imp_right And.right) key part found

end

theorem Request.loads {α : Type} {gathered : α → List Node}
    {change : SymbolTable → α × SymbolTable} (asks : Request gathered change)
    (table : SymbolTable) : table.Loads (gathered (change table).1) (change table).2 := by
  cases asks with
  | intern keyed notLabel => exact .intern keyed notLabel
  | label name origin => exact .label name origin
  | localLabel name origin => exact .localLabel name origin
  | localReference name origin => exact .localReference name origin
  | labelReference name origin offset => exact .labelReference name origin offset
  | use name origin => exact .use name origin

/-- Every step of loading follows the rules: after the known nodes, it leaves the gathered ones. -/
def gathering : Law where
  Holds known gathered step := ∀ (before : SymbolTable) state result after,
    before.Loads known state.table → step.perform state = (.ok result, after) →
      before.Loads (gathered result) after.table
  Declares := True
  pure leaves := by
    intro before state result after loads ran
    cases ran
    exact leaves loads
  fails never _ state result after _ ran := absurd ran (never state result after)
  bind holds continues := by
    intro before state result after loads ran
    obtain ⟨value, middle, passed, last⟩ := Action.perform_bind_ok.mp ran
    exact continues value _ _ _ _ (holds _ _ _ _ loads passed) last
  after holds _ _ _ _ loads ran := loads.append (holds _ _ _ _ .none ran)
  count := by
    intro before state result after loads counted
    cases counted
    exact loads
  request asks := by
    intro before state result after loads ran
    cases ran
    exact loads.append (asks.loads state.table)
  declare _ declaration name origin := by
    intro before state result after loads ran
    simp only [perform_onTableChecked, Prod.mk.injEq] at ran
    obtain ⟨-, rfl⟩ := ran
    exact loads.append (.declare declaration name origin)

end Loader

theorem SymbolTable.loads_load {table after : SymbolTable} {document : Value} {filename : String}
    {tree : Node} {count : Nat}
    (ran : table.load document filename = (.ok (tree, count), after)) :
    table.Loads [tree] after := by
  unfold SymbolTable.load at ran
  rcases performed : (Loader.load filename document).perform { table := table } with
    ⟨failure | loaded, state⟩
  · rw [performed] at ran
    cases ran
  · rw [performed] at ran
    cases ran
    have follows := @Loader.follows_part Loader.gathering filename document (.inl trivial)
    exact follows.1 none _ _ _ _ .none performed

end MacroAssembler
