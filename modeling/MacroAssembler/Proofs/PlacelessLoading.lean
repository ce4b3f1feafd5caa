/-
This module proves that the origins in a document are passed on to the tree and have no other
influence on loading.

An object of a document may have an origin, and without one it takes the origin of the object around
it. If all origins are left out that can be read, every node has another location, but the same
nodes are built from the same names, and the table is the same up to locations. Data that stand in a
document by themselves are no nodes, so nothing is left out of them: texts, names and comments, the
fields of an object of parameter names, and a list in the place of a scale.
-/
import MacroAssembler.Proofs.LoadedTrees
import MacroAssembler.Proofs.PlacelessFolding
import MacroAssembler.Width

namespace MacroAssembler

/-! ### Documents without origins -/

namespace Value

def isOrigin : Value → Bool
  | .null => true
  | .object fields =>
    ((Association.get? fields "line").getD (.integer 0)).toInteger.isOk &&
      ((Association.get? fields "column").getD (.integer 0)).toInteger.isOk
  | .list [_] => true
  | .list [_, line] => line.toInteger.isOk
  | .list [_, line, column] => line.toInteger.isOk && column.toInteger.isOk
  | _ => false

/-- Whether an object with some fields has an origin that can be read, or none. -/
def isPlaced (fields : List (String × Value)) : Bool :=
  ((Association.get? fields "origin").getD .null).isOrigin

/-- Whether a field of an object holds data and no nodes. -/
def isData (kind : Option Kind) (key : String) (value : Value) : Bool :=
  if key = "value" then decide (kind ≠ some .constant)
  else if key = "variables" then match value with
    | .object _ => true
    | _ => false
  else if key = "scale" then match value with
    | .list _ => true
    | _ => false
  else ["name", "original_name", "opcode", "annotation", "struct", "field"].contains key

mutual

/-- A document without the origins of its objects. An origin that cannot be read is kept. -/
def unplaced : Value → Value
  | .list items => .list (unplacedItems items)
  | .object fields => .object (unplacedFields (isPlaced fields) (kindOf? fields) fields)
  | other => other

def unplacedItems : List Value → List Value
  | [] => []
  | item :: rest => item.unplaced :: unplacedItems rest

def unplacedFields (placed : Bool) (kind : Option Kind) :
    List (String × Value) → List (String × Value)
  | [] => []
  | (key, value) :: rest =>
    if key = "origin" then
      if placed then unplacedFields placed kind rest
      else (key, value) :: unplacedFields placed kind rest
    else if isData kind key value then (key, value) :: unplacedFields placed kind rest
    else (key, value.unplaced) :: unplacedFields placed kind rest

end

@[simp]
theorem typeName_unplaced (value : Value) : value.unplaced.typeName = value.typeName := by
  cases value <;> rfl

@[simp]
theorem toName_unplaced (value : Value) : value.unplaced.toName = value.toName := by
  cases value <;> rfl

@[simp]
theorem toInteger_unplaced (value : Value) : value.unplaced.toInteger = value.toInteger := by
  cases value <;> rfl

variable {fields : List (String × Value)} {placed : Bool} {kind : Option Kind} {key : String}

theorem get?_unplacedFields (other : key ≠ "origin") :
    Association.get? (unplacedFields placed kind fields) key =
      (Association.get? fields key).map fun value =>
        if isData kind key value then value else value.unplaced := by
  induction fields with
  | nil => rfl
  | cons field rest ih =>
    obtain ⟨name, value⟩ := field
    rw [unplacedFields, Association.get?_cons]
    by_cases same : name = key
    · subst same
      simp only [other, if_false, if_true]
      split <;> simp [Association.get?_cons, *]
    · by_cases isOrigin : name = "origin"
      · simp only [isOrigin, if_true]
        split
        · simp [ih, Ne.symm other]
        · simp [Association.get?_cons, ih, Ne.symm other]
      · simp only [isOrigin, if_false, same]
        split <;> simp [Association.get?_cons, same, ih]

theorem get?_origin_unplacedFields : Association.get? (unplacedFields placed kind fields) "origin" =
      if placed then none else Association.get? fields "origin" := by
  induction fields with
  | nil => split <;> rfl
  | cons field rest ih =>
    obtain ⟨name, value⟩ := field
    rw [unplacedFields, Association.get?_cons]
    by_cases isOrigin : name = "origin"
    · cases placed with
      | true => simpa [isOrigin] using ih
      | false => simp [isOrigin, Association.get?_cons]
    · simp only [isOrigin, if_false]
      split <;> simp [Association.get?_cons, isOrigin, ih]

end Value

/-! ### Alike tables and nodes -/

abbrev Alike {α β : Type} (change : α → β) (value other : α) : Prop := change other = change value

open Node

section Alike

variable {α β : Type} {change : α → β} {outcome other : Checked α} {common : Checked β}

theorem Checked.Corresponds.alike
    (first : Corresponds Failure.SameFamily (Becomes change) outcome common)
    (second : Corresponds Failure.SameFamily (Becomes change) other common) :
    Corresponds Failure.SameFamily (Alike change) outcome other := by
  refine meet (fun value another _ here there => ?_) (fun failure another _ here there => ?_) first
    second
  · exact Eq.trans (Eq.symm there) here
  · exact Eq.trans here (Eq.symm there)

theorem Action.Corresponds.alike {σ τ : Type} {changeState : σ → τ} {action otherAction : Action σ α}
    {shared : Action τ β}
    (first : Corresponds Failure.SameFamily (Becomes changeState) (Becomes change) action shared)
    (second : Corresponds Failure.SameFamily (Becomes changeState) (Becomes change) otherAction
      shared) :
    Corresponds Failure.SameFamily (Alike changeState) (Alike change) action otherAction := by
  refine meet (fun state another alike => ?_) (fun _ _ _ here there => ?_)
    (fun _ _ _ here there => ?_) (fun _ _ _ here there => ?_) first second
  · exact ⟨changeState state, rfl, Eq.symm alike⟩
  · exact Eq.trans (Eq.symm there) here
  · exact Eq.trans (Eq.symm there) here
  · exact Eq.trans here (Eq.symm there)

theorem Checked.ok_of_isOk (isOk : outcome.isOk) : ∃ value, outcome = .ok value := by
  cases outcome with
  | ok value => exact ⟨value, rfl⟩
  | error => cases isOk

theorem Alike.map_eq {values others : List α} (alike : List.Forall₂ (Alike change) values others) :
    others.map change = values.map change := by
  induction alike with
  | nil => rfl
  | cons head _ ih => rw [List.map_cons, List.map_cons, head, ih]

end Alike

/-! ### Steps of loading -/

namespace Loader

variable {α β γ : Type}

/-- Whether two steps of loading, from tables that are alike, have results that are related or fail
in the same way. -/
abbrev Parallels (results : α → β → Prop) (first : Load α) (second : Load β) : Prop :=
  Action.Corresponds Failure.SameFamily
    (fun state other : LoadState => Alike SymbolTable.placeless state.table other.table) results
    first second

theorem parallels_check {results : β → γ → Prop} {outcome : Checked α} {next : α → Load β}
    {otherNext : α → Load γ}
    (continues : ∀ value, Parallels results (next value) (otherNext value)) :
    Parallels results (liftM outcome >>= next) (liftM outcome >>= otherNext) :=
  .bind_eq (.lift (.refl outcome)) continues

/-- Two requests to the table that both come to the same one if locations are left out. -/
theorem parallels_onTable {change otherChange : SymbolTable → α × SymbolTable} {strip : α → β}
    (common : SymbolTable → β × SymbolTable) (here : ∀ table, common table.placeless =
      (strip (change table).1, (change table).2.placeless))
    (there : ∀ table, common table.placeless =
      (strip (otherChange table).1, (otherChange table).2.placeless)) :
    Parallels (Alike strip) (onTable change) (onTable otherChange) := by
  intro state other alike
  have same := (there other.table).symm.trans (alike ▸ here state.table)
  exact .ok ⟨congrArg Prod.fst same, congrArg Prod.snd same⟩

theorem parallels_intern {node other : Node} (alike : Alike placeless node other) :
    Parallels (Alike placeless) (onTable fun table => table.intern node)
      (onTable fun table => table.intern other) :=
  parallels_onTable (fun table => table.intern node.placeless)
    (fun table => table.intern_placeless node)
    fun table => alike ▸ table.intern_placeless other

theorem parallels_declare (declaration : LabelDeclaration) (name : String)
    (origin otherOrigin : Origin) :
    Parallels (fun _ _ => True)
      (onTableChecked fun table => table.declare declaration name origin)
      (onTableChecked fun table => table.declare declaration name otherOrigin) := by
  intro state other alike
  obtain ⟨here, corresponds⟩ := state.table.declare_placeless name origin declaration
  obtain ⟨there, otherwise⟩ := other.table.declare_placeless name otherOrigin declaration
  rw [alike] at there otherwise
  exact (corresponds.alike otherwise).mono fun _ _ _ => ⟨trivial, there.symm.trans here⟩

/-! ### Parts of a document -/

/-- Whether a part has the value of another one without its origins, and is loaded alike. -/
def Part.LoadsAlike (part other : Part) : Prop :=
  other.value = part.value.unplaced ∧
    ∀ parent otherParent, Parallels (Alike placeless) (part.load parent) (other.load otherParent)

/-- Whether two parts are loaded alike, as nodes and as lists of nodes. -/
def Part.IsAlike (part other : Part) : Prop :=
  part.LoadsAlike other ∧ List.Forall₂ Part.LoadsAlike part.items other.items

/-- Whether two parts that stand in a field are the same data or loaded alike. -/
def Part.IsAlikeIn (kind : Option Kind) (key : String) (part other : Part) : Prop :=
  if Value.isData kind key part.value then other.value = part.value else part.IsAlike other

def Fields.AreAlike (kind : Option Kind) (fields others : Fields) : Prop :=
  ∀ key, key ≠ "origin" →
    Option.Rel (Part.IsAlikeIn kind key) (field? fields key) (field? others key)

section Objects

variable {fields others : Fields} {kind : Kind} {key : String} {origin otherOrigin : Origin}
  {part other : Part}

theorem Part.IsAlikeIn.same (alike : part.IsAlikeIn kind key other)
    (isData : Value.isData kind key part.value = true) : other.value = part.value := by
  rwa [IsAlikeIn, if_pos isData] at alike

theorem Part.IsAlikeIn.loaded (alike : part.IsAlikeIn kind key other)
    (holdsNodes : Value.isData kind key part.value = false) : part.IsAlike other := by
  rwa [IsAlikeIn, if_neg (by simp [holdsNodes])] at alike

theorem corresponds_required (alike : fields.AreAlike kind others)
    (isField : key ≠ "origin" := by decide) :
    Checked.Corresponds Failure.SameFamily (Part.IsAlikeIn kind key)
      (required kind fields key origin) (required kind others key otherOrigin) := by
  have related := alike key isField
  unfold required
  revert related
  generalize field? fields key = here
  generalize field? others key = there
  rintro (related | _)
  · exact .ok related
  · exact .error rfl

theorem optional_eq (alike : fields.AreAlike kind others) (isField : key ≠ "origin" := by decide)
    (isData : ∀ value, Value.isData kind key value = true := by exact fun _ => rfl) :
    optional others key = optional fields key := by
  have related := alike key isField
  unfold optional
  revert related
  generalize field? fields key = here
  generalize field? others key = there
  rintro (related | _)
  · exact related.same (isData _)
  · rfl

theorem isSome_field?_eq (alike : fields.AreAlike kind others)
    (isField : key ≠ "origin" := by decide) :
    (field? others key).isSome = (field? fields key).isSome := by
  have related := alike key isField
  revert related
  generalize field? fields key = here
  generalize field? others key = there
  rintro (_ | _) <;> rfl

theorem parallels_text (alike : fields.AreAlike kind others) {results : α → β → Prop}
    {next : String → Load α} {otherNext : String → Load β}
    (continues : ∀ text, Parallels results (next text) (otherNext text))
    (isField : key ≠ "origin" := by decide)
    (isData : ∀ value, Value.isData kind key value = true := by exact fun _ => rfl) :
    Parallels results (liftM (textField kind fields key origin) >>= next)
      (liftM (textField kind others key otherOrigin) >>= otherNext) := by
  have corresponds : Checked.Corresponds Failure.SameFamily Eq (textField kind fields key origin)
      (textField kind others key otherOrigin) :=
    (corresponds_required alike isField).bind fun _ _ related =>
      .ok (congrArg Value.display (related.same (isData _)).symm)
  exact .bind_eq (.lift corresponds) fun text => continues text

theorem parallels_child (alike : fields.AreAlike kind others)
    (isField : key ≠ "origin" := by decide)
    (holdsNodes : ∀ value, Value.isData kind key value = false := by exact fun _ => rfl) :
    Parallels (Alike placeless) (child kind fields key origin)
      (child kind others key otherOrigin) :=
  .bind (.lift (corresponds_required alike isField)) fun _ _ related =>
    (related.loaded (holdsNodes _)).1.2 _ _

theorem parallels_childList (alike : fields.AreAlike kind others)
    (isField : key ≠ "origin" := by decide)
    (holdsNodes : ∀ value, Value.isData kind key value = false := by exact fun _ => rfl) :
    Parallels (Alike (List.map placeless)) (childList kind fields key origin)
      (childList kind others key otherOrigin) := by
  refine .bind (.lift (corresponds_required alike isField)) fun part other related => ?_
  obtain ⟨⟨sameValue, -⟩, sameItems⟩ := related.loaded (holdsNodes _)
  rw [sameValue]
  cases part.value with
  | list =>
    refine Action.Corresponds.mono (fun _ _ related => Alike.map_eq related.1)
      (.mapM sameItems fun item _ other itemAlike => itemAlike.2 _ _)
  | _ => exact .lift (.error rfl)

theorem corresponds_immediateValue (value : Value) :
    Checked.Corresponds Failure.SameFamily Eq (immediateValue value origin)
      (immediateValue value otherOrigin) := by
  cases value with
  | text written =>
    unfold immediateValue
    dsimp only
    split
    · exact .ok rfl
    · exact .error rfl
  | _ => exact .refl _

theorem parallels_variableNamed (name : String) (writtenName : Value) : Parallels (Alike placeless)
      (onTable fun table => table.variableNamed name origin writtenName)
      (onTable fun table => table.variableNamed name otherOrigin writtenName) :=
  parallels_intern rfl

theorem parallels_variables (items : List α) (nameOf : α → String) :
    Parallels (Alike (List.map placeless))
      (items.mapM fun item => onTable fun table => table.variableNamed (nameOf item) origin)
      (items.mapM fun item => onTable fun table => table.variableNamed (nameOf item) otherOrigin) := by
  have same : List.Forall₂ Eq items items := List.forall₂_same.mpr fun _ _ => rfl
  refine Action.Corresponds.mono (fun _ _ related => Alike.map_eq related.1) (.mapM same ?_)
  rintro item _ _ rfl
  exact parallels_variableNamed _ _

theorem parallels_variableOrNode (alike : part.LoadsAlike other) :
    Parallels (Alike placeless) (variableOrNode part origin)
      (variableOrNode other otherOrigin) := by
  obtain ⟨sameValue, loads⟩ := alike
  unfold variableOrNode
  rw [sameValue]
  cases part.value with
  | text name => exact parallels_variableNamed name .null
  | _ => exact loads _ _

theorem parallels_parameters (alike : part.IsAlikeIn kind "variables" other) :
    Parallels (Alike (List.map placeless)) (parameters part origin)
      (parameters other otherOrigin) := by
  unfold parameters
  cases value : part.value with
  | list items =>
    obtain ⟨⟨sameValue, -⟩, sameItems⟩ := alike.loaded (by simp [Value.isData, value])
    rw [sameValue, value]
    exact Action.Corresponds.mono (fun _ _ related => Alike.map_eq related.1)
      (.mapM sameItems fun item _ other itemAlike => parallels_variableOrNode itemAlike)
  | object fields =>
    rw [alike.same (by simp [Value.isData, value]), value]
    exact parallels_variables fields Prod.fst
  | text characters =>
    rw [(alike.loaded (by simp [Value.isData, value])).1.1, value]
    exact parallels_variables _ fun point => Text.ofPoints [point]
  | _ =>
    rw [(alike.loaded (by simp [Value.isData, value])).1.1, value]
    exact .lift (.error rfl)

theorem parallels_scaleNode (alike : part.IsAlikeIn kind "scale" other) :
    Parallels (Alike placeless) (scaleNode part origin) (scaleNode other otherOrigin) := by
  unfold scaleNode
  cases value : part.value with
  | list items =>
    rw [alike.same (by simp [Value.isData, value]), value]
    exact .pure rfl
  | object fields =>
    obtain ⟨⟨sameValue, loads⟩, -⟩ := alike.loaded (by simp [Value.isData, value])
    rw [sameValue, value]
    exact loads _ _
  | _ =>
    rw [(alike.loaded (by simp [Value.isData, value])).1.1, value]
    exact .pure rfl

theorem parallels_referenceTo (value : Value) (offset : Int) :
    Parallels (Alike placeless) (referenceTo value origin offset)
      (referenceTo value.unplaced otherOrigin offset) := by
  unfold referenceTo
  rw [Value.toName_unplaced, Value.typeName_unplaced]
  refine parallels_check fun name => ?_
  cases name with
  | text name =>
    exact parallels_onTable (fun table => table.labelReference name .nowhere offset)
      (fun table => table.labelReference_placeless name origin offset)
      fun table => table.labelReference_placeless name otherOrigin offset
  | _ =>
    have interns : ∀ key : Name, Parallels (Alike id)
        (onTable fun table => ((), table.withLabel key origin))
        (onTable fun table => ((), table.withLabel key otherOrigin)) := fun key =>
      parallels_onTable (fun table => ((), table.withLabel key .nowhere))
        (fun table => congrArg _ (table.withLabel_placeless origin key))
        fun table => congrArg _ (table.withLabel_placeless otherOrigin key)
    exact (interns _).bind fun _ _ _ => .lift (.error rfl)

theorem parallels_declareLabel (alike : fields.AreAlike (some .labelDeclaration) others) :
    Parallels (Alike placeless) (declareLabel fields origin) (declareLabel others otherOrigin) := by
  unfold declareLabel
  refine parallels_text alike fun name => ?_
  refine .bind (.lift (corresponds_required alike)) fun word other related => ?_
  rw [(related.loaded rfl).1.1]
  have skips : Parallels (Alike placeless) (pure (.skip origin)) (pure (.skip otherOrigin)) :=
    .pure rfl
  cases word.value with
  | text written =>
    simp only [Value.unplaced]
    split
    · have declares : Parallels (Alike id)
          (onTable fun table => ((), (table.label name origin).2.noteUse name))
          (onTable fun table => ((), (table.label name otherOrigin).2.noteUse name)) := by
        refine parallels_onTable (fun table => ((), (table.label name .nowhere).2.noteUse name))
          (fun table => ?_) fun table => ?_
        · rw [table.label_placeless name origin, SymbolTable.noteUse_placeless]
        · rw [table.label_placeless name otherOrigin, SymbolTable.noteUse_placeless]
      exact declares.bind fun _ _ _ => skips
    · refine .bind (.lift (corresponds_required alike)) fun alignment other related => ?_
      rw [(related.loaded rfl).1.1, Value.toInteger_unplaced]
      refine parallels_check fun number => ?_
      exact (parallels_declare _ name origin otherOrigin).bind fun _ _ _ => skips
    · split
      · exact (parallels_declare _ name origin otherOrigin).bind fun _ _ _ => skips
      · exact fun _ _ _ => .error rfl
    · exact fun _ _ _ => .error rfl
  | _ => exact fun _ _ _ => .error rfl

theorem parallels_build (alike : fields.AreAlike (some kind) others) :
    Parallels (Alike placeless) (build kind fields origin) (build kind others otherOrigin) := by
  cases kind with
  | immediate =>
    refine .bind (.lift (corresponds_required alike)) fun part other related => ?_
    rw [related.same rfl]
    exact .bind_eq (.lift (corresponds_immediateValue part.value)) fun _ => .pure rfl
  | text =>
    exact parallels_text alike fun value => .pure rfl
  | truth | skip | trap => exact .pure rfl
  | register cls =>
    cases cls with
    | special =>
      exact parallels_text alike fun name => .pure rfl
    | _ =>
      exact parallels_text alike fun name => parallels_intern rfl
  | var =>
    rw [build, build, optional_eq alike]
    exact parallels_text alike fun name => parallels_intern rfl
  | expression | setting =>
    exact parallels_text alike fun name => parallels_intern rfl
  | fieldOffset =>
    refine parallels_text alike fun struct => ?_
    exact parallels_text alike fun field => parallels_intern rfl
  | size =>
    refine .bind (.lift (corresponds_required alike)) fun part other related => ?_
    rw [related.same rfl]
    refine parallels_check fun struct => ?_
    exact parallels_intern rfl
  | address =>
    refine .bind (parallels_child alike) fun base other sameBase => ?_
    refine .bind (parallels_child alike) fun offset other sameOffset => ?_
    refine .lift ((corresponds_makeAddress base offset).alike ?_)
    unfold Alike placeless at sameBase sameOffset
    rw [← sameBase, ← sameOffset]
    exact corresponds_makeAddress _ _
  | indexed =>
    refine .bind (.lift (corresponds_required alike)) fun part other related => ?_
    refine .bind (parallels_scaleNode related) fun scale other sameScale => ?_
    refine .bind (parallels_child alike) fun base other sameBase => ?_
    refine .bind (parallels_child alike) fun index other sameIndex => ?_
    refine .bind (parallels_child alike) fun offset other sameOffset => ?_
    refine .lift ((corresponds_makeIndexed base index scale offset).alike ?_)
    unfold Alike placeless at sameBase sameIndex sameScale sameOffset
    rw [← sameBase, ← sameIndex, ← sameScale, ← sameOffset]
    exact corresponds_makeIndexed _ _ _ _
  | absolute | unary =>
    refine .bind (parallels_child alike) fun part other samePart => ?_
    exact .pure (by simp [Alike, stripped, samePart])
  | binary =>
    refine .bind (parallels_child alike) fun left other sameLeft => ?_
    refine .bind (parallels_child alike) fun right other sameRight => ?_
    exact .pure (by simp [Alike, stripped, sameLeft, sameRight])
  | instruction =>
    have none : Parallels (Alike (List.map placeless)) (pure []) (pure []) := .pure rfl
    rw [build, build, isSome_field?_eq alike, optional_eq alike]
    split
    on_goal 1 => refine .bind (parallels_childList alike) fun operands changed sameOperands => ?_
    on_goal 2 => refine none.bind fun operands changed sameOperands => ?_
    all_goals
      refine parallels_text alike fun opcode => .pure ?_
      simpa [Alike, stripped] using sameOperands
  | call =>
    rw [build, build, optional_eq alike, optional_eq alike]
    refine parallels_text alike fun name => ?_
    refine .bind (parallels_childList alike) fun operands others sameOperands => ?_
    refine .lift ((corresponds_makeCall name operands _ _).alike ?_)
    rw [← sameOperands]
    exact corresponds_makeCall _ _ _ _
  | sequence =>
    refine .bind (parallels_childList alike) fun items others sameItems => ?_
    exact .pure (by simpa [Alike, stripped] using sameItems)
  | conditional =>
    have skips : Parallels (Alike placeless) (pure (.skip origin)) (pure (.skip otherOrigin)) :=
      .pure rfl
    have elseAlike := alike "else" (by decide)
    rw [build, build]
    revert elseAlike
    generalize field? fields "else" = here
    generalize field? others "else" = there
    rintro (@⟨part, other, related⟩ | _)
    on_goal 1 =>
      obtain ⟨sameValue, loads⟩ := (related.loaded rfl).1
      simp only [sameValue]
      cases part.value
    -- A branch that is there and not null is loaded, and else skipped.
    all_goals
      first
      | refine (loads _ _).bind fun _ _ sameElse => ?_
      | refine skips.bind fun _ _ sameElse => ?_
      refine .bind (parallels_child alike) fun _ _ samePredicate => ?_
      refine .bind (parallels_child alike) fun _ _ sameThen => ?_
      exact .pure (by simp [Alike, stripped, samePredicate, sameThen, sameElse])
  | constant =>
    refine .bind (.lift (corresponds_required alike)) fun part other related => ?_
    refine .bind (parallels_variableOrNode (related.loaded rfl).1)
      fun declared other sameDeclared => ?_
    refine .bind (parallels_child alike) fun value other sameValue => ?_
    refine .lift ((corresponds_makeConstant declared value).alike ?_)
    unfold Alike placeless at sameDeclared sameValue
    rw [← sameDeclared, ← sameValue]
    exact corresponds_makeConstant _ _
  | definition =>
    rw [build, build, optional_eq alike]
    refine .bind (.lift (corresponds_required alike)) fun part other related => ?_
    refine .bind (parallels_parameters related) fun formals others sameFormals => ?_
    refine .bind (parallels_child alike) fun body other sameBody => ?_
    exact .pure (by simpa [Alike, stripped, sameBody] using sameFormals)
  | label =>
    refine parallels_text alike fun name => ?_
    refine .bind (parallels_onTable (fun table => table.labelDefinition name .nowhere)
      (fun table => table.labelDefinition_placeless name origin)
      fun table => table.labelDefinition_placeless name otherOrigin) fun mark other sameMark => ?_
    exact .pure (congrArg Node.label sameMark)
  | localLabel =>
    refine parallels_text alike fun name => ?_
    refine .bind (parallels_onTable (fun table => table.localLabel (.text name) .nowhere)
      (fun table => table.localLabel_placeless origin _)
      fun table => table.localLabel_placeless otherOrigin _) fun mark other sameMark => ?_
    exact .pure (congrArg Node.localLabel sameMark)
  | labelReference =>
    refine .bind (.lift (corresponds_required alike)) fun part other related => ?_
    rw [(related.loaded rfl).1.1]
    have offset := alike "offset" (by decide)
    revert offset
    generalize field? fields "offset" = here
    generalize field? others "offset" = there
    rintro (@⟨offset, otherOffset, offsetAlike⟩ | _)
    · dsimp only
      rw [(offsetAlike.loaded rfl).1.1, Value.toInteger_unplaced]
      cases offset.value.toInteger with
      | ok number => exact parallels_referenceTo part.value number
      | error failure => exact fun _ _ _ => .error rfl
    · exact parallels_referenceTo part.value 0
  | localReference =>
    refine .bind (.lift (corresponds_required alike)) fun part other related => ?_
    rw [(related.loaded rfl).1.1, Value.toName_unplaced]
    refine parallels_check fun name => ?_
    refine .bind (parallels_onTable (fun table => table.localLabel name .nowhere)
      (fun table => table.localLabel_placeless origin _)
      fun table => table.localLabel_placeless otherOrigin _) fun mark other sameMark => ?_
    exact .pure (congrArg (Node.localReference .nowhere) sameMark)
  | labelDeclaration => exact parallels_declareLabel alike

end Objects

/-! ### Documents -/

theorem corresponds_originOf (filename other : String) (written : Value)
    (parent otherParent : Option Origin) :
    Checked.Corresponds Failure.SameFamily (fun _ _ => True) (originOf filename written parent)
      (originOf other written otherParent) := by
  have items : ∀ file otherFile line column : Value,
      Checked.Corresponds Failure.SameFamily (fun _ _ => True) (originOfItems file line column)
        (originOfItems otherFile line column) := fun _ _ line column =>
    (Checked.Corresponds.refl line.toInteger).bind fun _ _ _ =>
      (Checked.Corresponds.refl column.toInteger).bind fun _ _ _ => .ok trivial
  unfold originOf
  split
  · exact .ok trivial
  all_goals first
    | exact items _ _ _ _
    | exact .error rfl

theorem originOf_ok {written : Value} (isOrigin : written.isOrigin) (filename : String)
    (parent : Option Origin) : ∃ origin, originOf filename written parent = .ok origin := by
  have items : ∀ file line column : Value, line.toInteger.isOk → column.toInteger.isOk →
      ∃ origin, originOfItems file line column = .ok origin := by
    intro file line column lineOk columnOk
    obtain ⟨lineNumber, lineRead⟩ := Checked.ok_of_isOk lineOk
    obtain ⟨columnNumber, columnRead⟩ := Checked.ok_of_isOk columnOk
    exact ⟨⟨file.display, lineNumber, columnNumber⟩, by
      rw [originOfItems, lineRead, columnRead]
      rfl⟩
  unfold originOf
  unfold Value.isOrigin at isOrigin
  split at isOrigin
  · exact ⟨_, rfl⟩
  · rw [Bool.and_eq_true] at isOrigin
    exact items _ _ _ isOrigin.1 isOrigin.2
  · exact items _ _ _ rfl rfl
  · exact items _ _ _ isOrigin rfl
  · rw [Bool.and_eq_true] at isOrigin
    exact items _ _ _ isOrigin.1 isOrigin.2
  · cases isOrigin

theorem parallels_loadObject (filename other : String) {fields changed : List (String × Value)}
    (isChanged : changed =
      Value.unplacedFields (Value.isPlaced fields) (Value.kindOf? fields) fields)
    (alike : Fields.AreAlike (Value.kindOf? fields) (fieldParts filename fields)
      (fieldParts other changed)) (parent otherParent : Option Origin) :
    Parallels (Alike placeless) (loadObject filename (fieldParts filename fields) parent)
      (loadObject other (fieldParts other changed) otherParent) := by
  have origins : Checked.Corresponds Failure.SameFamily (fun _ _ => True)
      (originOf filename (optional (fieldParts filename fields) "origin") parent)
      (originOf other (optional (fieldParts other changed) "origin") otherParent) := by
    rw [optional_fieldParts, optional_fieldParts, isChanged, Value.get?_origin_unplacedFields]
    cases placed : Value.isPlaced fields with
    | true =>
      obtain ⟨origin, read⟩ := originOf_ok placed filename parent
      rw [read]
      exact .ok trivial
    | false => exact corresponds_originOf filename other _ parent otherParent
  have kinds : optional (fieldParts other changed) "kind" =
      (optional (fieldParts filename fields) "kind").unplaced := by
    rw [optional_fieldParts, optional_fieldParts, isChanged, Value.get?_unplacedFields (by decide)]
    cases Association.get? fields "kind" with
    | none => rfl
    | some value => rfl
  unfold loadObject
  refine .bind (.lift origins) fun origin otherOrigin _ => ?_
  dsimp only
  rw [kinds, Value.toName_unplaced, optional_fieldParts]
  refine parallels_check fun _ => ?_
  cases written : (Association.get? fields "kind").getD .null with
  | text name =>
    have named : Value.kindOf? fields = Kind.ofName? name := by
      unfold Value.kindOf?
      cases found : Association.get? fields "kind" with
      | none =>
        rw [found] at written
        cases written
      | some value =>
        rw [found] at written
        obtain rfl : value = .text name := written
        rfl
    rw [named] at alike
    dsimp only [Value.unplaced]
    split
    · rename_i kind found
      rw [found] at alike
      have counts : Parallels (fun _ _ => True) countNode countNode :=
        Action.Corresponds.modify fun _ _ same => same
      exact counts.bind fun _ _ _ => parallels_build alike
    · exact .lift (.error rfl)
  | _ => exact .lift (.error rfl)

mutual

theorem isAlike_part (filename other : String) : ∀ value : Value,
    (part filename value).IsAlike (part other value.unplaced)
  | .object fields =>
    ⟨⟨rfl, parallels_loadObject filename other rfl
        (areAlike_fieldParts filename other _ (Value.kindOf? fields) fields)⟩, .nil⟩
  | .list items => ⟨⟨rfl, fun _ _ => .lift (.error rfl)⟩, loadsAlike_itemParts filename other items⟩
  | .null | .truth _ | .integer _ | .real _ | .text _ => ⟨⟨rfl, fun _ _ => .lift (.error rfl)⟩, .nil⟩

theorem loadsAlike_itemParts (filename other : String) : ∀ values : List Value,
    List.Forall₂ Part.LoadsAlike (itemParts filename values)
      (itemParts other (Value.unplacedItems values))
  | [] => .nil
  | value :: rest =>
    .cons (isAlike_part filename other value).1 (loadsAlike_itemParts filename other rest)

theorem areAlike_fieldParts (filename other : String) (placed : Bool) (kind : Option Kind) :
    ∀ fields : List (String × Value), Fields.AreAlike kind (fieldParts filename fields)
      (fieldParts other (Value.unplacedFields placed kind fields))
  | [] => fun _ _ => .none
  | (name, value) :: rest => by
    intro key isField
    have restAlike := areAlike_fieldParts filename other placed kind rest key isField
    have here := isAlike_part filename other value
    rw [Value.unplacedFields]
    unfold field? at restAlike ⊢
    by_cases isOrigin : name = "origin"
    · have differs : name ≠ key := fun same => isField (same.symm.trans isOrigin)
      rw [if_pos isOrigin, fieldParts, Association.get?_cons, if_neg differs]
      split
      · exact restAlike
      · rwa [fieldParts, Association.get?_cons, if_neg differs]
    · rw [if_neg isOrigin, fieldParts, Association.get?_cons]
      have same : ∀ given, Part.IsAlikeIn kind name (part filename value) (part other given) →
          Option.Rel (Part.IsAlikeIn kind key)
            (if name = key then some (part filename value) else
              Association.get? (fieldParts filename rest) key)
            (Association.get? (fieldParts other
              ((name, given) :: Value.unplacedFields placed kind rest)) key) := by
        intro given related
        rw [fieldParts, Association.get?_cons]
        by_cases sameKey : name = key
        · rw [if_pos sameKey, if_pos sameKey]
          exact .some (sameKey ▸ related)
        · rwa [if_neg sameKey, if_neg sameKey]
      by_cases isData : Value.isData kind name value
      · rw [if_pos isData]
        refine same value ?_
        rw [Part.IsAlikeIn, value_part, if_pos isData, value_part]
      · rw [if_neg isData]
        refine same value.unplaced ?_
        rw [Part.IsAlikeIn, value_part, if_neg isData]
        exact here

end

end Loader

/-- Documents that only differ in their origins are loaded to trees that only differ in locations,
or neither can be loaded. -/
theorem Loader.parallels_load {document other : Value} (same : document.unplaced = other.unplaced)
    (filename otherFilename : String) :
    Parallels (Alike placeless) (load filename document) (load otherFilename other) := by
  have here := (isAlike_part filename filename document).1.2 none none
  have there := (isAlike_part otherFilename filename other).1.2 none none
  rw [← same] at there
  refine Action.Corresponds.meet (fun state another alike => ?_) (fun _ _ _ first second => ?_)
    (fun _ _ _ first second => ?_) (fun _ _ _ first second => ?_) here there
  · exact ⟨state, rfl, Eq.symm alike⟩
  · exact Eq.trans (Eq.symm second) first
  · exact Eq.trans (Eq.symm second) first
  · exact Eq.trans first (Eq.symm second)

theorem SymbolTable.corresponds_load {table otherTable : SymbolTable} {document other : Value}
    (sameTable : Alike placeless table otherTable) (same : document.unplaced = other.unplaced)
    (filename otherFilename : String) : Checked.Corresponds Failure.SameFamily
      (fun loaded otherLoaded => Alike Node.placeless loaded.1 otherLoaded.1 ∧
        Alike placeless (table.load document filename).2 (otherTable.load other otherFilename).2)
      (table.load document filename).1 (otherTable.load other otherFilename).1 := by
  have loads := Loader.parallels_load same filename otherFilename { table := table }
    { table := otherTable } sameTable
  unfold SymbolTable.load
  revert loads
  generalize (Loader.load filename document).perform { table := table } = run
  generalize (Loader.load otherFilename other).perform { table := otherTable } = otherRun
  obtain ⟨outcome, after⟩ := run
  obtain ⟨otherOutcome, otherAfter⟩ := otherRun
  rintro (kept | related)
  · exact .ok kept
  · exact .error related

end MacroAssembler
