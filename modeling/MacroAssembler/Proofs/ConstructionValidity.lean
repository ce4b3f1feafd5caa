/-
This module proves that no step makes a node that breaks the rules of the tree.

Trees are obtained from documents by loading and then by any steps in any order: taking a part,
folding, expanding with an expander that has expanded other trees before, replacing parts, giving an
instruction other operands, and moving an address or a reference. Every tree that is obtained is
built by the rules.

A step that puts a node together has its parts first.
-/
import MacroAssembler.Emission.Operand
import MacroAssembler.Proofs.DecidedShapes

namespace MacroAssembler

open Action List Node

/-! ### Trees that can be obtained -/

/-- The state of an expander after it was asked to expand some trees, whatever became of them. -/
def Expander.afterAll (state : Expander) : List (Int × Node) → Expander
  | [] => state
  | (limit, tree) :: rest => ((expand limit tree).perform state).2.afterAll rest

/-- A tree that steps lead to from documents. -/
inductive Obtained : Node → Prop
  | load {table after : SymbolTable} {document : Value} {filename : String} {tree : Node}
      {count : Nat} (succeeded : table.load document filename = (.ok (tree, count), after)) :
      Obtained tree
  | part {tree part : Node} (obtained : Obtained tree) (member : part ∈ tree.flatten) :
      Obtained part
  | fold {tree result : Node} {config : Configuration} {counts : FoldCounts}
      (obtained : Obtained tree)
      (succeeded : tree.foldedWith config = .ok (result, counts)) : Obtained result
  | expand {table : SymbolTable} {earlier : List (Int × Node)} {limit : Int}
      {tree result : Node} {after : Expander}
      (obtainedEarlier : ∀ step ∈ earlier, Obtained step.2) (obtained : Obtained tree)
      (succeeded : (Expander.expand limit tree).perform
        (Expander.afterAll { table := table } earlier) = (.ok result, after)) : Obtained result
  | rewrite {σ : Type} {replace : Node → Action σ Node} {tree result : Node} {state after : σ}
      (obtained : Obtained tree)
      (obtainedParts : ∀ child ∈ tree.children, ∀ state after part,
        (replace child).perform state = (.ok part, after) → Obtained part)
      (succeeded : (tree.mapChildren replace).perform state = (.ok result, after)) :
      Obtained result
  | withOperands {tree result : Node} {operands : List Node} (obtained : Obtained tree)
      (obtainedOperands : ∀ operand ∈ operands, Obtained operand)
      (succeeded : tree.withOperands operands = .ok result) : Obtained result
  | withOffset {tree result : Node} {extra : Int} (obtained : Obtained tree)
      (succeeded : tree.withOffset extra = .ok result) : Obtained result
  | plusOffset {tree result : Node} {extra : Int} (obtained : Obtained tree)
      (succeeded : tree.plusOffset extra = .ok result) : Obtained result
  | shifted {tree result : Node} {config : Configuration} {extra : Int}
      (obtained : Obtained tree) (succeeded : tree.shifted config extra = .ok result) :
      Obtained result

variable {tree : Node} {origin : Origin} {shape : Shape}

theorem Node.IsBuilt.part {part : Node} (built : tree.IsBuilt) (mem : part ∈ tree.flatten) :
    part.IsBuilt := by
  induction tree with
  | step node ih =>
    rw [flatten_eq] at mem
    rcases mem_cons.mp mem with rfl | below
    · exact built
    · obtain ⟨child, childMem, inside⟩ := mem_flattenAll.mp below
      exact ih child childMem (built.below childMem) inside

/-- The operands and macros that an expander knows stay built, whatever becomes of the trees that
it is given. -/
theorem Expander.knows_afterAll {state : Expander} (known : state.Knows KeepsShape KeepsShape)
    {steps : List (Int × Node)} (built : ∀ step ∈ steps, step.2.IsBuilt) :
    (state.afterAll steps).Knows KeepsShape KeepsShape := by
  induction steps generalizing state with
  | nil => exact known
  | cons step rest ih =>
    obtain ⟨here, others⟩ := forall_mem_cons.mp built
    exact ih (carries_expand step.1 here state known).1 others

variable {offset : Node}

/-- A memory operand with another offset that is a number is built. -/
theorem Node.IsBuilt.address {base : Node} (built : (Node.address origin base offset).IsBuilt)
    (place : Origin) (value : Int) :
    (Node.address origin base (.immediate place value)).IsBuilt := by
  refine isBuilt_iff.mpr ⟨fun shape shaped => ?_, ?_⟩
  · cases shaped
    exact ⟨(built.here _ rfl).1, .inl rfl⟩
  · exact forall_mem_cons.mpr ⟨built.below (by simp [children]),
      forall_mem_singleton.mpr (isBuilt_leaf rfl rfl)⟩

theorem Node.IsBuilt.indexed {base index scale : Node}
    (built : (Node.indexed origin base index scale offset).IsBuilt) (place : Origin) (value : Int) :
    (Node.indexed origin base index scale (.immediate place value)).IsBuilt := by
  refine isBuilt_iff.mpr ⟨fun shape shaped => ?_, ?_⟩
  · cases shaped
    obtain ⟨baseRule, indexRule, scaleRule, -⟩ := built.here _ rfl
    exact ⟨baseRule, indexRule, scaleRule, .inl rfl⟩
  · intro child mem
    simp only [children, mem_cons, not_mem_nil, or_false] at mem
    rcases mem with rfl | rfl | rfl | rfl
    · exact built.below (by simp [children])
    · exact built.below (by simp [children])
    · exact built.below (by simp [children])
    · exact isBuilt_leaf rfl rfl

theorem Node.isBuilt_absolute (origin place : Origin) (value : Int) :
    (Node.absolute origin (.immediate place value)).IsBuilt :=
  isBuilt_of_shapeless rfl (forall_mem_singleton.mpr (isBuilt_leaf rfl rfl))

variable {result : Node}

theorem Node.IsBuilt.withOffset {extra : Int} (built : tree.IsBuilt)
    (ran : tree.withOffset extra = .ok result) : result.IsBuilt := by
  unfold Node.withOffset at ran
  split at ran
  · obtain ⟨current, -, made⟩ := Checked.bind_ok.mp ran
    obtain ⟨-, rfl⟩ := makeAddress_ok.mp made
    exact built.address _ _
  · obtain ⟨current, -, made⟩ := Checked.bind_ok.mp ran
    obtain ⟨-, rfl⟩ := makeIndexed_ok.mp made
    exact built.indexed _ _
  · obtain ⟨current, -, made⟩ := Checked.bind_ok.mp ran
    cases made
    exact isBuilt_absolute _ _ _
  · cases ran

theorem Node.shifted_address (config : Configuration) (origin : Origin)
    (base offset : Node) (extra : Int) : (Node.address origin base offset).shifted config extra =
      offset.immediateValue config >>= fun value =>
        .ok (.address origin base (.immediate origin (value + extra))) := by
  simp only [Node.shifted, Memory.ofNode?, Memory.shifted]
  cases offset.immediateValue config <;> rfl

theorem Node.shifted_indexed (config : Configuration) (origin : Origin)
    (base index scale offset : Node) (extra : Int) :
    (Node.indexed origin base index scale offset).shifted config extra =
      offset.immediateValue config >>= fun value =>
        .ok (.indexed origin base index scale (.immediate origin (value + extra))) := by
  simp only [Node.shifted, Memory.ofNode?, Memory.shifted]
  cases offset.immediateValue config <;> rfl

theorem Node.shifted_absolute (config : Configuration) (origin : Origin) (place : Node)
    (extra : Int) : (Node.absolute origin place).shifted config extra =
      place.immediateValue config >>= fun value =>
        .ok (.absolute origin (.immediate origin (value + extra))) := by
  simp only [Node.shifted, Memory.ofNode?, Memory.shifted]
  cases place.immediateValue config <;> rfl

theorem Node.IsBuilt.shifted {config : Configuration} {extra : Int} (built : tree.IsBuilt)
    (ran : tree.shifted config extra = .ok result) : result.IsBuilt := by
  cases tree with
  | address origin base offset =>
    rw [shifted_address] at ran
    obtain ⟨value, -, made⟩ := Checked.bind_ok.mp ran
    cases made
    exact built.address _ _
  | indexed origin base index scale offset =>
    rw [shifted_indexed] at ran
    obtain ⟨value, -, made⟩ := Checked.bind_ok.mp ran
    cases made
    exact built.indexed _ _
  | absolute origin place =>
    rw [shifted_absolute] at ran
    obtain ⟨value, -, made⟩ := Checked.bind_ok.mp ran
    cases made
    exact isBuilt_absolute _ _ _
  | _ =>
    obtain ⟨_, -, impossible⟩ := Checked.bind_ok.mp ran
    cases impossible

theorem Obtained.isBuilt (obtained : Obtained tree) : tree.IsBuilt := by
  induction obtained with
  | load ran => exact (SymbolTable.loads_load ran).isBuilt _ mem_cons_self
  | part _ mem built => exact built.part mem
  | fold _ ran built => exact built.foldedWith ran
  | @expand table earlier limit tree result after _ _ ran builtEarlier built =>
    have known := Expander.knows_afterAll (Expander.knows_fresh table) builtEarlier
    exact ((Expander.carries_expand limit built).ok known ran).2
  | @rewrite σ replace tree result state after _ _ ran built builtParts =>
    have each : ∀ child ∈ tree.children,
        Action.Ensures (fun _ : σ => True) IsBuilt (replace child) := by
      intro child mem state _
      refine ⟨trivial, fun part given => ?_⟩
      exact builtParts child mem _ _ _ (perform_of_fst given)
    exact ((ensures_mapChildren built each).ok trivial ran).2
  | @withOperands tree result operands _ _ ran built builtOperands =>
    cases tree with
    | instruction =>
      cases ran
      exact isBuilt_of_shapeless rfl builtOperands
    | _ => cases ran
  | withOffset _ ran built => exact built.withOffset ran
  | @plusOffset tree result extra _ ran built =>
    cases tree with
    | labelReference =>
      cases ran
      exact isBuilt_reference rfl
    | _ => cases ran
  | shifted _ ran built => exact built.shifted ran

/-! ### Steps that make a node -/

variable {parts : List Node}

namespace Loader

def shapeOf? : Kind → Option Shape
  | .address => some .address
  | .indexed => some .indexed
  | .call => some .call
  | .constant => some .constant
  | _ => none

/-- The parts that the node of an object is put together from. -/
def loadParts (kind : Kind) (fields : Fields) (origin : Origin) : Load (List Node) :=
  match kind with
  | .address => do
    let base ← child kind fields "base" origin
    let offset ← child kind fields "offset" origin
    return [base, offset]
  | .indexed => do
    let scalePart ← required kind fields "scale" origin
    let scale ← scaleNode scalePart origin
    let base ← child kind fields "base" origin
    let index ← child kind fields "index" origin
    let offset ← child kind fields "offset" origin
    return [base, index, scale, offset]
  | .call => do
    let _ ← textField kind fields "name" origin
    childList kind fields "operands" origin
  | .constant => do
    let part ← required kind fields "variable" origin
    let declared ← variableOrNode part origin
    let value ← child kind fields "value" origin
    return [declared, value]
  | _ => return []

theorem decides_build {kind : Kind} {fields : Fields} {state after : LoadState}
    (shaped : shapeOf? kind = some shape)
    (loaded : (loadParts kind fields origin).perform state = (.ok parts, after)) :
    shape.Decides parts ((build kind fields origin).perform state).1 := by
  cases kind with
  | address =>
    cases shaped
    simp only [loadParts, perform_bind_ok, pure_ok] at loaded
    obtain ⟨base, _, loadsBase, offset, _, loadsOffset, rfl, rfl⟩ := loaded
    simp only [build, perform_bind, loadsBase, loadsOffset, perform_lift]
    exact decides_makeAddress origin base offset
  | indexed =>
    cases shaped
    simp only [loadParts, perform_bind_ok, perform_pure, perform_lift,
      Prod.mk.injEq, Except.ok.injEq] at loaded
    obtain ⟨part, _, ⟨found, rfl⟩, scale, _, loadsScale, base, _, loadsBase, index, _, loadsIndex,
      offset, _, loadsOffset, rfl, rfl⟩ := loaded
    simp only [build, perform_bind, perform_lift, found, loadsScale, loadsBase,
      loadsIndex, loadsOffset]
    exact decides_makeIndexed origin base index scale offset
  | call =>
    cases shaped
    simp only [loadParts, perform_bind_ok, perform_lift, Prod.mk.injEq] at loaded
    obtain ⟨name, _, ⟨found, rfl⟩, loadsOperands⟩ := loaded
    simp only [build, perform_bind, perform_lift, found, loadsOperands]
    exact decides_makeCall origin name parts _ _
  | constant =>
    cases shaped
    simp only [loadParts, perform_bind_ok, perform_pure, perform_lift,
      Prod.mk.injEq, Except.ok.injEq] at loaded
    obtain ⟨part, _, ⟨found, rfl⟩, declared, _, loadsDeclared, value, _, loadsValue, rfl, rfl⟩ :=
      loaded
    simp only [build, perform_bind, perform_lift, found, loadsDeclared, loadsValue]
    exact decides_makeConstant origin declared value
  | _ => cases shaped

end Loader

/-- A step that has the given parts to make a node of a shape from, and its outcome. -/
inductive Makes : Shape → List Node → Checked Node → Prop
  | load {kind : Kind} {fields : Loader.Fields} {origin : Origin} {shape : Shape}
      {parts : List Node} {state after : LoadState} (shaped : Loader.shapeOf? kind = some shape)
      (loaded : (Loader.loadParts kind fields origin).perform state = (.ok parts, after)) :
      Makes shape parts ((Loader.build kind fields origin).perform state).1
  | fold {node : Node} {config : Configuration} {shape : Shape} {parts : List Node}
      {counts after : FoldCounts} (shaped : node.shape? = some shape)
      (folded : (node.children.mapM (Folding.fold config)).perform counts = (.ok parts, after)) :
      Makes shape parts ((Folding.fold config node).perform counts).1
  | substitute {node : Node} {shape : Shape} {parts : List Node} {state after : Expander}
      (shaped : node.shape? = some shape) (notReference : node.isReference = false)
      (substituted : (node.children.mapM Expander.substitute).perform state = (.ok parts, after)) :
      Makes shape parts ((Expander.substitute node).perform state).1
  | rewrite {σ : Type} {replace : Node → Action σ Node} {node : Node} {shape : Shape}
      {parts : List Node} {state after : σ} (shaped : node.shape? = some shape)
      (replaced : (node.children.mapM replace).perform state = (.ok parts, after)) :
      Makes shape parts ((node.mapChildren replace).perform state).1
  | addressOffset {origin : Origin} {base offset : Node} {current : Int} (extra : Int)
      (literal : literalOffset origin offset = .ok current) :
      Makes .address [base, .immediate origin (current + extra)]
        ((Node.address origin base offset).withOffset extra)
  | indexedOffset {origin : Origin} {base index scale offset : Node} {current : Int} (extra : Int)
      (literal : literalOffset origin offset = .ok current) :
      Makes .indexed [base, index, scale, .immediate origin (current + extra)]
        ((Node.indexed origin base index scale offset).withOffset extra)
  | referenceOffset (origin : Origin) (mark : Label) (offset extra : Int) :
      Makes .labelReference [.label mark]
        ((Node.labelReference origin mark offset).plusOffset extra)
  | addressShift {origin : Origin} {base offset : Node} {config : Configuration}
      {value : Int} (extra : Int) (obtained : Obtained (.address origin base offset))
      (evaluated : offset.immediateValue config = .ok value) :
      Makes .address [base, .immediate origin (value + extra)]
        ((Node.address origin base offset).shifted config extra)
  | indexedShift {origin : Origin} {base index scale offset : Node}
      {config : Configuration} {value : Int} (extra : Int)
      (obtained : Obtained (.indexed origin base index scale offset))
      (evaluated : offset.immediateValue config = .ok value) :
      Makes .indexed [base, index, scale, .immediate origin (value + extra)]
        ((Node.indexed origin base index scale offset).shifted config extra)

theorem Makes.decides {outcome : Checked Node} (makes : Makes shape parts outcome) :
    shape.Decides parts outcome := by
  cases makes with
  | @load kind fields origin _ _ state after shaped loaded =>
    exact Loader.decides_build shaped loaded
  | @fold node config _ _ counts after shaped folded =>
    rw [Folding.fold_eq_mapChildren]
    · exact decides_mapChildren shaped folded
    all_goals cases node <;> first | rfl | cases shaped
  | @substitute node _ _ state after shaped notReference substituted =>
    rw [Expander.substitute_eq_mapChildren _ notReference]
    · exact decides_mapChildren shaped substituted
    all_goals cases node <;> first | rfl | cases shaped
  | rewrite shaped replaced => exact decides_mapChildren shaped replaced
  | @addressOffset origin base offset current extra literal =>
    rw [withOffset, literal]
    exact decides_makeAddress origin base _
  | @indexedOffset origin base index scale offset current extra literal =>
    rw [withOffset, literal]
    exact decides_makeIndexed origin base index scale _
  | referenceOffset origin mark offset extra =>
    exact ⟨fun _ => ⟨_, rfl, rfl, rfl⟩, fun refused => absurd rfl refused⟩
  | @addressShift origin base offset config value extra obtained evaluated =>
    rw [shifted_address, evaluated]
    have built := obtained.isBuilt.address origin (value + extra)
    exact ⟨fun _ => ⟨_, rfl, rfl, rfl⟩, fun refused => absurd (built.here _ rfl) refused⟩
  | @indexedShift origin base index scale offset config value extra obtained evaluated =>
    rw [shifted_indexed, evaluated]
    have built := obtained.isBuilt.indexed origin (value + extra)
    exact ⟨fun _ => ⟨_, rfl, rfl, rfl⟩, fun refused => absurd (built.here _ rfl) refused⟩

end MacroAssembler
