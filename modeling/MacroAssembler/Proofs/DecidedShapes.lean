/-
This module says what becomes of a node whose parts are there: the functions that build nodes give
the node with just these parts if its shape admits them, and fail otherwise.

The failure is the diagnostic for malformed nodes. The diagnostic shows the part that is at fault,
so the part is written first. If it cannot be written, because it holds a bare value in the place of
a scale or a name that is no text, the failure is the one that writing it ends in.
-/
import MacroAssembler.Proofs.BuiltTrees

namespace MacroAssembler

def Failure.IsMalformed (failure : Failure) : Prop :=
  ∃ diagnostic, failure = .diagnostic diagnostic ∧ diagnostic.cause.kind = .malformedNode

/-- Whether a failure blames one of some parts: it is the diagnostic for malformed nodes, or what
happens when the part is to be written for it. -/
def Failure.Blames (failure : Failure) (parts : List Node) : Prop :=
  failure.IsMalformed ∨ ∃ part ∈ parts, part.dump = .error failure

def Shape.Decides (shape : Shape) (parts : List Node) (outcome : Checked Node) : Prop :=
  (shape.Admits parts →
    ∃ node, outcome = .ok node ∧ node.shape? = some shape ∧ node.children = parts) ∧
  (¬ shape.Admits parts → ∃ failure, outcome = .error failure ∧ failure.Blames parts)

namespace Node

theorem isMalformed_report {cause : Cause} {location : Option Origin} {construct : Option String}
    (malformed : cause.kind = .malformedNode) :
    (Failure.diagnostic ⟨cause, location, construct⟩).IsMalformed :=
  ⟨_, rfl, malformed⟩

variable {parts : List Node} {failure : Failure} {origin : Origin} {shape : Shape}

theorem blames_shown {part : Node} {cause : String → Cause} {α : Type}
    (malformed : ∀ shown, (cause shown).kind = .malformedNode) (mem : part ∈ parts)
    (failed : (part.dump >>= fun shown => report (cause shown) origin : Checked α) =
      .error failure) : failure.Blames parts := by
  rcases Checked.bind_error.mp failed with early | ⟨shown, -, late⟩
  · exact .inr ⟨part, mem, early⟩
  · cases late
    exact .inl (isMalformed_report (malformed shown))

theorem blames_checkBase {base : Node} (failed : checkBase origin base = .error failure)
    (mem : base ∈ parts) : failure.Blames parts := by
  unfold checkBase at failed
  split at failed
  · cases failed
  · exact blames_shown (fun _ => rfl) mem failed

theorem blames_checkIndex {index : Node} (failed : checkIndex origin index = .error failure)
    (mem : index ∈ parts) : failure.Blames parts := by
  unfold checkIndex at failed
  split at failed
  · cases failed
  · exact blames_shown (fun _ => rfl) mem failed

theorem blames_checkOffset {offset : Node} (failed : checkOffset origin offset = .error failure)
    (mem : offset ∈ parts) : failure.Blames parts := by
  unfold checkOffset at failed
  split at failed
  · cases failed
  · exact blames_shown (fun _ => rfl) mem failed

theorem blames_checkScale {scale : Node} (failed : checkScale origin scale = .error failure) :
    failure.Blames parts := by
  unfold checkScale at failed
  split at failed
  · split at failed
    · cases failed
    · cases failed
      exact .inl (isMalformed_report rfl)
  · cases failed
    exact .inl (isMalformed_report rfl)
  · cases failed

theorem decides_of {outcome : Checked Node} {target : Node}
    (accepts : ∀ node, outcome = .ok node ↔ shape.Admits parts ∧ node = target)
    (shaped : target.shape? = some shape) (ofParts : target.children = parts)
    (blames : ∀ failure, outcome = .error failure → failure.Blames parts) :
    shape.Decides parts outcome := by
  constructor
  · intro admits
    exact ⟨target, (accepts target).mpr ⟨admits, rfl⟩, shaped, ofParts⟩
  · intro refused
    rcases outcome with failure | node
    · exact ⟨failure, rfl, blames failure rfl⟩
    · exact absurd ((accepts node).mp rfl).1 refused

theorem decides_makeAddress (origin : Origin) (base offset : Node) :
    Shape.address.Decides [base, offset] (makeAddress origin base offset) := by
  have accepts : ∀ node, makeAddress origin base offset = .ok node ↔
      Shape.address.Admits [base, offset] ∧ node = .address origin base offset := by
    intro node
    rw [makeAddress_ok, isAddressPart_iff, isOffset_iff]
    rfl
  refine decides_of accepts rfl rfl fun failure failed => ?_
  rcases Checked.bind_error.mp failed with early | ⟨_, -, failed⟩
  · exact blames_checkBase early (by simp)
  rcases Checked.bind_error.mp failed with early | ⟨_, -, failed⟩
  · exact blames_checkOffset early (by simp)
  · cases failed

theorem decides_makeIndexed (origin : Origin) (base index scale offset : Node) :
    Shape.indexed.Decides [base, index, scale, offset]
      (makeIndexed origin base index scale offset) := by
  have accepts : ∀ node, makeIndexed origin base index scale offset = .ok node ↔
      Shape.indexed.Admits [base, index, scale, offset] ∧
        node = .indexed origin base index scale offset := by
    intro node
    rw [makeIndexed_ok, isAddressPart_iff, isAddressPart_iff, isOffset_iff, isScale_iff,
      and_comm (b := scale.IsLegalScale)]
    rfl
  refine decides_of accepts rfl rfl fun failure failed => ?_
  rcases Checked.bind_error.mp failed with early | ⟨_, -, failed⟩
  · exact blames_checkBase early (by simp)
  rcases Checked.bind_error.mp failed with early | ⟨_, -, failed⟩
  · exact blames_checkIndex early (by simp)
  rcases Checked.bind_error.mp failed with early | ⟨_, -, failed⟩
  · exact blames_checkOffset early (by simp)
  rcases Checked.bind_error.mp failed with early | ⟨_, -, failed⟩
  · exact blames_checkScale early
  · cases failed

theorem decides_makeCall (origin : Origin) (name : String) (operands : List Node)
    (comment writtenName : Value) :
    Shape.call.Decides operands (makeCall origin name operands comment writtenName) := by
  refine decides_of (fun node => makeCall_ok) rfl rfl fun failure failed => ?_
  unfold makeCall at failed
  split at failed
  · cases failed
    exact .inl (isMalformed_report rfl)
  · cases failed

theorem decides_makeConstant (origin : Origin) (declared value : Node) :
    Shape.constant.Decides [declared, value] (makeConstant origin declared value) := by
  constructor
  · intro isVariable
    cases declared with
    | var binding => exact ⟨_, rfl, rfl, rfl⟩
    | _ => cases isVariable
  · intro refused
    rcases outcome : makeConstant origin declared value with failure | node
    · refine ⟨failure, rfl, ?_⟩
      unfold makeConstant at outcome
      split at outcome
      · cases outcome
      · exact blames_shown (fun _ => rfl) (by simp) outcome
    · obtain ⟨binding, rfl, -⟩ := makeConstant_ok.mp outcome
      exact absurd rfl refused

theorem decides_makeLabelReference (origin : Origin) (target : Node) (offset : Int) :
    Shape.labelReference.Decides [target] (makeLabelReference origin target offset) := by
  constructor
  · intro isLabel
    cases target with
    | label mark => exact ⟨_, rfl, rfl, rfl⟩
    | _ => cases isLabel
  · intro refused
    rcases outcome : makeLabelReference origin target offset with failure | node
    · refine ⟨failure, rfl, ?_⟩
      unfold makeLabelReference at outcome
      split at outcome
      · cases outcome
      · exact blames_shown (fun _ => rfl) (by simp) outcome
    · obtain ⟨mark, rfl, -⟩ := makeLabelReference_ok.mp outcome
      exact absurd rfl refused

theorem decides_makeLocalReference (origin : Origin) (target : Node) :
    Shape.localReference.Decides [target] (makeLocalReference origin target) := by
  constructor
  · intro isLabel
    cases target with
    | localLabel mark => exact ⟨_, rfl, rfl, rfl⟩
    | _ => cases isLabel
  · intro refused
    rcases outcome : makeLocalReference origin target with failure | node
    · refine ⟨failure, rfl, ?_⟩
      unfold makeLocalReference at outcome
      split at outcome
      · cases outcome
      · exact blames_shown (fun _ => rfl) (by simp) outcome
    · obtain ⟨mark, rfl, -⟩ := makeLocalReference_ok.mp outcome
      exact absurd rfl refused

theorem decides_rebuild {node : Node} (shaped : node.shape? = some shape)
    (sameNumber : parts.length = node.children.length) :
    shape.Decides parts (node.rebuild parts) := by
  cases node with
  | address origin base offset =>
    cases shaped
    match parts, sameNumber with
    | [base, offset], _ => exact decides_makeAddress origin base offset
  | indexed origin base index scale offset =>
    cases shaped
    match parts, sameNumber with
    | [base, index, scale, offset], _ => exact decides_makeIndexed origin base index scale offset
  | call origin name operands comment writtenName =>
    cases shaped
    exact decides_makeCall origin name parts comment writtenName
  | constant origin binding value =>
    cases shaped
    match parts, sameNumber with
    | [declared, value], _ => exact decides_makeConstant origin declared value
  | labelReference origin mark offset =>
    cases shaped
    match parts, sameNumber with
    | [target], _ => exact decides_makeLabelReference origin target offset
  | localReference origin mark =>
    cases shaped
    match parts, sameNumber with
    | [target], _ => exact decides_makeLocalReference origin target
  | _ => cases shaped

theorem decides_mapChildren {σ : Type} {replace : Node → Action σ Node} {node : Node}
    {state after : σ} (shaped : node.shape? = some shape)
    (replaced : (node.children.mapM replace).perform state = (.ok parts, after)) :
    shape.Decides parts ((node.mapChildren replace).perform state).1 := by
  obtain ⟨-, related⟩ := Action.perform_mapM_ok (fun _ => True) (fun _ _ => True)
    (fun _ _ _ _ _ _ _ => ⟨trivial, trivial⟩) trivial replaced
  rw [mapChildren_eq, Action.perform_bind, replaced]
  exact decides_rebuild shaped related.length_eq.symm

end Node

end MacroAssembler
