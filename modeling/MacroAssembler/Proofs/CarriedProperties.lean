/-
This module carries a property of nodes through folding and expansion.

Both passes put trees together from parts of the trees they are given. The nodes they make of their
own are of a few kinds, a node around changed parts is built anew from the node that was there, and
the labels of invocations are fresh. So a property that the nodes of these kinds and fresh labels
have, and that a given node has and keeps when it is built anew, holds of all nodes that come out of
a pass. For expansion this includes what names are bound to: every step keeps what a state knows,
also where it fails, since the state is there for later steps.
-/
import MacroAssembler.Proofs.Bindings
import MacroAssembler.Proofs.FoldRelation
import MacroAssembler.Proofs.Postconditions

namespace MacroAssembler

open Action List Node

variable {node : Node}

namespace Node

def isMade : Node → Bool
  | .sequence .. | .instruction .. | .conditional .. | .constant .. | .labelReference ..
  | .localReference .. | .var _ | .label _ | .trap _ | .immediate .. => true
  | _ => false

/-- Whether the nodes that folding and expansion make have a property, and fresh labels have it. -/
class IsMade (property : Node → Prop) : Prop where
  made : ∀ {node : Node}, node.isMade → property node
  fresh : ∀ (table : SymbolTable) (comment : String) (origin : Origin),
    property (.localLabel (table.freshLocalLabel comment origin).1)

/-- Whether a property that nodes are given with makes them have another one, also when they are
built anew. -/
class IsCarried (given property : Node → Prop) : Prop where
  kept : ∀ {node : Node}, given node → property node
  rebuilt : ∀ {node result : Node}, node.rebuild result.children = .ok result →
    result.children.length = node.children.length → given node → property result

variable {given property : Node → Prop}

theorem throughout_localLabel {mark : LocalLabel} (here : property (.localLabel mark)) :
    (Node.localLabel mark).Throughout property :=
  throughout_iff.mpr ⟨here, by simp [children]⟩

variable [IsMade property]

theorem throughout_made (made : node.isMade)
    (parts : ∀ child ∈ node.children, child.Throughout property) : node.Throughout property :=
  throughout_iff.mpr ⟨IsMade.made made, parts⟩

theorem throughout_leaf (made : node.isMade) (leaf : node.children = []) :
    node.Throughout property :=
  throughout_made made (by simp [leaf])

theorem throughout_reference (origin : Origin) (mark : Label) (offset : Int) :
    (Node.labelReference origin mark offset).Throughout property :=
  throughout_made rfl (forall_mem_singleton.mpr (throughout_leaf rfl rfl))

theorem throughout_localReference (origin : Origin) {mark : LocalLabel}
    (here : property (.localLabel mark)) : (Node.localReference origin mark).Throughout property :=
  throughout_made rfl (forall_mem_singleton.mpr (throughout_localLabel here))

theorem throughout_constant {origin : Origin} {binding : Variable} {value : Node}
    (everywhere : value.Throughout property) :
    (Node.constant origin binding value).Throughout property :=
  throughout_made rfl (forall_mem_cons.mpr
    ⟨throughout_leaf rfl rfl, forall_mem_singleton.mpr everywhere⟩)

omit [IsMade property]
variable [IsCarried given property]

theorem throughout_rebuild {result : Node} (built : node.rebuild result.children = .ok result)
    (sameNumber : result.children.length = node.children.length)
    (everywhere : node.Throughout given)
    (parts : ∀ part ∈ result.children, part.Throughout property) : result.Throughout property :=
  throughout_iff.mpr ⟨IsCarried.rebuilt built sameNumber everywhere.here, parts⟩

theorem ensures_mapChildren {σ : Type} {invariant : σ → Prop} {replace : Node → Action σ Node}
    (everywhere : node.Throughout given)
    (each : ∀ child ∈ node.children, Ensures invariant (Throughout property) (replace child)) :
    Ensures invariant (Throughout property) (node.mapChildren replace) := by
  rw [mapChildren_eq]
  have parts : Ensures invariant (fun parts : List Node =>
      parts.length = node.children.length ∧ ∀ part ∈ parts, part.Throughout property)
      (node.children.mapM replace) := by
    intro state kept
    refine ⟨(Ensures.mapM each state kept).1, fun results given => ⟨?_, ?_⟩⟩
    · obtain ⟨-, related⟩ := perform_mapM_ok (fun _ => True) (fun _ _ => True)
        (fun _ _ _ _ _ _ _ => ⟨trivial, trivial⟩) trivial (perform_of_fst given)
      exact related.length_eq.symm
    · exact (Ensures.mapM each state kept).2 results given
  refine parts.bind fun parts ⟨sameNumber, allParts⟩ => .lift fun result built => ?_
  obtain ⟨rfl, -, -⟩ := rebuild_ok built sameNumber
  exact throughout_rebuild built sameNumber everywhere allParts

theorem Throughout.kept (everywhere : node.Throughout given) :
    node.Throughout property :=
  fun part mem => IsCarried.kept (everywhere part mem)

end Node

variable {given property : Node → Prop}

section

variable [IsMade property] [IsCarried property property]

theorem Folding.FoldsTo.throughout {config : Configuration} (node : Node) {result : Node}
    (folds : FoldsTo config node result) :
    node.Throughout property → result.Throughout property := by
  refine folds.induction
    (motive := fun node result => node.Throughout property → result.Throughout property)
    (fun _ _ _ _ _ => throughout_leaf rfl rfl) ?conditional ?sequence ?parts
  case conditional =>
    intro _ _ _ _ value _ _ live everywhere
    exact live (everywhere.below (by cases value <;> simp [children]))
  case sequence =>
    intro _ _ _ related everywhere
    refine throughout_made rfl (throughout_spliced fun part mem => ?_)
    obtain ⟨item, inside, carries⟩ := exists_left_of_forall₂ related part mem
    exact carries (everywhere.below inside)
  case parts =>
    intro _ _ _ _ _ related built everywhere
    refine throughout_rebuild built related.length_eq.symm everywhere fun part mem => ?_
    obtain ⟨child, inside, carries⟩ := exists_left_of_forall₂ related part mem
    exact carries (everywhere.below inside)

theorem Node.Throughout.foldedWith {config : Configuration} {tree result : Node}
    {counts : FoldCounts} (everywhere : tree.Throughout property)
    (ran : tree.foldedWith config = .ok (result, counts)) : result.Throughout property :=
  Folding.FoldsTo.throughout tree ⟨_, _, foldedWith_ok.mp ran⟩ everywhere

end

/-! ### What a state knows -/

def Frame.LabelsHave (property : Node → Prop) (frame : Frame) : Prop :=
  ∀ scope ∈ frame, ∀ entry ∈ scope.labels, property (.localLabel entry.2)

namespace Expander

def MacroHas (given property : Node → Prop) (definition : Definition) (frame : Frame) : Prop :=
  definition.body.Throughout given ∧ frame.LabelsHave property

/-- Whether an operand has a property throughout, or a macro with all that it captures. -/
abbrev BoundHas (given property : Node → Prop) : Bound → Prop :=
  Bound.Holds (Throughout property) (MacroHas given property)

structure Knows (given property : Node → Prop) (state : Expander) : Prop where
  names : state.Holds (Throughout property) (MacroHas given property)
  frameLabels : state.frame.LabelsHave property
  rootLabels : ∀ entry ∈ state.root.labels, property (.localLabel entry.2)

variable {state : Expander}

theorem knows_fresh (table : SymbolTable) : Knows given property { table := table } := by
  refine ⟨⟨forall_mem_nil _, fun scope mem name bound found => ?_, nofun, nofun⟩,
    forall_mem_nil _, forall_mem_nil _⟩
  obtain rfl := mem_singleton.mp mem
  cases found

namespace Knows

theorem ofRest (known : state.Knows given property) {table : SymbolTable} {notices : List Notice}
    {expansions : Nat} : Knows given property
      { state with table := table, notices := notices, expansions := expansions } :=
  ⟨⟨known.names.frame, known.names.root, known.names.constants, known.names.macros⟩,
    known.frameLabels, known.rootLabels⟩

theorem enter (known : state.Knows given property) {frame : Frame}
    (bound : Frame.AllBound (BoundHas given property) frame) (labels : frame.LabelsHave property) :
    Knows given property { state with frame := frame } :=
  ⟨⟨bound, known.names.root, known.names.constants, known.names.macros⟩, labels, known.rootLabels⟩

theorem renamed (known : state.Knows given property) {mark : LocalLabel}
    (here : property (.localLabel mark)) :
    property (.localLabel ((state.renamed? mark.name).getD mark)) := by
  cases found : state.renamed? mark.name with
  | none => exact here
  | some label =>
    obtain ⟨scope, mem, chosen⟩ := List.exists_of_findSome?_eq_some found
    obtain ⟨entry, entryFound, rfl⟩ := Option.map_eq_some_iff.mp chosen
    have entryMem := mem_of_find?_eq_some entryFound
    rcases mem_append.mp mem with inside | outside
    · exact known.frameLabels scope inside entry entryMem
    · obtain rfl := mem_singleton.mp outside
      exact known.rootLabels entry entryMem

theorem withBinding (known : state.Knows given property) {name : String} {bound : Bound}
    (new : BoundHas given property bound) : Knows given property (state.withBinding name bound) := by
  refine ⟨known.names.withBinding new, ?_, ?_⟩ <;>
    obtain ⟨_, _, _, _, root, frame, _⟩ := state <;> cases frame
  · exact known.frameLabels
  · exact forall_mem_cons.mpr (forall_mem_cons.mp known.frameLabels)
  · exact known.rootLabels
  · exact known.rootLabels

theorem withMacro (known : state.Knows given property) {key : Name} {definition : Definition}
    (new : definition.body.Throughout given) :
    Knows given property { state with macros := state.macros ++ [(key, definition)] } := by
  refine ⟨⟨known.names.frame, known.names.root, known.names.constants, fun name found chosen => ?_⟩,
    known.frameLabels, known.rootLabels⟩
  obtain ⟨entry, first, rfl⟩ := Option.map_eq_some_iff.mp chosen
  rw [find?_append, Option.or_eq_some_iff] at first
  rcases first with earlier | ⟨-, last⟩
  · exact known.names.macros name entry.2 (Option.map_eq_some_iff.mpr ⟨entry, earlier, rfl⟩)
  · obtain rfl := mem_singleton.mp (mem_of_find?_eq_some last)
    exact ⟨new, forall_mem_nil _⟩

end Knows

/-! ### Steps that make no nodes -/

/-- Whether all of some trees have a property throughout. -/
abbrev AllHave (property : Node → Prop) (nodes : List Node) : Prop :=
  ∀ node ∈ nodes, node.Throughout property

/-- A step of expansion that keeps what is known and gives something wanted. -/
abbrev Carries (given property : Node → Prop) {α : Type} (wanted : α → Prop) (step : Expand α) :
    Prop :=
  Ensures (Knows given property) wanted step

theorem carries_onTable {α : Type} {wanted : α → Prop} {change : SymbolTable → α × SymbolTable}
    (holds : ∀ table, wanted (change table).1) : Carries given property wanted (onTable change) := by
  intro state known
  refine ⟨known.ofRest, fun result gives => ?_⟩
  cases gives
  exact holds state.table

theorem carries_note (notice : Notice) : Carries given property (fun _ => True) (note notice) :=
  .modify fun _ known => known.ofRest

theorem carries_calleeOf (invocation : Invocation) :
    Carries given property (fun callee => BoundHas given property (.closure callee.1 callee.2))
      (calleeOf invocation) := by
  refine .get fun state known => ?_
  split
  · exact .lift fun callee impossible => absurd impossible (refuseInvocation_ne_ok _)
  · rename_i definition frame found
    split
    · exact .pure (known.names.callee? found)
    · exact .check fun _ _ => .report

theorem carries_countExpansion (invocation : Invocation) :
    Carries given property (fun _ => True) (countExpansion invocation) :=
  (Ensures.modify fun _ known => known.ofRest).bind fun _ _ => carries_note _

theorem carries_inFrame {α : Type} {wanted : α → Prop} {frame : Frame} {step : Expand α}
    (bound : Frame.AllBound (BoundHas given property) frame) (labels : frame.LabelsHave property)
    (carries : Carries given property wanted step) :
    Carries given property wanted (inFrame frame step) := by
  refine .get fun outer knownOuter => ?_
  refine (Ensures.modify fun _ known => known.enter bound labels).bind fun _ _ => ?_
  refine carries.bind fun result holds => ?_
  refine (Ensures.modify fun _ known =>
    known.enter knownOuter.names.frame knownOuter.frameLabels).bind fun _ _ => ?_
  exact .pure holds

theorem carries_expandItems {invoke : Invocation → Expand (List Node)} {items : List Node}
    (each : ∀ item ∈ items, Carries given property (AllHave property) (expandNode invoke item)) :
    Carries given property (AllHave property) (expandItems invoke items) := by
  induction items with
  | nil =>
    rw [expandItems]
    exact .pure (forall_mem_nil _)
  | cons item rest ih =>
    obtain ⟨first, others⟩ := forall_mem_cons.mp each
    rw [expandItems]
    refine first.bind fun nodes all => (ih others).bind fun more allMore => ?_
    exact .pure (forall_mem_append.mpr ⟨all, allMore⟩)

theorem carries_collectMacros {statements : List Node} (all : AllHave given statements) :
    Carries given property (fun _ => True) (collectMacros statements) := by
  induction statements with
  | nil => exact .pure trivial
  | cons stmt rest ih =>
    obtain ⟨here, others⟩ := forall_mem_cons.mp all
    have skips := ih others
    cases stmt with
    | definition origin name parameters body =>
      cases name with
      | null => exact skips
      | _ =>
        refine .check fun key _ => .get fun state known => ?_
        split
        · exact .report
        · refine (Ensures.modify fun state known => ?_).bind fun _ _ => skips
          exact known.withMacro (here.below (by simp [children]))
    | _ => exact skips

theorem carries_noteConstant (origin : Origin) (name : String) (previous value : Node) :
    Carries given property (fun _ => True) (noteConstant origin name previous value) := by
  refine .check fun before _ => .check fun after _ => ?_
  split
  · exact carries_note _
  · exact carries_note _

/-! ### Operands -/

variable [IsMade property]

theorem carries_substituteVariable (binding : Variable) :
    Carries given property (Throughout property) (substituteVariable binding) := by
  refine .get fun state known => ?_
  split
  · exact .pure (throughout_leaf rfl rfl)
  · rename_i node found
    cases known.names.meaning? found with
    | operand holds => exact .pure holds
  · exact .check fun _ _ => .report

theorem carries_substituteReference (origin : Origin) (mark : Label) (offset : Int) :
    Carries given property (Throughout property) (substituteReference origin mark offset) := by
  unfold substituteReference
  dsimp only
  split
  · exact .get fun state known => .check fun name _ =>
      carries_onTable fun _ => throughout_reference _ _ _
  · exact .pure (throughout_reference _ _ _)

theorem carries_renameLabels (name : String) (marks : List LocalLabel) :
    ∀ {renamed : List (Name × LocalLabel)}, (∀ entry ∈ renamed, property (.localLabel entry.2)) →
      Carries given property (fun labels : List (Name × LocalLabel) =>
        ∀ entry ∈ labels, property (.localLabel entry.2)) (renameLabels name renamed marks) := by
  induction marks with
  | nil => exact fun known => .pure known
  | cons mark rest ih =>
    intro renamed known
    rw [renameLabels]
    split
    · exact ih known
    · refine .check fun clean _ => ?_
      refine (carries_onTable fun table => IsMade.fresh table _ mark.origin :
        Carries given property (fun fresh => property (.localLabel fresh)) _).bind
          fun fresh holds => ?_
      exact ih (forall_mem_append.mpr ⟨known, forall_mem_singleton.mpr holds⟩)

theorem carries_expandLabel (mark : Label) :
    Carries given property (Throughout property) (expandLabel mark) := by
  unfold expandLabel
  split
  · refine .get fun state known => .check fun name _ => ?_
    refine (carries_onTable fun _ => trivial : Carries given property (fun _ => True) _).bind
      fun defined _ => ?_
    exact .pure (throughout_leaf rfl rfl)
  · exact .pure (throughout_leaf rfl rfl)

variable [IsCarried given property]

theorem carries_substitute (node : Node) (everywhere : node.Throughout given) :
    Carries given property (Throughout property) (substitute node) := by
  induction node with
  | step node ih =>
    have parts : ∀ child ∈ node.children,
        Carries given property (Throughout property) (substitute child) :=
      fun child mem => ih child mem (everywhere.below mem)
    cases node with
    | var binding =>
      rw [substitute]
      exact carries_substituteVariable binding
    | labelReference origin mark offset =>
      rw [substitute]
      exact carries_substituteReference origin mark offset
    | localReference origin mark =>
      have here := (everywhere.below (by simp [children] : .localLabel mark ∈ _)).here
      rw [substitute]
      exact .get fun _ known =>
        .pure (throughout_localReference _ (known.renamed (IsCarried.kept here)))
    | definition origin name parameters body =>
      rw [substitute]
      exact .check fun _ _ => .report
    | _ =>
      rw [substitute_eq_mapChildren rfl rfl rfl]
      exact ensures_mapChildren everywhere parts

theorem carries_substituteAll {nodes : List Node} (all : AllHave given nodes) :
    Carries given property (AllHave property) (substituteAll nodes) := by
  rw [substituteAll_eq_mapM]
  exact .mapM fun node mem => carries_substitute node (all node mem)

theorem carries_evaluateOperand (everywhere : node.Throughout given) :
    Carries given property (BoundHas given property) (evaluateOperand node) := by
  cases node with
  | definition origin name parameters body =>
    exact .get fun state known => .pure (.closure
      ⟨everywhere.below (by simp [children]), known.frameLabels⟩ known.names.frame)
  | var binding =>
    refine .get fun state known => .pure ?_
    cases found : state.meaning? binding.name with
    | none => exact .operand everywhere.kept
    | some bound => exact known.names.meaning? found
  | _ => exact (carries_substitute _ everywhere).bind fun _ holds => .pure (.operand holds)

theorem carries_openScope (definition : Definition) {invocation : Invocation}
    (all : AllHave given invocation.operands) :
    Carries given property (fun scope => Frame.AllBound (BoundHas given property) [scope] ∧
      ∀ entry ∈ scope.labels, property (.localLabel entry.2))
      (openScope definition invocation) := by
  have arguments : Carries given property (fun bounds : List Bound =>
      ∀ bound ∈ bounds, BoundHas given property bound) (invocation.operands.mapM evaluateOperand) :=
    .mapM fun operand mem => carries_evaluateOperand (all operand mem)
  refine arguments.bind fun arguments evaluated => .get fun state known => ?_
  refine .check fun bindings bound => ?_
  refine (carries_renameLabels _ _ (forall_mem_nil _)).bind fun labels fresh => .pure ⟨?_, fresh⟩
  intro scope mem name value chosen
  obtain rfl := mem_singleton.mp mem
  rw [get?_bindParameters bound] at chosen
  obtain ⟨parameter, paired, -⟩ := argument?_mem chosen
  exact evaluated value (of_mem_zip paired).2

/-! ### Statements -/

def InvokesCarried (given property : Node → Prop) (invoke : Invocation → Expand (List Node)) :
    Prop :=
  ∀ invocation : Invocation, AllHave given invocation.operands →
    Carries given property (AllHave property) (invoke invocation)

theorem carries_expandNode {invoke : Invocation → Expand (List Node)}
    (invokes : InvokesCarried given property invoke) (node : Node)
    (everywhere : node.Throughout given) :
    Carries given property (AllHave property) (expandNode invoke node) := by
  have single : ∀ {node : Node}, node.Throughout property → AllHave property [node] :=
    fun holds => forall_mem_singleton.mpr holds
  induction node with
  | step node ih =>
    have parts : ∀ child ∈ node.children,
        Carries given property (AllHave property) (expandNode invoke child) :=
      fun child mem => ih child mem (everywhere.below mem)
    cases node with
    | sequence origin items =>
      rw [expandNode]
      exact carries_expandItems parts
    | call origin name operands comment writtenName =>
      rw [expandNode]
      exact invokes _ fun _ mem => everywhere.below mem
    | instruction origin opcode operands comment =>
      have all : AllHave given operands := fun _ mem => everywhere.below mem
      rw [expandNode]
      refine .get fun state known => ?_
      split
      · exact invokes _ all
      · refine (carries_substituteAll all).bind fun results allResults => ?_
        exact .pure (single (throughout_made rfl allResults))
    | label mark =>
      rw [expandNode]
      exact (carries_expandLabel mark).bind fun _ holds => .pure (single holds)
    | localLabel mark =>
      rw [expandNode]
      exact .get fun _ known =>
        .pure (single (throughout_localLabel (known.renamed (IsCarried.kept everywhere.here))))
    | constant origin binding value =>
      rw [expandNode]
      refine (carries_substitute value (everywhere.below (by simp [children]))).bind
        fun result holds => ?_
      refine (Ensures.modify fun state known => known.withBinding (.operand holds)).bind
        fun _ _ => ?_
      exact .pure (single (throughout_constant holds))
    | definition origin name parameters body =>
      rw [expandNode]
      refine .get fun state known => ?_
      split
      · exact .pure (forall_mem_nil _)
      · exact .check fun _ _ => .report
    | conditional origin predicate thenCase elseCase =>
      rw [expandNode]
      refine (parts thenCase (by simp [children])).bind fun thenItems allThen => ?_
      refine (parts elseCase (by simp [children])).bind fun elseItems allElse => ?_
      refine .pure (single (throughout_made rfl ?_))
      simp only [children, forall_mem_cons]
      exact ⟨(everywhere.below (by simp [children])).kept, throughout_made rfl allThen,
        throughout_made rfl allElse, forall_mem_nil _⟩
    | skip =>
      rw [expandNode]
      exact .pure (forall_mem_nil _)
    | trap =>
      rw [expandNode]
      exact .pure (single (throughout_leaf rfl rfl))
    | _ =>
      rw [expandNode_eq_substitute rfl]
      exact (carries_substitute _ everywhere).bind fun _ holds => .pure (single holds)

theorem invokesCarried_invoke (limit : Int) (depth : Nat) :
    InvokesCarried given property (invoke limit depth) := by
  induction depth with
  | zero =>
    intro invocation all
    exact (carries_calleeOf invocation).bind fun _ _ => .check fun _ _ => .report
  | succ depth ih =>
    intro invocation all
    refine (carries_calleeOf invocation).bind fun callee known => ?_
    cases known with
    | closure holds allBound =>
      refine (carries_openScope callee.1 all).bind fun scope ⟨bound, fresh⟩ => ?_
      refine (carries_countExpansion invocation).bind fun _ _ => ?_
      refine carries_inFrame (forall_mem_cons.mpr ⟨bound scope mem_cons_self, allBound⟩)
        (forall_mem_cons.mpr ⟨fresh, holds.2⟩) ?_
      exact carries_expandNode ih _ holds.1

/-! ### Units -/

theorem carries_resolveConstants {statements : List Node} (all : AllHave given statements) :
    Carries given property (fun items : List (Node ⊕ Node) =>
      ∀ item ∈ items, item.elim (Throughout property) (Throughout given))
      (resolveConstants statements) := by
  induction statements with
  | nil => exact .pure (forall_mem_nil _)
  | cons stmt rest ih =>
    obtain ⟨here, others⟩ := forall_mem_cons.mp all
    have more : ∀ item : Node ⊕ Node, item.elim (Throughout property) (Throughout given) →
        Carries given property (fun items : List (Node ⊕ Node) =>
          ∀ item ∈ items, item.elim (Throughout property) (Throughout given)) (do
            let others ← resolveConstants rest
            return item :: others) :=
      fun item holds => (ih others).bind fun items allItems =>
        .pure (forall_mem_cons.mpr ⟨holds, allItems⟩)
    cases stmt with
    | constant origin binding value =>
      rw [resolveConstants]
      refine (carries_substitute value (here.below (by simp [children]))).bind
        fun result holds => .get fun state known => ?_
      have declares := (Ensures.modify fun (state : Expander) (known : Knows given property state) =>
        (⟨known.names.withConstant holds state.notices, known.frameLabels, known.rootLabels⟩ :
          Knows given property { state with
            constants := Association.set state.constants binding.name result })).bind
        fun _ _ => more (.inl (.constant origin binding result)) (throughout_constant holds)
      split
      · exact (carries_noteConstant _ _ _ _).bind fun _ _ => declares
      · exact declares
    | _ => exact more (.inr _) here

theorem carries_expandUnit {invoke : Invocation → Expand (List Node)}
    (invokes : InvokesCarried given property invoke) {items : List (Node ⊕ Node)}
    (all : ∀ item ∈ items, item.elim (Throughout property) (Throughout given)) :
    Carries given property (AllHave property) (expandUnit invoke items) := by
  induction items with
  | nil => exact .pure (forall_mem_nil _)
  | cons item rest ih =>
    obtain ⟨here, others⟩ := forall_mem_cons.mp all
    cases item with
    | inl resolved =>
      refine (ih others).bind fun nodes allNodes => ?_
      exact .pure (forall_mem_cons.mpr ⟨here, allNodes⟩)
    | inr stmt =>
      refine (carries_expandNode invokes stmt here).bind fun first allFirst => ?_
      refine (ih others).bind fun nodes allNodes => ?_
      exact .pure (forall_mem_append.mpr ⟨allFirst, allNodes⟩)

/-- Expanding a unit carries the property along, and keeps what is known however it ends. -/
theorem carries_expand (limit : Int) {tree : Node} (everywhere : tree.Throughout given) :
    Carries given property (Throughout property) (expand limit tree) := by
  have statements : AllHave given tree.statements := fun _ mem => everywhere.statement mem
  refine (Ensures.modify fun state known =>
    known.enter (forall_mem_nil _) (forall_mem_nil _)).bind fun _ _ => ?_
  refine (carries_collectMacros statements).bind fun _ _ => ?_
  refine (carries_resolveConstants statements).bind fun items allItems => ?_
  refine (carries_expandUnit (invokesCarried_invoke limit _) allItems).bind fun nodes allNodes => ?_
  refine .get fun state known => (carries_note _).bind fun _ _ => ?_
  exact .pure (throughout_made rfl allNodes)

end Expander

end MacroAssembler
