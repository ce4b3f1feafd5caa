/-
This module proves that it makes no difference how statements are grouped into sequences.

Flattening puts the items of every sequence in its place. What is left are the statements as they
come up when the sequences are walked through, and two groupings leave the same exactly if one can be
made from the other by opening and closing sequences. Lowering a sequence lowers its items one after
the other, so it comes to the same for every grouping, its failure and the table it leaves included.
In host code an instruction is a list of statements like a sequence, so there a sequence around one
of the two can be left out wherever it stands. Any other statement is a text by itself.
-/
import MacroAssembler.Proofs.CompiledUnit

namespace MacroAssembler

open Action List

/-! ### Flattening -/

namespace Node

/-- Whether some statements come up, in this order, when others are walked through from the first to
the last and every sequence is entered where it stands. -/
inductive Visits : List Node → List Node → Prop
  | done : Visits [] []
  | enter {origin : Origin} {items rest visited : List Node}
      (visits : Visits (items ++ rest) visited) : Visits (.sequence origin items :: rest) visited
  | visit {stmt : Node} {rest visited : List Node} (single : stmt.isSequence = false)
      (visits : Visits rest visited) : Visits (stmt :: rest) (stmt :: visited)

/-- Whether some statements can be made from others by opening sequences and closing new ones. -/
inductive Regrouped : List Node → List Node → Prop
  | refl (items : List Node) : Regrouped items items
  | cons {items others : List Node} (item : Node) (regrouped : Regrouped items others) :
      Regrouped (item :: items) (item :: others)
  | opened (origin : Origin) (items rest : List Node) :
      Regrouped (.sequence origin items :: rest) (items ++ rest)
  | closed (origin : Origin) (items rest : List Node) :
      Regrouped (items ++ rest) (.sequence origin items :: rest)
  | trans {items middle others : List Node} (first : Regrouped items middle)
      (second : Regrouped middle others) : Regrouped items others

variable {items others visited rest : List Node}

theorem statementsOf_append (first second : List Node) :
    statementsOf (first ++ second) = statementsOf first ++ statementsOf second := by
  induction first with
  | nil => rfl
  | cons item rest ih => rw [cons_append, statementsOf, statementsOf, ih, append_assoc]

theorem visits_statements (node : Node) (visits : Visits rest visited) :
    Visits (node :: rest) (node.statements ++ visited) := by
  induction node generalizing rest visited with
  | step node ih =>
    cases node with
    | sequence origin items =>
      refine .enter ?_
      rw [children] at ih
      rw [statements]
      induction items with
      | nil => exact visits
      | cons item items itemsIh =>
        obtain ⟨first, others⟩ := forall_mem_cons.mp ih
        rw [statementsOf, append_assoc]
        exact first (itemsIh others)
    | _ => exact .visit rfl visits

theorem visits_iff : Visits items visited ↔ visited = statementsOf items := by
  constructor
  · intro visits
    induction visits with
    | done => rfl
    | enter _ ih => rw [ih, statementsOf_append, statementsOf, statements]
    | visit single _ ih => rw [statementsOf, statements_of_single single, ih, singleton_append]
  · rintro rfl
    induction items with
    | nil => exact .done
    | cons item rest ih => exact visits_statements item ih

theorem Regrouped.symm (regrouped : Regrouped items others) : Regrouped others items := by
  induction regrouped with
  | refl items => exact .refl items
  | cons item _ ih => exact .cons item ih
  | opened origin items rest => exact .closed origin items rest
  | closed origin items rest => exact .opened origin items rest
  | trans _ _ first second => exact second.trans first

theorem regrouped_statementsOf (items : List Node) : Regrouped items (statementsOf items) := by
  have visits := visits_iff.mpr (Eq.refl (statementsOf items))
  generalize statementsOf items = visited at visits
  induction visits with
  | done => exact .refl []
  | enter _ ih => exact .trans (.opened _ _ _) ih
  | visit _ _ ih => exact .cons _ ih

theorem regrouped_iff : Regrouped items others ↔ statementsOf items = statementsOf others := by
  constructor
  · intro regrouped
    induction regrouped with
    | refl => rfl
    | cons item _ ih => rw [statementsOf, statementsOf, ih]
    | opened => rw [statementsOf, statements, statementsOf_append]
    | closed => rw [statementsOf, statements, statementsOf_append]
    | trans _ _ first second => exact first.trans second
  · intro same
    have back := (regrouped_statementsOf others).symm
    rw [← same] at back
    exact (regrouped_statementsOf items).trans back

end Node

theorem mapM_statementsOf {σ α : Type} {step : Node → Action σ (List α)}
    (splices : ∀ origin items, step (.sequence origin items) = flatten <$> items.mapM step)
    (items : List Node) :
    flatten <$> (Node.statementsOf items).mapM step = flatten <$> items.mapM step := by
  have visits := Node.visits_iff.mpr (Eq.refl (Node.statementsOf items))
  generalize Node.statementsOf items = visited at visits
  induction visits with
  | done => rfl
  | enter _ ih => simp [ih, mapM_append, mapM_cons, splices]
  | @visit stmt _ _ _ _ ih =>
    have later := congrArg (fun others => do return (← step stmt) ++ (← others)) ih
    simpa [mapM_cons] using later

/-! ### Lowering -/

namespace HostCode

variable {config : Configuration}

theorem lowerAll_eq_mapM (nodes : List Node) :
    lowerAll config nodes = nodes.mapM (lowerAt config .plain) := by
  induction nodes with
  | nil => rfl
  | cons node rest ih => rw [lowerAll, mapM_cons, ih]

theorem lowerAt_sequence (origin : Origin) (items : List Node) :
    lowerAt config .plain (.sequence origin items) = do
      let codes ← items.mapM (lowerAt config .plain)
      return .statements (codes.flatMap statementsOf) := by
  rw [lowerAt]
  simp [Place.finish, lowerAll_eq_mapM]

end HostCode

namespace Backend

variable (config : Configuration)

theorem flatten_mapM_map {σ α β : Type} (texts : α → List β) (step : Node → Action σ α)
    (items : List Node) : flatten <$> items.mapM (fun node => texts <$> step node) =
      (List.flatMap texts) <$> items.mapM step := by
  induction items with
  | nil => rfl
  | cons item rest ih =>
    have later := congrArg (fun others => do return texts (← step item) ++ (← others)) ih
    simpa [mapM_cons] using later

theorem lowerItems_eq_mapM (items : List Node) : Assembly.lowerItems config items =
      (List.flatMap Assembly.linesOf) <$> items.mapM (Assembly.lower config) := by
  induction items with
  | nil => rfl
  | cons item rest ih => simp [Assembly.lowerItems, mapM_cons, ih]

theorem lowerStatements_sequence (origin : Origin) (items : List Node) :
    lowerStatements config (.sequence origin items) =
      flatten <$> items.mapM (lowerStatements config) := by
  cases machine : config.architecture.emitsHostCode with
  | true =>
    have host : lowerStatements config =
        fun node => HostCode.statementsOf <$> HostCode.lowerAt config .plain node := by
      funext node
      simp [lowerStatements, lower, machine, HostCode.lower]
    simp [host, flatten_mapM_map, HostCode.lowerAt_sequence, HostCode.statementsOf]
  | false =>
    have lines := funext (Compilation.lowerStatements_machine machine)
    rw [lines, flatten_mapM_map]
    simp [Assembly.lower, lowerItems_eq_mapM, Assembly.linesOf, map_flatMap]

end Backend

/-- A sequence can be flattened. The items are then the statements that come up when its items are
walked through, no sequence is among them, and flattening them again changes nothing. Statements
flatten to the same items exactly if they are another grouping of them. Every backend lowers the
sequence as it lowers the flattened one: with the same statements or the same failure, and with the
same table in the end. -/
theorem flattened_sequence (origin : Origin) (items : List Node) :
    ∃ flat, (Node.sequence origin items).flattened = .ok (.sequence origin flat) ∧
      (∀ item ∈ flat, item.isSequence = false) ∧
      (∀ visited, Node.Visits items visited ↔ visited = flat) ∧
      (Node.sequence origin flat).flattened = .ok (.sequence origin flat) ∧
      (∀ place others, Node.Regrouped items others ↔
        (Node.sequence place others).flattened = .ok (.sequence place flat)) ∧
      ∀ config table, (Backend.lowerStatements config (.sequence origin items)).perform table =
        (Backend.lowerStatements config (.sequence origin flat)).perform table := by
  have single : ∀ item ∈ Node.statementsOf items, item.isSequence = false :=
    fun item mem => Node.isSequence_of_mem_statements
      (show item ∈ (Node.sequence origin items).statements from mem)
  refine ⟨Node.statementsOf items, rfl, single, fun _ => Node.visits_iff, ?_, fun place others => ?_,
    fun config table => ?_⟩
  · rw [Node.flattened, Node.statementsOf_of_single single]
  · rw [Node.regrouped_iff, Node.flattened, Except.ok.injEq, Node.sequence.injEq]
    exact ⟨fun same => ⟨rfl, same.symm⟩, fun same => same.2.symm⟩
  · rw [Backend.lowerStatements_sequence, Backend.lowerStatements_sequence,
      mapM_statementsOf (Backend.lowerStatements_sequence config)]

/-! ### Sequences around single statements -/

namespace HostCode

variable {config : Configuration} {stmt node other : Node}

/-- Whether a statement becomes a list of statements in host code. -/
def isListed : Node → Bool
  | .instruction .. | .sequence .. => true
  | _ => false

/-- Whether a tree is another one in which sequences were put around instructions and sequences. -/
inductive Wraps : Node → Node → Prop
  | refl (node : Node) : Wraps node node
  | wrap {stmt : Node} (origin : Origin) (listed : isListed stmt) :
      Wraps stmt (.sequence origin [stmt])
  | body {origin : Origin} {name : Value} {parameters : List Node} {body other : Node}
      (wraps : Wraps body other) :
      Wraps (.definition origin name parameters body) (.definition origin name parameters other)
  | thenCase {origin : Origin} {predicate thenCase elseCase other : Node}
      (wraps : Wraps thenCase other) :
      Wraps (.conditional origin predicate thenCase elseCase)
        (.conditional origin predicate other elseCase)
  | elseCase {origin : Origin} {predicate thenCase elseCase other : Node}
      (wraps : Wraps elseCase other) :
      Wraps (.conditional origin predicate thenCase elseCase)
        (.conditional origin predicate thenCase other)
  | item {origin : Origin} {before after : List Node} {item other : Node} (wraps : Wraps item other) :
      Wraps (.sequence origin (before ++ item :: after)) (.sequence origin (before ++ other :: after))
  | operand {origin : Origin} {name : String} {before after : List Node} {operand other : Node}
      {comment writtenName : Value} (wraps : Wraps operand other) :
      Wraps (.call origin name (before ++ operand :: after) comment writtenName)
        (.call origin name (before ++ other :: after) comment writtenName)
  | trans {node middle other : Node} (first : Wraps node middle) (second : Wraps middle other) :
      Wraps node other

theorem lowerAt_listed (listed : isListed stmt) (place : Place) :
    lowerAt config place stmt = do
      let code ← lowerAt config .plain stmt
      return place.finish stmt (.statements (statementsOf code)) := by
  cases stmt with
  | sequence origin items =>
    unfold lowerAt
    simp [Place.finish, statementsOf]
  | instruction origin opcode operands comment =>
    unfold lowerAt
    dsimp only
    split
    · simp [Place.finish, statementsOf]
    · split <;> simp [Place.finish, statementsOf]
  | _ => cases listed

theorem lowerAt_wrap (origin : Origin) (listed : isListed stmt) (place : Place) :
    lowerAt config place (.sequence origin [stmt]) = lowerAt config place stmt := by
  have finish : ∀ code, place.finish (.sequence origin [stmt]) code = place.finish stmt code := by
    intro code
    cases place <;> cases stmt <;> first | rfl | cases listed
  rw [lowerAt_listed rfl, lowerAt_listed listed, lowerAt_sequence]
  simp [statementsOf, finish]

theorem lowerAt_wraps (wraps : Wraps node other) (place : Place) :
    lowerAt config place other = lowerAt config place node := by
  have replaced : ∀ {before after : List Node} {part other : Node},
      (∀ place, lowerAt config place other = lowerAt config place part) →
        lowerAll config (before ++ other :: after) = lowerAll config (before ++ part :: after) := by
    intro before after part other same
    rw [lowerAll_eq_mapM, lowerAll_eq_mapM, mapM_append, mapM_append, mapM_cons, mapM_cons, same]
  induction wraps generalizing place with
  | refl => rfl
  | wrap origin listed => exact lowerAt_wrap origin listed place
  | body _ ih | thenCase _ ih | elseCase _ ih =>
    unfold lowerAt
    simp only [ih]
    cases place <;> rfl
  | item _ ih | operand _ ih =>
    unfold lowerAt
    simp only [replaced ih]
    cases place <;> rfl
  | trans _ _ first second => rw [second, first]

theorem joinStatements_eq (statements : List String) : joinStatements statements = "\n".intercalate
      ((statements.filter fun statement => decide (statement ≠ "")).map (· ++ ";")) := by
  have mark : ";\n" = ";" ++ "\n" := by decide
  have joined : ∀ (first : String) (rest : List String), ";\n".intercalate (first :: rest) ++ ";" =
        "\n".intercalate ((first :: rest).map (· ++ ";")) := by
    intro first rest
    induction rest generalizing first with
    | nil => rw [String.intercalate_singleton, map_singleton, String.intercalate_singleton]
    | cons statement rest ih =>
      have later := ih statement
      rw [map_cons] at later
      rw [map_cons, map_cons, String.intercalate_cons_cons, String.intercalate_cons_cons, ← later,
        mark]
      simp only [String.append_assoc]
  unfold joinStatements
  cases statements.filter fun statement => decide (statement ≠ "") with
  | nil => rfl
  | cons statement rest => exact joined statement rest

/-- Host code does not depend on sequences around instructions and sequences, in the bodies of
macros, in the branches of conditionals and elsewhere. An instruction or a sequence in such a place
is written as statements that end with a semicolon each. -/
theorem lower_wraps (config : Configuration) (wraps : Wraps node other) (table : SymbolTable) :
    (lower config other).perform table = (lower config node).perform table ∧
      ∀ stmt code after, isListed stmt → (lower config stmt).perform table = (.ok code, after) →
        ∃ statements, code = .statements statements ∧ render code = "\n".intercalate
          ((statements.filter fun statement => decide (statement ≠ "")).map (· ++ ";")) := by
  refine ⟨congrArg (·.perform table) (lowerAt_wraps wraps .plain), ?_⟩
  intro stmt code after listed lowers
  rw [lower, lowerAt_listed listed, perform_bind_ok] at lowers
  obtain ⟨inner, _, -, ⟨⟩⟩ := lowers
  exact ⟨statementsOf inner, rfl, joinStatements_eq _⟩

def loop : Configuration := ⟨.loop, [], [], []⟩

def nop : Node := .instruction .nowhere "nop" [] .null

def choice (name : String) (thenCase elseCase : Node) : Node :=
  .conditional .nowhere (.setting .nowhere name) thenCase elseCase

def function (body : Node) : Node := .definition .nowhere (.text "m") [] body

/-- The branches of a conditional in a macro are wrapped. -/
theorem lower_wraps_branches :
    (lower loop (function (choice "A" (.sequence .nowhere [nop]) (.sequence .nowhere [nop])))).perform
        .empty = (lower loop (function (choice "A" nop nop))).perform .empty ∧
      ∃ statements, Lowered.statements ["nop()"] = .statements statements ∧
        render (.statements ["nop()"]) = "\n".intercalate
          ((statements.filter fun statement => decide (statement ≠ "")).map (· ++ ";")) := by
  have wraps : Wraps (function (choice "A" nop nop))
      (function (choice "A" (.sequence .nowhere [nop]) (.sequence .nowhere [nop]))) :=
    .body (.trans (.thenCase (.wrap .nowhere rfl)) (.elseCase (.wrap .nowhere rfl)))
  have lowered := lower_wraps loop wraps .empty
  exact ⟨lowered.1, lowered.2 nop _ _ rfl rfl⟩

/-- A conditional continues the one whose alternative it is, unless a sequence is around it. -/
theorem alternative_unwrapped :
    ((Backend.lowerStatements loop (choice "A" nop (choice "B" nop nop))).perform .empty).1 =
      .ok ["\n#if (A)\nnop();\n#elif (B)\nnop();\n#else // B\nnop();\n#endif // B\n"] ∧
    ((Backend.lowerStatements loop
        (choice "A" nop (.sequence .nowhere [choice "B" nop nop]))).perform .empty).1 =
      .ok ["\n#if (A)\nnop();\n#else // A\n\n#if (B)\nnop();\n#else // B\nnop();\n#endif // B\n" ++
        ";\n#endif // A\n"] := by
  decide +kernel

end HostCode

end MacroAssembler
