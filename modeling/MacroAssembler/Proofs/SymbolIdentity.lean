/-
This module proves that a symbol table gives one symbol for each identity.

A request that names a symbol obtains it: it is given the symbol that the table holds under that
identity, or else a new one, which the table holds from then on. `Step.effect` says so for every
request at once, those included that come to a symbol on the way to something else: a reference, a
definition or a declaration obtains its label, and a fresh local label is obtained under a name that
was free. From it follows what a table holds after any requests, `held_performAll`: under each kind
and name the symbol that the first request for them made, and no other.
-/
import MacroAssembler.Proofs.Requests

namespace MacroAssembler.SymbolTable

open List

variable {table before after : SymbolTable} {key : SymbolKey} {fresh symbol : Node}

/-! ### Which symbols a table holds -/

def held (table : SymbolTable) : SymbolKey → List Node
  | .label name =>
    (table.labels.filter fun entry => decide (entry.name.key = .text name)).map fun entry =>
      .label ⟨entry.origin, name⟩
  | key => table.symbols.filter fun node => decide (node.symbolKey? = some key)

/-- Whether a table is left that holds a symbol that was asked for under an identity: the one that
was held before, or else the given new one. Nothing else changes about the symbols. -/
structure Obtains (key : SymbolKey) (fresh symbol : Node) (before after : SymbolTable) : Prop where
  symbol : symbol = (before.held key).headD fresh
  own : after.held key = if before.held key = [] then [fresh] else before.held key
  others : ∀ other, other ≠ key → after.held other = before.held other

theorem held_of_eq (symbols : after.symbols = before.symbols)
    (labels : after.labels = before.labels) (key : SymbolKey) :
    after.held key = before.held key := by
  cases key <;> simp only [held, symbols, labels]

theorem held_updateFlags (name : String) (change : LabelFlags → LabelFlags) (key : SymbolKey) :
    (table.updateFlags name change).held key = table.held key := by
  cases key with
  | label other =>
    simp only [held, updateFlags, filter_map, map_map]
    congr 1
    · funext entry
      show Node.label ⟨(if entry.name.key = .text name then
        { entry with flags := change entry.flags } else entry).origin, other⟩ = _
      split <;> rfl
    · congr 1
      funext entry
      show decide ((if entry.name.key = .text name then
        { entry with flags := change entry.flags } else entry).name.key = .text other) = _
      split <;> rfl
  | _ => rfl

theorem held_noteUse (name : String) (key : SymbolKey) :
    (table.noteUse name).held key = table.held key := by
  unfold noteUse
  split
  · exact held_of_eq rfl rfl key
  · rfl

theorem Obtains.congr {otherBefore otherAfter : SymbolTable}
    (obtained : Obtains key fresh symbol before after)
    (sameBefore : ∀ key, before.held key = otherBefore.held key)
    (sameAfter : ∀ key, otherAfter.held key = after.held key) :
    Obtains key fresh symbol otherBefore otherAfter where
  symbol := by rw [← sameBefore, obtained.symbol]
  own := by rw [sameAfter, ← sameBefore, obtained.own]
  others other different := by rw [sameAfter, ← sameBefore, obtained.others other different]

theorem held_of_not_label (noLabel : ∀ name, key ≠ .label name) :
    table.held key = table.symbols.filter fun node => decide (node.symbolKey? = some key) := by
  cases key with
  | label name => exact absurd rfl (noLabel name)
  | _ => rfl

variable {node : Node} {step : Step} {name : String} {kind : SymbolKind}

theorem obtains_intern (identified : node.symbolKey? = some key)
    (noLabel : ∀ name, key ≠ .label name) :
    Obtains key node (table.intern node).1 table (table.intern node).2 := by
  have found : table.find? key = (table.held key).head? := by
    rw [held_of_not_label noLabel, List.head?_filter]
    rfl
  unfold intern
  rw [identified]
  dsimp only
  rw [found]
  cases before : table.held key with
  | nil =>
    refine ⟨by rw [before]; rfl, ?_, fun other different => ?_⟩
    · rw [before, held_of_not_label noLabel]
      rw [held_of_not_label noLabel] at before
      simp [before, identified]
    · cases other with
      | label name => rfl
      | _ => simp [held, identified, Ne.symm different]
  | cons first rest =>
    exact ⟨by rw [before]; rfl, by simp [before], fun _ _ => rfl⟩

theorem obtains_localLabel (name : Name) (origin : Origin) :
    Obtains (.localLabel name.key) (.localLabel ⟨origin, name⟩)
      (.localLabel (table.localLabel name origin).1) table (table.localLabel name origin).2 := by
  have interned : Obtains (.localLabel name.key) (.localLabel ⟨origin, name⟩)
      (table.intern (.localLabel ⟨origin, name⟩)).1 table
      (table.intern (.localLabel ⟨origin, name⟩)).2 :=
    obtains_intern rfl fun _ => SymbolKey.noConfusion
  rw [← localLabel_eq_intern] at interned
  exact interned

theorem obtains_freshLocalLabel (comment : String) (origin : Origin) :
    ∃ name, (table.freshLocalLabel comment origin).1 = ⟨origin, .text name⟩ ∧
      Obtains (.localLabel (.text name)) (.localLabel ⟨origin, .text name⟩)
        (.localLabel (table.freshLocalLabel comment origin).1) table
        (table.freshLocalLabel comment origin).2 := by
  have draws := draws_freshLocalLabel table comment origin
  obtain ⟨name, isMark, -⟩ := draws.searches
  have free := draws.fresh
  rw [isMark] at free
  refine ⟨name, isMark, ?_⟩
  rw [draws.table, isMark]
  have added := @obtains_localLabel table (.text name) origin
  rw [localLabel_of_free free] at added
  exact added.congr (fun _ => rfl) (held_of_eq rfl rfl)

theorem obtains_label (name : String) (origin : Origin) :
    Obtains (.label name) (.label ⟨origin, name⟩) (.label (table.label name origin).1) table
      (table.label name origin).2 := by
  have found : table.findLabel? (.text name) =
      (table.labels.filter fun entry => decide (entry.name.key = .text name)).head? :=
    List.head?_filter.symm
  unfold label
  rw [found]
  cases before : table.labels.filter fun entry => decide (entry.name.key = .text name) with
  | nil =>
    have missing : table.held (.label name) = [] := by rw [held, before]; rfl
    have added : table.withLabel (.text name) origin =
        { table with labels := table.labels ++ [⟨.text name, origin, {}⟩] } := by
      rw [withLabel, found, before]
      rfl
    dsimp only [List.head?_nil]
    rw [added]
    refine ⟨by rw [missing]; rfl, by simp [held, before, Name.key_text], fun other different => ?_⟩
    cases other with
    | label otherName =>
      have otherLabel : name ≠ otherName := fun same => different (congrArg _ same.symm)
      simp [held, Name.key_text, otherLabel]
    | _ => rfl
  | cons entry rest =>
    have symbols : table.held (.label name) =
        .label ⟨entry.origin, name⟩ :: rest.map fun entry => .label ⟨entry.origin, name⟩ := by
      rw [held, before]
      rfl
    exact ⟨by rw [symbols]; rfl, by simp [symbols], fun _ _ => rfl⟩

theorem obtains_symbol (kind : SymbolKind) (name : String) (origin : Origin) (writtenName : Value) :
    Obtains (kind.key name) (kind.node name origin writtenName)
      (table.symbol kind name origin writtenName).1 table
      (table.symbol kind name origin writtenName).2 := by
  cases kind with
  | label => exact obtains_label name origin
  | localLabel => exact obtains_localLabel (.text name) origin
  | _ => exact obtains_intern rfl fun _ => SymbolKey.noConfusion

theorem obtains_fieldOffset (table : SymbolTable) (struct field : String) (origin : Origin) :
    Obtains (.fieldOffset (LayoutConstant.key (.offset struct field)))
      (.layout origin (.offset struct field))
      (table.layoutConstant (.offset struct field) origin).1 table
      (table.layoutConstant (.offset struct field) origin).2 :=
  obtains_intern rfl fun _ => SymbolKey.noConfusion

theorem symbolKey?_of_mem_held (mem : node ∈ table.held key) : node.symbolKey? = some key := by
  cases key with
  | label name =>
    obtain ⟨entry, -, rfl⟩ := mem_map.mp mem
    rfl
  | _ => exact of_decide_eq_true (mem_filter.mp mem).2

theorem Obtains.head?_held
    (obtained : Obtains key fresh symbol before after) : (after.held key).head? = some symbol := by
  rw [obtained.own, obtained.symbol]
  cases before.held key <;> rfl

theorem Obtains.symbolKey?
    (obtained : Obtains key fresh symbol before after) : symbol.symbolKey? = some key :=
  symbolKey?_of_mem_held (mem_of_mem_head? obtained.head?_held)

/-! ### What a request does to the symbols -/

namespace Question

def asked? : Question → Option (SymbolKind × String)
  | .symbol kind name _ => some (kind, name)
  | .labelReference name _ | .noteUse name | .defineLabel name | .labelDefinition name
  | .declare _ name => some (.label, name)
  | .fieldOffset .. | .freshLocalLabel _ | .resetReferenced => none

def writtenName : Question → Value
  | .symbol _ _ writtenName => writtenName
  | _ => .null

end Question

/-- The symbol that an answer is about, which is the label for a reference to one. -/
def referent : Node → Node
  | .labelReference _ mark _ => .label mark
  | node => node

theorem referent_of_symbolKey? (identified : node.symbolKey? = some key) :
    referent node = node := by
  cases node with
  | labelReference => cases identified
  | _ => rfl

namespace Step

def symbol? (step : Step) : Option Node :=
  match step.outcome with
  | .ok answer => answer.map referent
  | .error _ => none

def identity? (step : Step) : Option SymbolKey := step.symbol?.bind Node.symbolKey?

/-- What a step can do to the symbols of a table. It leaves them as they are, or it obtains a
symbol that goes by a name alone, or it obtains the offset of a field. -/
inductive Effect (step : Step) : Prop
  | keeps (answer : step.symbol? = none)
      (asked : step.request.question.asked? = none ∨ step.succeeds = false)
      (held : ∀ key, step.after.held key = step.before.held key)
  | obtains (kind : SymbolKind) (name : String) (symbol : Node)
      (answer : step.symbol? = some symbol)
      (asked : ∀ question, step.request.question.asked? = some question → question = (kind, name))
      (obtained : Obtains (kind.key name)
        (kind.node name step.request.origin step.request.question.writtenName) symbol
        step.before step.after)
  | fieldOffset (struct field : String) (symbol : Node) (answer : step.symbol? = some symbol)
      (asked : step.request.question.asked? = none)
      (obtained : Obtains (.fieldOffset (LayoutConstant.key (.offset struct field)))
        (.layout step.request.origin (.offset struct field)) symbol step.before step.after)

theorem effect_of_label (asked : step.request.question.asked? = some (.label, name))
    (answer : step.symbol? = some (.label (step.before.label name step.request.origin).1))
    (same : ∀ key, step.after.held key = (step.before.label name step.request.origin).2.held key) :
    step.Effect := by
  refine .obtains .label name _ answer (fun question equal => ?_) ?_
  · rw [asked] at equal
    exact (Option.some.inj equal).symm
  · exact (obtains_label name step.request.origin).congr (fun _ => rfl) same

theorem effect (step : Step) : step.Effect := by
  obtain ⟨⟨question, origin⟩, table⟩ := step
  cases question with
  | symbol kind name writtenName =>
    have obtained := table.obtains_symbol kind name origin writtenName
    exact .obtains kind name _ (congrArg some (referent_of_symbolKey? obtained.symbolKey?))
      (fun _ equal => (Option.some.inj equal).symm) obtained
  | fieldOffset struct field =>
    have obtained := table.obtains_fieldOffset struct field origin
    exact .fieldOffset struct field _ (congrArg some (referent_of_symbolKey? obtained.symbolKey?))
      rfl obtained
  | freshLocalLabel comment =>
    obtain ⟨name, -, obtained⟩ := table.obtains_freshLocalLabel comment origin
    exact .obtains .localLabel name _ rfl (fun _ impossible => by cases impossible) obtained
  | labelReference name offset =>
    refine effect_of_label rfl rfl fun key => ?_
    show (if isTemplate name then (table.label name origin).2
      else (table.label name origin).2.noteUse name).held key = _
    split
    · rfl
    · exact held_noteUse name key
  | noteUse name => exact effect_of_label rfl rfl (held_noteUse name)
  | defineLabel name => exact effect_of_label rfl rfl (held_updateFlags name _)
  | labelDefinition name =>
    have answer : (table.labelDefinition name origin).1 = (table.label name origin).1 := by
      unfold labelDefinition
      split <;> rfl
    refine effect_of_label rfl (congrArg (fun mark => some (Node.label mark)) answer) fun key => ?_
    show (table.labelDefinition name origin).2.held key = _
    unfold labelDefinition
    split
    · rfl
    · exact held_updateFlags name _ key
  | declare declaration name =>
    rcases declare_eq table declaration name origin with ⟨-, same⟩ | ⟨-, problem, -, same⟩
    · refine effect_of_label rfl ?_ fun key => ?_
      · simp [symbol?, outcome, Request.perform, same, Except.map, referent]
      · simp [after, Request.perform, same, held_updateFlags]
    · refine .keeps ?_ (.inr ?_) fun key => ?_
      · simp [symbol?, outcome, Request.perform, same, Except.map]
      · simp [succeeds, outcome, Request.perform, same, Except.map, Except.isOk, Except.toBool]
      · simp [after, Request.perform, same]
  | resetReferenced => exact .keeps rfl (.inl rfl) (held_of_eq rfl rfl)

end Step

theorem held_of_obtained (answer : step.symbol? = some symbol)
    (obtained : Obtains key fresh symbol step.before step.after) (other : SymbolKey) :
    step.after.held other =
      if step.before.held other = [] ∧ step.identity? = some other then step.symbol?.toList
      else step.before.held other := by
  have identity : step.identity? = some key := by
    rw [Step.identity?, answer]
    exact obtained.symbolKey?
  by_cases own : other = key
  · rw [own, obtained.own, answer, obtained.symbol, identity]
    cases step.before.held key <;> simp
  · rw [obtained.others _ own, identity]
    simp [Ne.symm own]

theorem held_after (step : Step) (key : SymbolKey) : step.after.held key =
      if step.before.held key = [] ∧ step.identity? = some key then step.symbol?.toList
      else step.before.held key := by
  cases step.effect with
  | keeps answer _ same =>
    have unanswered : step.identity? = none := by rw [Step.identity?, answer]; rfl
    rw [same, unanswered]
    simp
  | obtains _ _ _ answer _ obtained | fieldOffset _ _ _ answer _ obtained =>
    exact held_of_obtained answer obtained key

/-- The symbol that a request is answered with is the one that the table holds afterwards. -/
theorem head?_held_after (identity : step.identity? = some key) :
    (step.after.held key).head? = step.symbol? := by
  cases step.effect with
  | keeps answer _ _ =>
    rw [Step.identity?, answer] at identity
    cases identity
  | obtains kind name symbol answer _ obtained =>
    rw [Step.identity?, answer, Option.bind_some, obtained.symbolKey?] at identity
    rw [← Option.some.inj identity, obtained.head?_held, answer]
  | fieldOffset struct field symbol answer _ obtained =>
    rw [Step.identity?, answer, Option.bind_some, obtained.symbolKey?] at identity
    rw [← Option.some.inj identity, obtained.head?_held, answer]

/-! ### The symbols of a history -/

def firstStep? (steps : List Step) (key : SymbolKey) : Option Step :=
  steps.find? fun step => decide (step.identity? = some key)

theorem firstStep?_concat (steps : List Step) (step : Step) (key : SymbolKey) :
    firstStep? (steps ++ [step]) key =
      (firstStep? steps key).or (if step.identity? = some key then some step else none) := by
  unfold firstStep?
  rw [find?_append, find?_singleton]
  simp only [decide_eq_true_eq]

theorem exists_symbol_of_firstStep? {steps : List Step} {first : Step}
    (found : firstStep? steps key = some first) :
    ∃ symbol, first.symbol? = some symbol ∧ symbol.symbolKey? = some key :=
  Option.bind_eq_some_iff.mp (of_decide_eq_true (find?_some found :))

/-- After any requests, a table holds one symbol under each identity that a request came to, the one
that the first of them was answered with. -/
theorem held_performAll_key (requests : List Request) (key : SymbolKey) :
    (performAll requests .empty).held key =
      ((firstStep? (history requests .empty) key).bind Step.symbol?).toList := by
  induction requests using List.reverseRecOn with
  | nil => cases key <;> rfl
  | append_singleton earlier request ih =>
    rw [performAll_concat, history_concat, firstStep?_concat, held_after, ih]
    cases found : firstStep? (history earlier .empty) key with
    | some first =>
      obtain ⟨symbol, answer, -⟩ := exists_symbol_of_firstStep? found
      simp [answer]
    | none =>
      by_cases own : Step.identity? ⟨request, performAll earlier .empty⟩ = some key
      · simp [own]
      · simp [own]

/-- The table of the first request that came to an identity held nothing under it. -/
theorem held_before_first {requests : List Request} {first : Step}
    (found : firstStep? (history requests .empty) key = some first) :
    first.before.held key = [] := by
  induction requests using List.reverseRecOn with
  | nil => cases found
  | append_singleton earlier request ih =>
    rw [history_concat, firstStep?_concat] at found
    cases before : firstStep? (history earlier .empty) key with
    | some other =>
      rw [before] at found
      exact ih (before.trans found)
    | none =>
      rw [before, Option.none_or] at found
      obtain rfl := Option.some.inj (Option.ite_none_right_eq_some.mp found).2
      rw [held_performAll_key, before]
      rfl

theorem Step.eq_node_of_new (new : step.before.held (kind.key name) = [])
    (answer : step.symbol? = some node) (identity : node.symbolKey? = some (kind.key name)) :
    node = kind.node name step.request.origin step.request.question.writtenName := by
  cases step.effect with
  | keeps unanswered _ _ =>
    rw [answer] at unanswered
    cases unanswered
  | obtains otherKind otherName symbol otherAnswer _ obtained =>
    obtain rfl := Option.some.inj (otherAnswer.symm.trans answer)
    obtain ⟨rfl, rfl⟩ :=
      SymbolKind.key_inj.mp (Option.some.inj (identity.symm.trans obtained.symbolKey?))
    rw [obtained.symbol, new]
    rfl
  | fieldOffset struct field symbol otherAnswer _ obtained =>
    obtain rfl := Option.some.inj (otherAnswer.symm.trans answer)
    rw [obtained.symbolKey?] at identity
    cases kind <;> cases identity

/-- After any requests, a table holds one symbol under each kind and name that a request came to,
and it is the symbol that the first of them made. -/
theorem held_performAll (requests : List Request) (kind : SymbolKind) (name : String) :
    (performAll requests .empty).held (kind.key name) =
      ((firstStep? (history requests .empty) (kind.key name)).map fun first =>
        kind.node name first.request.origin first.request.question.writtenName).toList := by
  rw [held_performAll_key]
  cases found : firstStep? (history requests .empty) (kind.key name) with
  | none => rfl
  | some first =>
    obtain ⟨symbol, answer, identity⟩ := exists_symbol_of_firstStep? found
    have made := Step.eq_node_of_new (held_before_first found) answer identity
    simp [answer, made]

theorem held_performAll_of_ne_nil (requests : List Request) (holds : table.held key ≠ []) :
    (performAll requests table).held key = table.held key := by
  induction requests generalizing table with
  | nil => rfl
  | cons request rest ih =>
    have same : (Step.after ⟨request, table⟩).held key = table.held key := by
      rw [held_after, if_neg fun missing => holds missing.1]
    rw [performAll, ih (same.symm ▸ holds), same]

/-- The symbol that a request was answered with is the one that the table holds ever after. -/
theorem held_of_mem_history {requests : List Request} (mem : step ∈ history requests .empty)
    (answer : step.symbol? = some node) (identity : node.symbolKey? = some key) :
    (performAll requests .empty).held key = [node] := by
  obtain ⟨earlier, later, rfl, before⟩ := exists_of_mem_history mem
  have reached : step.after = performAll (earlier ++ [step.request]) .empty := by
    rw [performAll_concat, ← before]
  have first : (step.after.held key).head? = some node := by
    rw [head?_held_after (by rw [Step.identity?, answer]; exact identity), answer]
  have single : step.after.held key = [node] := by
    rw [reached, held_performAll_key] at first ⊢
    cases made : (firstStep? (history (earlier ++ [step.request]) .empty) key).bind Step.symbol? with
    | none => simp [made] at first
    | some firstStep => simpa [made] using first
  rw [append_cons, performAll_append, ← reached,
    held_performAll_of_ne_nil later (by simp [single]), single]

/-! ### One symbol for each kind and name -/

namespace Step

def Gives (step : Step) (kind : SymbolKind) (name : String) (node : Node) : Prop :=
  step.symbol? = some node ∧ node.symbolKey? = some (kind.key name)

theorem exists_gives (asked : step.request.question.asked? = some (kind, name))
    (succeeds : step.succeeds) : ∃ node, step.Gives kind name node := by
  cases step.effect with
  | keeps _ unasked _ =>
    rcases unasked with unasked | fails
    · rw [unasked] at asked
      cases asked
    · rw [fails] at succeeds
      cases succeeds
  | obtains otherKind otherName symbol answer same obtained =>
    obtain ⟨rfl, rfl⟩ := Prod.mk.inj (same _ asked)
    exact ⟨symbol, answer, obtained.symbolKey?⟩
  | fieldOffset struct field symbol answer unasked obtained =>
    rw [unasked] at asked
    cases asked

theorem exists_declare_of_fails (fails : step.succeeds = false) :
    ∃ declaration name, step.request.question = .declare declaration name := by
  obtain ⟨⟨question, origin⟩, table⟩ := step
  cases question with
  | declare declaration name => exact ⟨declaration, name, rfl⟩
  | _ => cases fails

end Step

/-- Over any requests, there is one symbol for each kind and name. A request that asks for them
gives a symbol of exactly that kind and name, unless it is a declaration that fails. Two requests
give the same symbol if and only if they ask for the same kind and name. And the symbol is what the
first request that came to it made, with its location and the name it was written with, and the
table still holds it after all requests. -/
theorem one_symbol_for_each_name (requests : List Request) :
    let steps := history requests .empty
    (∀ step ∈ steps, ∀ kind name, step.request.question.asked? = some (kind, name) →
      (∃ node, step.Gives kind name node) ∨
        step.succeeds = false ∧ ∃ declaration, step.request.question = .declare declaration name) ∧
    (∀ step ∈ steps, ∀ other ∈ steps, ∀ kind name node otherKind otherName otherNode,
      step.Gives kind name node → other.Gives otherKind otherName otherNode →
        (node = otherNode ↔ kind = otherKind ∧ name = otherName)) ∧
    (∀ step ∈ steps, ∀ kind name node, step.Gives kind name node →
      (performAll requests .empty).held (kind.key name) = [node] ∧
      ∃ first, firstStep? steps (kind.key name) = some first ∧
        node = kind.node name first.request.origin first.request.question.writtenName) := by
  refine ⟨fun step _ kind name asked => ?_, ?_, ?_⟩
  · cases succeeds : step.succeeds with
    | true => exact .inl (Step.exists_gives asked succeeds)
    | false =>
      obtain ⟨declaration, declared, same⟩ := Step.exists_declare_of_fails succeeds
      rw [same] at asked
      cases asked
      exact .inr ⟨rfl, declaration, same⟩
  · rintro step member other otherMember kind name node otherKind otherName otherNode
      ⟨answer, identity⟩ ⟨otherAnswer, otherIdentity⟩
    constructor
    · rintro rfl
      rw [identity] at otherIdentity
      exact SymbolKind.key_inj.mp (Option.some.inj otherIdentity)
    · rintro ⟨rfl, rfl⟩
      have held := held_of_mem_history member answer identity
      rw [held_of_mem_history otherMember otherAnswer otherIdentity] at held
      exact (List.singleton_inj.mp held).symm
  · rintro step member kind name node ⟨answer, identity⟩
    have held := held_of_mem_history member answer identity
    refine ⟨held, ?_⟩
    rw [held_performAll] at held
    obtain ⟨first, found, made⟩ :=
      Option.map_eq_some_iff.mp (Option.toList_eq_singleton_iff.mp held)
    exact ⟨first, found, made.symm⟩

/-! ### Fresh labels of a run -/

/-- A local label that was given in a run is interned from then on. -/
theorem isInterned_of_mem_history {requests : List Request} {mark : LocalLabel}
    (mem : step ∈ history requests .empty) (answer : step.symbol? = some (.localLabel mark)) :
    (performAll requests .empty).IsInterned mark.name := by
  have holds : .localLabel mark ∈ (performAll requests .empty).held (.localLabel mark.name.key) := by
    rw [held_of_mem_history mem answer rfl]
    exact mem_singleton.mpr rfl
  rw [held_of_not_label fun _ => SymbolKey.noConfusion] at holds
  exact isInterned_iff.mpr (mem_map.mpr ⟨_, mem_of_mem_filter holds, rfl⟩)

/-- A fresh local label can be had of every table. The search for its name ends, at the comment
after an underscore if that is free and else at the least number above the counter that makes the
name free, and the label is the only thing that is new in the table. So over any requests, a fresh
label has another name than every local label, fresh or written, that was given before it. -/
theorem fresh_labels_distinct (requests : List Request) :
    (∀ (table : SymbolTable) comment origin, ∃ mark after,
      table.freshLocalLabel comment origin = (mark, after) ∧
        Draws comment origin table mark after ∧ table.counter ≤ after.counter) ∧
    (history requests .empty).Pairwise fun earlier later =>
      ∀ comment, later.request.question = .freshLocalLabel comment →
        ∃ fresh, later.symbol? = some (.localLabel fresh) ∧
          ∀ given, earlier.symbol? = some (.localLabel given) →
            given.name.key ≠ fresh.name.key := by
  constructor
  · intro table comment origin
    have draws := draws_freshLocalLabel table comment origin
    refine ⟨_, _, rfl, draws, ?_⟩
    by_cases taken : table.IsInterned (.text ("_" ++ comment))
    · exact (draws.numbered taken).2.1.le
    · exact (draws.simple taken).2.ge
  · induction requests using List.reverseRecOn with
    | nil => exact .nil
    | append_singleton requests request ih =>
      rw [history_concat, pairwise_append]
      refine ⟨ih, pairwise_singleton _ _, fun earlier mem later isLast comment asked => ?_⟩
      obtain rfl := mem_singleton.mp isLast
      obtain ⟨question, origin⟩ := request
      obtain rfl := asked
      refine ⟨_, rfl, fun given answer same => ?_⟩
      have interned := isInterned_of_mem_history mem answer
      rw [isInterned_iff, same, ← isInterned_iff] at interned
      exact (draws_freshLocalLabel _ comment origin).fresh interned

end MacroAssembler.SymbolTable
