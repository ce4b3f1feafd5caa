/-
This module says which offsets of fields are one symbol.

The offset of a field is identified by one text, the name of the structure and the name of the field
with a double colon between them. So two offsets are one symbol exactly if their texts are the same,
and the symbol carries the names of the request that first came to that text. The names can be read
off the text if it is clear which double colon stands between them: the first one, if the structure
has a plain name, or the last one, if the field has.
-/
import MacroAssembler.Proofs.SymbolIdentity

namespace MacroAssembler

open List

/-! ### Texts with a double colon -/

/-- Whether a name holds no double colon, and none comes about where another one follows it. -/
def IsPlainBefore (name : List Char) : Prop := ¬ [':', ':'] <:+: name ++ [':']

theorem eq_nil_of_joined {name middle rest more : List Char}
    (joined : ':' :: ':' :: rest = middle ++ ':' :: ':' :: more)
    (plain : IsPlainBefore (name ++ middle)) : middle = [] := by
  match middle with
  | [] => rfl
  | [mark] =>
    obtain rfl : ':' = mark := (List.cons.inj joined).1
    exact absurd ⟨name, [], by simp⟩ plain
  | mark :: next :: middle =>
    obtain ⟨rfl, rfl, -⟩ : ':' = mark ∧ ':' = next ∧ _ := by simpa using joined
    exact absurd ⟨name, middle ++ [':'], by simp⟩ plain

theorem eq_of_joined {first second other otherSecond : List Char}
    (joined : first ++ ':' :: ':' :: second = other ++ ':' :: ':' :: otherSecond)
    (plain : IsPlainBefore first) (otherPlain : IsPlainBefore other) : first = other := by
  rcases append_eq_append_iff.mp joined with ⟨middle, rfl, rest⟩ | ⟨middle, rfl, rest⟩
  · rw [eq_nil_of_joined rest otherPlain, append_nil]
  · rw [eq_nil_of_joined rest plain, append_nil]

/-- Whether it is clear which double colon stands between the names of a structure and of a field, as
far as two fields are concerned: both structures or both fields have plain names. -/
def AreApart (struct field otherStruct otherField : String) : Prop :=
  IsPlainBefore struct.toList ∧ IsPlainBefore otherStruct.toList ∨
    IsPlainBefore field.toList.reverse ∧ IsPlainBefore otherField.toList.reverse

theorem key_offset_inj {struct field otherStruct otherField : String}
    (apart : AreApart struct field otherStruct otherField) :
    LayoutConstant.key (.offset struct field) = LayoutConstant.key (.offset otherStruct otherField) ↔
      struct = otherStruct ∧ field = otherField := by
  refine ⟨fun same => ?_, fun ⟨sameStruct, sameField⟩ => by rw [sameStruct, sameField]⟩
  have joined : struct.toList ++ ':' :: ':' :: field.toList =
      otherStruct.toList ++ ':' :: ':' :: otherField.toList := by
    simpa [LayoutConstant.key] using congrArg String.toList same
  rw [← String.toList_inj, ← String.toList_inj]
  rcases apart with ⟨plain, otherPlain⟩ | ⟨plain, otherPlain⟩
  · have sameStruct := eq_of_joined joined plain otherPlain
    rw [sameStruct] at joined
    exact ⟨sameStruct, by simpa using joined⟩
  · -- Read backwards, the field comes before the double colon.
    have backwards := congrArg reverse joined
    simp only [reverse_append, reverse_cons, append_assoc, cons_append, nil_append] at backwards
    have sameField := reverse_injective (eq_of_joined backwards plain otherPlain)
    rw [sameField] at joined
    exact ⟨by simpa using joined, sameField⟩

namespace SymbolTable

/-! ### Requests for the offset of a field -/

namespace Step

variable {step : Step} {struct field text : String} {node : Node}

def GivesOffset (step : Step) (struct field : String) (node : Node) : Prop :=
  step.request.question = .fieldOffset struct field ∧ step.outcome = .ok (some node)

theorem exists_givesOffset (asked : step.request.question = .fieldOffset struct field) :
    ∃ node, step.GivesOffset struct field node := by
  obtain ⟨⟨_, origin⟩, table⟩ := step
  obtain rfl := asked
  exact ⟨_, rfl, rfl⟩

theorem GivesOffset.symbolKey? (gives : step.GivesOffset struct field node) :
    step.symbol? = some node ∧
      node.symbolKey? = some (.fieldOffset (LayoutConstant.key (.offset struct field))) := by
  obtain ⟨⟨_, origin⟩, table⟩ := step
  obtain ⟨rfl, answered⟩ := gives
  cases answered
  have obtained := table.obtains_fieldOffset struct field origin
  exact ⟨congrArg some (referent_of_symbolKey? obtained.symbolKey?), obtained.symbolKey?⟩

theorem exists_fieldOffset (answer : step.symbol? = some node)
    (identity : node.symbolKey? = some (.fieldOffset text)) :
    ∃ struct field, step.request.question = .fieldOffset struct field := by
  cases step.effect with
  | keeps unanswered _ _ =>
    rw [answer] at unanswered
    cases unanswered
  | obtains kind name symbol otherAnswer _ obtained =>
    obtain rfl := Option.some.inj (otherAnswer.symm.trans answer)
    rw [obtained.symbolKey?] at identity
    cases kind <;> cases identity
  | fieldOffset _ _ _ _ unasked _ =>
    obtain ⟨⟨question, origin⟩, table⟩ := step
    cases question with
    | fieldOffset struct field => exact ⟨struct, field, rfl⟩
    | freshLocalLabel =>
      cases answer
      cases identity
    | resetReferenced => cases answer
    | _ => cases unasked

theorem GivesOffset.eq_of_new (gives : step.GivesOffset struct field node)
    (new : step.before.held (.fieldOffset (LayoutConstant.key (.offset struct field))) = []) :
    node = .layout step.request.origin (.offset struct field) := by
  obtain ⟨⟨_, origin⟩, table⟩ := step
  obtain ⟨rfl, answered⟩ := gives
  cases answered
  have empty : table.held (.fieldOffset (LayoutConstant.key (.offset struct field))) = [] := new
  have made := (table.obtains_fieldOffset struct field origin).symbol
  rwa [empty] at made

end Step

/-- Over any requests, a request for the offset of a field is answered. Two of them give the same
symbol if and only if the names with a double colon between them are the same text, so if and only
if the names are the same where it is clear which double colon that is. The symbol has the location
and the names of the first request with its text. -/
theorem offsets_joined (requests : List Request) :
    let steps := history requests .empty
    (∀ step ∈ steps, ∀ struct field, step.request.question = .fieldOffset struct field →
      ∃ node, step.GivesOffset struct field node) ∧
    (∀ step ∈ steps, ∀ other ∈ steps, ∀ struct field node otherStruct otherField otherNode,
      step.GivesOffset struct field node → other.GivesOffset otherStruct otherField otherNode →
        (node = otherNode ↔ struct ++ "::" ++ field = otherStruct ++ "::" ++ otherField) ∧
        (AreApart struct field otherStruct otherField →
          (node = otherNode ↔ struct = otherStruct ∧ field = otherField))) ∧
    (∀ step ∈ steps, ∀ struct field node, step.GivesOffset struct field node →
      ∃ first ∈ steps, firstStep? steps (.fieldOffset (struct ++ "::" ++ field)) = some first ∧
        ∃ firstStruct firstField, first.GivesOffset firstStruct firstField node ∧
          firstStruct ++ "::" ++ firstField = struct ++ "::" ++ field ∧
          node = .layout first.request.origin (.offset firstStruct firstField) ∧
          (AreApart firstStruct firstField struct field →
            node = .layout first.request.origin (.offset struct field))) := by
  refine ⟨fun step _ struct field asked => Step.exists_givesOffset asked, ?_, ?_⟩
  · intro step member other otherMember struct field node otherStruct otherField otherNode gives
      otherGives
    obtain ⟨answer, identity⟩ := gives.symbolKey?
    obtain ⟨otherAnswer, otherIdentity⟩ := otherGives.symbolKey?
    have joined : node = otherNode ↔
        struct ++ "::" ++ field = otherStruct ++ "::" ++ otherField := by
      constructor
      · rintro rfl
        rw [identity] at otherIdentity
        exact SymbolKey.fieldOffset.inj (Option.some.inj otherIdentity)
      · intro same
        have held := held_of_mem_history member answer identity
        rw [show LayoutConstant.key (.offset struct field) =
          LayoutConstant.key (.offset otherStruct otherField) from same,
          held_of_mem_history otherMember otherAnswer otherIdentity] at held
        exact (List.singleton_inj.mp held).symm
    exact ⟨joined, fun apart => joined.trans (key_offset_inj apart)⟩
  · intro step member struct field node gives
    obtain ⟨answer, identity⟩ := gives.symbolKey?
    have held := held_of_mem_history member answer identity
    rw [held_performAll_key] at held
    obtain ⟨first, found, firstAnswer⟩ :=
      Option.bind_eq_some_iff.mp (Option.toList_eq_singleton_iff.mp held)
    obtain ⟨firstStruct, firstField, asked⟩ := Step.exists_fieldOffset firstAnswer identity
    obtain ⟨made, firstGives⟩ := Step.exists_givesOffset asked
    obtain ⟨madeAnswer, madeIdentity⟩ := firstGives.symbolKey?
    obtain rfl := Option.some.inj (madeAnswer.symm.trans firstAnswer)
    have joined : LayoutConstant.key (.offset firstStruct firstField) =
        LayoutConstant.key (.offset struct field) :=
      SymbolKey.fieldOffset.inj (Option.some.inj (madeIdentity.symm.trans identity))
    have carries := firstGives.eq_of_new (joined ▸ held_before_first found)
    refine ⟨first, mem_of_find?_eq_some found, found, firstStruct, firstField, firstGives, joined,
      carries, fun apart => ?_⟩
    obtain ⟨rfl, rfl⟩ := (key_offset_inj apart).mp joined
    exact carries

/-- The second request is answered with the offset of another field of another structure. -/
theorem offset_of_another_field :
    (history [⟨.fieldOffset "A::B" "c", .nowhere⟩, ⟨.fieldOffset "A" "B::c", .nowhere⟩]
        .empty).map Step.outcome =
      [.ok (some (.layout .nowhere (.offset "A::B" "c"))),
        .ok (some (.layout .nowhere (.offset "A::B" "c")))] := by
  rfl

end SymbolTable

end MacroAssembler
