/-
This module says which local labels of a unit share an assembler symbol.

The symbol of a local label is made of its name, in which a leading dot becomes an underscore. So
two labels of different names share a symbol exactly if one name begins with a dot and the other one
has an underscore in its place. The labels that are minted for invocations begin with underscores,
so the label with the dot is one that the document writes, and minted labels never share a symbol.
-/
import MacroAssembler.Proofs.CarriedProperties
import MacroAssembler.Proofs.PreludeMacros
import MacroAssembler.Proofs.SymbolAccounting

namespace MacroAssembler

open Node

/-! ### Symbols -/

namespace LocalLabel

variable {mark first second : LocalLabel} {clean symbol : String}

theorem cleanName_ok :
    mark.cleanName = .ok clean ↔ (mark.name = .text clean ∧ ∀ rest, clean ≠ "." ++ rest) ∨
      ∃ rest, mark.name = .text ("." ++ rest) ∧ clean = "_" ++ rest := by
  have dotted : ∀ rest : List Char, String.ofList ('.' :: rest) = "." ++ String.ofList rest :=
    fun rest => String.toList_inj.mp (by simp)
  have scored : ∀ rest : List Char, String.ofList ('_' :: rest) = "_" ++ String.ofList rest :=
    fun rest => String.toList_inj.mp (by simp)
  unfold cleanName
  constructor
  · intro spelled
    split at spelled
    · rename_i content named
      split at spelled
      · rename_i rest begins
        cases spelled
        refine .inr ⟨String.ofList rest, ?_, scored rest⟩
        rw [named, ← dotted, ← begins, String.ofList_toList]
      · rename_i plain
        cases spelled
        refine .inl ⟨named, ?_⟩
        rintro rest rfl
        exact plain rest.toList (by simp)
    · cases spelled
  · rintro (⟨named, plain⟩ | ⟨rest, named, rfl⟩)
    · rw [named]
      dsimp only
      split
      · rename_i rest begins
        refine absurd ?_ (plain (String.ofList rest))
        rw [← dotted, ← begins, String.ofList_toList]
      · rfl
    · rw [named]
      have begins : ("." ++ rest).toList = '.' :: rest.toList := by simp
      simp only [begins, scored, String.ofList_toList]

theorem symbol_ok : mark.symbol = .ok symbol ↔
      ∃ clean, mark.cleanName = .ok clean ∧ "_offlineasm_" ++ clean = symbol := by
  simp only [LocalLabel.symbol, Checked.bind_ok, pure, Except.pure, Except.ok.injEq]

/-- Whether one label is named with a dot where another one is named with an underscore. -/
def IsTwin (dotted other : LocalLabel) : Prop :=
  ∃ rest, dotted.name = .text ("." ++ rest) ∧ other.name = .text ("_" ++ rest)

theorem IsTwin.cleanName {dotted other : LocalLabel} (twin : dotted.IsTwin other) :
    dotted.cleanName = other.cleanName := by
  obtain ⟨rest, named, otherNamed⟩ := twin
  rw [cleanName_ok.mpr (.inr ⟨rest, named, rfl⟩)]
  refine (cleanName_ok.mpr (.inl ⟨otherNamed, fun other same => ?_⟩)).symm
  have begins := congrArg (·.toList.head?) same
  simp at begins

theorem cleanName_eq (spelled : first.cleanName = .ok clean) (other : second.cleanName = .ok clean) :
    first.name = second.name ∨ first.IsTwin second ∨ second.IsTwin first := by
  rcases cleanName_ok.mp spelled with ⟨named, -⟩ | ⟨rest, named, rfl⟩ <;>
    rcases cleanName_ok.mp other with ⟨otherNamed, -⟩ | ⟨otherRest, otherNamed, same⟩
  · exact .inl (named.trans otherNamed.symm)
  · exact .inr (.inr ⟨otherRest, otherNamed, same ▸ named⟩)
  · exact .inr (.inl ⟨rest, named, otherNamed⟩)
  · rw [(String.append_right_inj _).mp same] at named
    exact .inl (named.trans otherNamed.symm)

theorem symbol_ok_iff (spelled : first.symbol = .ok symbol) : second.symbol = .ok symbol ↔
      first.name = second.name ∨ first.IsTwin second ∨ second.IsTwin first := by
  obtain ⟨clean, cleans, rfl⟩ := symbol_ok.mp spelled
  constructor
  · intro otherSpelled
    obtain ⟨otherClean, otherCleans, same⟩ := symbol_ok.mp otherSpelled
    exact cleanName_eq cleans ((String.append_right_inj _).mp same ▸ otherCleans)
  · intro related
    refine symbol_ok.mpr ⟨clean, ?_, rfl⟩
    rw [← cleans]
    rcases related with same | twin | twin
    · unfold cleanName
      rw [same]
    · exact twin.cleanName.symm
    · exact twin.cleanName

end LocalLabel

/-! ### Labels of the expanded tree -/

/-- Whether a part, if it is a local label, stands in a tree or begins with an underscore. -/
def Node.IsTraced (tree part : Node) : Prop :=
  ∀ mark, part = .localLabel mark →
    .localLabel mark ∈ tree.flatten ∨ ∃ rest, mark.name = .text ("_" ++ rest)

theorem SymbolTable.localLabel_text (table : SymbolTable) (name : String) (origin : Origin) :
    (table.localLabel (.text name) origin).1.name = .text name := by
  unfold localLabel findLocal?
  split
  · rename_i mark known
    split at known
    · rename_i found
      cases known
      have matching := List.find?_some found
      obtain ⟨_, ⟨⟩, same⟩ := symbolKey?_localLabel.mp (of_decide_eq_true matching)
      exact Name.eq_text_of_key same
    · cases known
  · rfl

/-- Labels are kept, or minted with an underscore in front. -/
instance {tree : Node} : IsCarried tree.IsTraced tree.IsTraced where
  kept := id
  rebuilt := by
    rintro node _ built sameNumber traced mark rfl
    obtain ⟨-, -, same⟩ := rebuild_ok built sameNumber
    cases node with
    | localLabel =>
      cases built
      exact traced mark rfl
    | label => cases built
    | _ => cases same.label

instance {tree : Node} : IsMade tree.IsTraced where
  made := by
    rintro _ made mark rfl
    cases made
  fresh table comment origin := by
    rintro mark ⟨⟩
    refine .inr ?_
    unfold SymbolTable.freshLocalLabel
    dsimp only
    split
    · rw [SymbolTable.localLabel_text, SymbolTable.numberedName, String.append_assoc,
        String.append_assoc]
      exact ⟨_, rfl⟩
    · exact ⟨_, SymbolTable.localLabel_text _ _ _⟩

namespace Compilation

/-- The local labels of an accepted tree are those of the loaded one. -/
theorem Accepts.isTraced {includePrelude : Bool} {loaded accepted : Node}
    {before after : SymbolTable} (accepts : Accepts includePrelude loaded before accepted after) :
    accepted.Throughout loaded.IsTraced := by
  have own : loaded.Throughout loaded.IsTraced := fun _ inside _ same => .inl (same ▸ inside)
  cases accepts with
  | plain => exact own
  | withPrelude defines built =>
    rw [(Specialization.prelude_ok built).1]
    refine throughout_made rfl (List.forall_mem_append.mpr
      ⟨fun definition mem part inside mark same => ?_, fun _ mem => own.statement mem⟩)
    have parts := Specialization.macrosIn_parts _ definition (List.mem_of_mem_filter mem)
    exact absurd same ((parts part inside).2 mark)

variable {config : Configuration} {includePrelude : Bool} {document : Value}
  {filename : String} {emission : Emission}

/-- Two local labels of the expanded tree have the same symbol exactly if they have the same name,
or if one of them is written in the document with a dot and the other one has an underscore in its
place. Every local symbol that the lines write is that of a label of the expanded tree, and the texts
of the lines show it. -/
theorem localSymbols_shared {limit : Int} {after : Compilation}
    (machine : config.architecture.emitsHostCode = false)
    (succeeded : (runDocument document filename).perform
      (start config .empty includePrelude limit) = (.ok emission, after)) :
    ∃ passes, Compiles config includePrelude document filename passes emission ∧
      (∀ first second symbol, .localLabel first ∈ after.currentTree.flatten →
        .localLabel second ∈ after.currentTree.flatten → first.symbol = .ok symbol →
          (second.symbol = .ok symbol ↔ first.name = second.name ∨
            (first.IsTwin second ∧ .localLabel first ∈ passes.loaded.flatten) ∨
            (second.IsTwin first ∧ .localLabel second ∈ passes.loaded.flatten))) ∧
      ∀ line ∈ passes.lines, ∀ symbol, .localSymbol symbol ∈ line.targets →
        Contains line.text ("(" ++ symbol ++ ")") ∧
          ∃ mark, .localLabel mark ∈ after.currentTree.flatten ∧ mark.symbol = .ok symbol := by
  obtain ⟨passes, table, state, code, compiles, expands, lowers, emits⟩ :=
    runDocument_lowers machine succeeded
  obtain ⟨-, accepts, folds, -⟩ := id compiles
  have traced : after.currentTree.Throughout passes.loaded.IsTraced :=
    ((Expander.carries_expand limit (accepts.isTraced.foldedWith folds)).ok
      (Expander.knows_fresh table) expands).2
  have written : ∀ dotted other : LocalLabel, .localLabel dotted ∈ after.currentTree.flatten →
      dotted.IsTwin other → .localLabel dotted ∈ passes.loaded.flatten := by
    rintro dotted other inside ⟨rest, named, -⟩
    refine (traced _ inside dotted rfl).resolve_right ?_
    rintro ⟨minted, same⟩
    have begins := congrArg (·.toList.head?) (Name.text.inj (named.symm.trans same))
    simp at begins
  refine ⟨passes, compiles, fun first second symbol inside otherInside spelled => ?_,
    fun line member symbol written => ?_⟩
  · rw [LocalLabel.symbol_ok_iff spelled]
    refine or_congr_right (or_congr ⟨fun twin => ⟨twin, ?_⟩, And.left⟩
      ⟨fun twin => ⟨twin, ?_⟩, And.left⟩)
    · exact written first second inside twin
    · exact written second first otherInside twin
  · have shown := contains_shown written
    refine ⟨shown, Assembly.lower_localSymbol lowers (List.mem_flatMap.mpr ⟨line, ?_, written⟩)⟩
    rwa [← emits]

/-! ### Units with twins -/

def localLabelIn (name : String) : Value := documentNode "LocalLabel" [("name", .text name)]

def labelledMacro (label : String) : Value :=
  documentOf [documentNode "Macro" [("name", .text "m"), ("variables", .list [.text "x"]),
      ("body", documentOf [localLabelIn ".a"])],
    localLabelIn label,
    documentNode "MacroCall" [("name", .text "m"), ("operands",
      .list [documentNode "Immediate" [("value", .integer 0)]])],
    documentNode "MacroCall" [("name", .text "m"), ("operands",
      .list [documentNode "Immediate" [("value", .integer 1)]])]]

/-- The labels that are minted for the two invocations have symbols of their own. -/
theorem localSymbols_shared_minted :
    let emission : Emission := ⟨"ARM64", ["OFFLINE_ASM_BEGIN",
      "OFFLINE_ASM_LOCAL_LABEL(_offlineasm__m_a)", "OFFLINE_ASM_LOCAL_LABEL(_offlineasm__m__a)",
      "OFFLINE_ASM_LOCAL_LABEL(_offlineasm__1_m__a)", "OFFLINE_ASM_END"], [], []⟩
    let after := (compiled (labelledMacro "_m_a")).2
    ∃ passes, Compiles plainMachine false (labelledMacro "_m_a") "<json>" passes emission ∧
      (∀ first second symbol, .localLabel first ∈ after.currentTree.flatten →
        .localLabel second ∈ after.currentTree.flatten → first.symbol = .ok symbol →
          (second.symbol = .ok symbol ↔ first.name = second.name ∨
            (first.IsTwin second ∧ .localLabel first ∈ passes.loaded.flatten) ∨
            (second.IsTwin first ∧ .localLabel second ∈ passes.loaded.flatten))) ∧
      ∀ line ∈ passes.lines, ∀ symbol, .localSymbol symbol ∈ line.targets →
        Contains line.text ("(" ++ symbol ++ ")") ∧
          ∃ mark, .localLabel mark ∈ after.currentTree.flatten ∧ mark.symbol = .ok symbol := by
  intro emission after
  have succeeded : (compiled (labelledMacro "_m_a")).1 = .ok emission := by decide +kernel
  exact localSymbols_shared rfl (Action.perform_of_fst succeeded)

/-- Two labels of a unit with one symbol, and a label of a unit with the symbol of a label that is
minted for an invocation. -/
theorem localSymbols_twins :
    (compiled (documentOf [localLabelIn ".a", localLabelIn "_a"])).1 =
        .ok ⟨"ARM64", ["OFFLINE_ASM_BEGIN", "OFFLINE_ASM_LOCAL_LABEL(_offlineasm__a)",
          "OFFLINE_ASM_LOCAL_LABEL(_offlineasm__a)", "OFFLINE_ASM_END"], [], []⟩ ∧
      (compiled (labelledMacro ".m__a")).1 = .ok ⟨"ARM64", ["OFFLINE_ASM_BEGIN",
        "OFFLINE_ASM_LOCAL_LABEL(_offlineasm__m__a)", "OFFLINE_ASM_LOCAL_LABEL(_offlineasm__m__a)",
        "OFFLINE_ASM_LOCAL_LABEL(_offlineasm__1_m__a)", "OFFLINE_ASM_END"], [], []⟩ := by
  decide +kernel

end Compilation

end MacroAssembler
