/-
This module proves that the integers which are written can be read again.

An integer is written with its sign first, then the mark of its base if there is one, then its
digits. Digits are read from the left, and each makes the number that was read so far the base times
as large. A number that is written in decimal starts with a zero only if it is zero, as the reader
wants it where a number says its own base. Blanks around a number are taken off, but for the four
information separators: they count as white space elsewhere, and not around a number.
-/
import MacroAssembler.Node.Property
import MacroAssembler.Proofs.LoadedTrees

namespace MacroAssembler

namespace Text

open List

/-! ### Digits -/

variable {base number : Nat}

theorem digitIn?_digitChar (small : base ≤ 16) {digit : Nat} (below : digit < base) :
    digitIn? base digit.digitChar = some digit := by
  have each : ∀ digit < 16, digitIn? 16 digit.digitChar = some digit := by decide +kernel
  have known := each digit (by omega)
  unfold digitIn? at known ⊢
  dsimp only at known ⊢
  rw [Option.filter_eq_some_iff] at known ⊢
  exact ⟨known.1, decide_eq_true below⟩

theorem readDigits_digitChar (small : base ≤ 16) {digit : Nat} (below : digit < base) (value : Nat)
    (rest : List Char) : readDigits base value (digit.digitChar :: rest) =
      readDigits base (value * base + digit) rest := by
  have plain : digit.digitChar ≠ '_' := Nat.digitChar_ne '_' rfl
  rw [readDigits, digitIn?_digitChar small below]
  · rfl
  · exact fun _ _ mark => absurd mark plain

/-- Reading goes on after the digits of a number as after that number. -/
theorem readDigits_toDigits (large : 1 < base) (small : base ≤ 16) (number : Nat)
    (rest : List Char) :
    readDigits base 0 (Nat.toDigits base number ++ rest) = readDigits base number rest := by
  induction number using Nat.base_induction base large generalizing rest with
  | single number below =>
    rw [Nat.toDigits_of_lt_base below, singleton_append, readDigits_digitChar small below,
      Nat.zero_mul, Nat.zero_add]
  | digit number digit below positive ih =>
    rw [← Nat.toDigits_append_toDigits large positive below, append_assoc, ih,
      Nat.toDigits_of_lt_base below, singleton_append, readDigits_digitChar small below,
      Nat.mul_comm]

/-- The first digit of a number is no zero, unless the number is zero. -/
theorem exists_toDigits_cons (large : 1 < base) (number : Nat) :
    ∃ digit rest, Nat.toDigits base number = digit.digitChar :: rest ∧ digit < base ∧
      (digit = 0 → number = 0) := by
  induction number using Nat.base_induction base large with
  | single number below =>
    exact ⟨number, [], Nat.toDigits_of_lt_base below, below, id⟩
  | digit number digit below positive ih =>
    obtain ⟨first, rest, digits, firstBelow, zero⟩ := ih
    refine ⟨first, rest ++ Nat.toDigits base digit, ?_, firstBelow, fun isZero => ?_⟩
    · rw [← Nat.toDigits_append_toDigits large positive below, digits, cons_append]
    · exact absurd (zero isZero) (Nat.ne_of_gt positive)

theorem readNatural_toDigits (large : 1 < base) (small : base ≤ 16) (number : Nat) :
    readNatural base (Nat.toDigits base number) = some number := by
  obtain ⟨digit, rest, digits, below, -⟩ := exists_toDigits_cons large number
  have read := readDigits_toDigits large small number []
  rw [append_nil, digits, readDigits_digitChar small below, Nat.zero_mul, Nat.zero_add] at read
  rw [digits, readNatural, digitIn?_digitChar small below]
  exact read

theorem readMagnitude_hexadecimal (number : Nat) :
    readMagnitude .marked ('0' :: 'x' :: naturalDigits 16 number) = some number := by
  obtain ⟨digit, rest, digits, -, -⟩ := exists_toDigits_cons (by decide : 1 < 16) number
  have plain : digit.digitChar ≠ '_' := Nat.digitChar_ne '_' rfl
  have read := readNatural_toDigits (by decide : 1 < 16) (Nat.le_refl 16) number
  rw [digits] at read
  rw [naturalDigits, digits, readMagnitude, readAfterMark, read]
  exact fun _ mark => absurd (cons.inj mark).1 plain

theorem readMagnitude_decimal (number : Nat) :
    readMagnitude .marked (naturalDigits 10 number) = some number := by
  obtain ⟨digit, rest, digits, below, zero⟩ := exists_toDigits_cons (by decide : 1 < 10) number
  have read := readNatural_toDigits (by decide : 1 < 10) (by decide) number
  by_cases isZero : digit = 0
  · obtain rfl := zero isZero
    rfl
  · have marked : digit.digitChar ≠ '0' := fun mark => isZero (Nat.digitChar_eq_zero.mp mark)
    rw [naturalDigits, digits] at *
    rw [readMagnitude, read]
    all_goals exact fun _ mark => absurd (cons.inj mark).1 marked

theorem readSigned_signed {value : Int} {digits : List Char}
    (read : readMagnitude .marked digits = some value.natAbs)
    (unsigned : ∀ rest, digits ≠ '-' :: rest ∧ digits ≠ '+' :: rest) :
    readSigned .marked (if value < 0 then '-' :: digits else digits) = some value := by
  split
  · rw [readSigned, read]
    exact congrArg some (show -(value.natAbs : Int) = value by omega)
  · rw [readSigned, read]
    · exact congrArg some (show (value.natAbs : Int) = value by omega)
    · exact fun rest => (unsigned rest).1
    · exact fun rest => (unsigned rest).2

theorem readSigned_hexadecimal (value : Int) :
    readSigned .marked (hexadecimal value).toList = some value := by
  unfold hexadecimal
  rw [← apply_ite String.ofList, String.toList_ofList]
  exact readSigned_signed (readMagnitude_hexadecimal _) (by simp)

theorem readSigned_decimal (value : Int) :
    readSigned .marked (decimal value).toList = some value := by
  unfold decimal
  rw [← apply_ite String.ofList, String.toList_ofList]
  refine readSigned_signed (readMagnitude_decimal _) fun rest => ?_
  obtain ⟨digit, others, digits, -, -⟩ := exists_toDigits_cons (by decide : 1 < 10) value.natAbs
  rw [naturalDigits, digits]
  simp

/-! ### Blanks around a number -/

/-- Whether a character is blank around a number: white space that is no information separator. -/
def isSpacing (c : Char) : Bool := isBlank c && !(decide (28 ≤ c.toNat) && decide (c.toNat ≤ 31))

/-- Whether a character of a number is read as it is. -/
def IsNumeral (c : Char) : Prop := numeralOf c = c ∧ isNumberBlank c = false

theorem isNumeral_digitChar (digit : Nat) : IsNumeral digit.digitChar := by
  have each : ∀ digit < 16, IsNumeral digit.digitChar := by
    unfold IsNumeral
    decide +kernel
  by_cases below : digit < 16
  · exact each digit below
  · rw [Nat.digitChar_eq_star.mpr (Nat.le_of_not_lt below)]
    exact ⟨rfl, rfl⟩

theorem isNumberBlank_numeralOf {c : Char} (spacing : isSpacing c) :
    isNumberBlank (numeralOf c) := by
  have each : ∀ point < 127, blankPoints.holdsFrom false point → ¬ (28 ≤ point ∧ point ≤ 31) →
      point = 32 ∨ 9 ≤ point ∧ point ≤ 13 := by decide
  simp only [isSpacing, Bool.and_eq_true, Bool.not_eq_true', Bool.and_eq_false_iff,
    decide_eq_false_iff_not] at spacing
  unfold numeralOf
  split
  · rename_i ascii
    rcases each c.toNat ascii spacing.1 (by omega) with space | control
    · rw [show c = ' ' from Char.toNat_inj.mp space]
      rfl
    · simp [isNumberBlank, control]
  · rw [if_pos spacing.1]
    rfl

theorem dropWhile_early {α : Type} {test : α → Bool} {before inner : List α}
    (early : ∀ item ∈ before, test item) (kept : ∀ item ∈ inner, test item = false) :
    dropWhile test (before ++ inner) = inner := by
  rw [dropWhile_append_of_pos early]
  cases inner with
  | nil => rfl
  | cons item rest => exact dropWhile_cons_of_neg (by simp [kept item mem_cons_self])

theorem trimWhile_append {α : Type} {test : α → Bool} {before inner after : List α}
    (early : ∀ item ∈ before, test item) (kept : ∀ item ∈ inner, test item = false)
    (late : ∀ item ∈ after, test item) (nonempty : inner ≠ []) :
    trimWhile test (before ++ inner ++ after) = inner := by
  obtain ⟨first, rest, rfl⟩ := exists_cons_of_ne_nil nonempty
  have firstKept : ¬ test first := by simp [kept first mem_cons_self]
  rw [trimWhile, append_assoc, dropWhile_append_of_pos early, cons_append,
    dropWhile_cons_of_neg firstKept, ← cons_append, dropLastWhile, reverse_append,
    dropWhile_early, reverse_reverse]
  · exact fun item mem => late item (mem_reverse.mp mem)
  · exact fun item mem => kept item (mem_reverse.mp mem)

/-- Blanks around a number make no difference. -/
theorem readInteger?_append {style : IntegerStyle} {before number after : String}
    (early : ∀ c ∈ before.toList, isSpacing c) (late : ∀ c ∈ after.toList, isSpacing c)
    (numeral : number.toList ≠ [] ∧ ∀ c ∈ number.toList, IsNumeral c) :
    readInteger? style (before ++ number ++ after) = readSigned style number.toList := by
  have same : number.toList.map numeralOf = number.toList :=
    (map_congr_left fun c mem => (numeral.2 c mem).1).trans (map_id _)
  have blank : ∀ text : List Char, (∀ c ∈ text, isSpacing c) →
      ∀ c ∈ text.map numeralOf, isNumberBlank c := by
    intro text spacing c mem
    obtain ⟨written, writtenMem, rfl⟩ := mem_map.mp mem
    exact isNumberBlank_numeralOf (spacing written writtenMem)
  rw [readInteger?, String.toList_append, String.toList_append, map_append, map_append, same,
    trimWhile_append (blank _ early) (fun c mem => (numeral.2 c mem).2) (blank _ late) numeral.1]

theorem isNumeral_digits {base number : Nat} (large : 1 < base) :
    ∀ c ∈ naturalDigits base number, IsNumeral c := by
  induction number using Nat.base_induction base large with
  | single number below => simp [naturalDigits, Nat.toDigits_of_lt_base below, isNumeral_digitChar]
  | digit number digit below positive ih =>
    intro c mem
    rw [naturalDigits, ← Nat.toDigits_append_toDigits large positive below,
      Nat.toDigits_of_lt_base below, mem_append, mem_singleton] at mem
    rcases mem with mem | rfl
    · exact ih c mem
    · exact isNumeral_digitChar digit

theorem isNumeral_hexadecimal (value : Int) :
    (hexadecimal value).toList ≠ [] ∧ ∀ c ∈ (hexadecimal value).toList, IsNumeral c := by
  have digits := @isNumeral_digits 16 value.natAbs (by decide)
  have marks : IsNumeral '-' ∧ IsNumeral '0' ∧ IsNumeral 'x' := ⟨⟨rfl, rfl⟩, ⟨rfl, rfl⟩, ⟨rfl, rfl⟩⟩
  unfold hexadecimal
  split <;> simpa [marks] using digits

theorem isNumeral_decimal (value : Int) :
    (decimal value).toList ≠ [] ∧ ∀ c ∈ (decimal value).toList, IsNumeral c := by
  have digits := @isNumeral_digits 10 value.natAbs (by decide)
  have sign : IsNumeral '-' := ⟨rfl, rfl⟩
  unfold decimal
  split <;> simpa [sign, naturalDigits] using digits

end Text

/-! ### Loading an immediate -/

namespace Loader

theorem exists_required {fields : Fields} {key text : String}
    (written : optional fields key = .text text) (kind : Kind) (origin : Origin) :
    ∃ part, required kind fields key origin = .ok part ∧ part.value = .text text := by
  unfold optional at written
  unfold required
  cases found : field? fields key with
  | none =>
    rw [found] at written
    cases written
  | some part =>
    rw [found] at written
    exact ⟨part, rfl, written⟩

theorem load_immediate {fields : List (String × Value)} {filename text : String} {origin : Origin}
    {value : Int} (kind : Association.get? fields "kind" = some (.text "Immediate"))
    (written : Association.get? fields "value" = some (.text text))
    (placed : originOf filename ((Association.get? fields "origin").getD .null) none = .ok origin)
    (read : Text.readInteger? .marked text = some value) (table : SymbolTable) :
    table.load (.object fields) filename = (.ok (.immediate origin value, 1), table) := by
  have kindWritten := optional_fieldParts filename "kind" fields
  have valueWritten := optional_fieldParts filename "value" fields
  rw [kind] at kindWritten
  rw [written] at valueWritten
  obtain ⟨part, found, partIs⟩ := exists_required valueWritten .immediate origin
  have named : Kind.ofName? "Immediate" = some .immediate := by decide +kernel
  have reads : immediateValue part.value origin = .ok value := by
    rw [partIs, immediateValue, read]
  have built : (build .immediate (fieldParts filename fields) origin).perform
      { table := table, loaded := 1 } =
      (.ok (.immediate origin value), { table := table, loaded := 1 }) := by
    simp [build, found, reads]
  have performed : (load filename (.object fields)).perform { table := table } =
      (.ok (.immediate origin value), { table := table, loaded := 1 }) := by
    simp only [load, Loader.part, Part.load, loadObject, optional_fieldParts, kind, placed, named,
      Option.getD_some]
    exact built
  rw [SymbolTable.load, performed]
  rfl

end Loader

namespace SymbolTable

/-- An immediate is loaded again from its name and from its dump, with blanks around them. -/
theorem load_written_immediate (value : Int) (place : Origin) (known : SymbolTable) :
    ∃ name dump, (Node.immediate place value).property known .name = .ok (.value (.text name)) ∧
      (Node.immediate place value).dump = .ok dump ∧
      ∀ number ∈ [name, dump], ∀ before after : String,
        (∀ c ∈ before.toList ++ after.toList, Text.isSpacing c) →
        ∀ fields filename origin, Association.get? fields "kind" = some (.text "Immediate") →
          Association.get? fields "value" = some (.text (before ++ number ++ after)) →
          Loader.originOf filename ((Association.get? fields "origin").getD .null) none =
            .ok origin →
          ∀ table : SymbolTable, table.load (.object fields) filename =
            (.ok (.immediate origin value, 1), table) := by
  refine ⟨_, _, rfl, rfl, fun number spelled before after spacing fields filename origin kind
    written placed => Loader.load_immediate kind written placed ?_⟩
  have early := fun c mem => spacing c (List.mem_append_left _ mem)
  have late := fun c mem => spacing c (List.mem_append_right _ mem)
  rcases List.mem_cons.mp spelled with rfl | spelled
  · rw [Text.readInteger?_append early late (Text.isNumeral_hexadecimal value),
      Text.readSigned_hexadecimal]
  · obtain rfl := List.mem_singleton.mp spelled
    rw [show Value.display (.text (Text.decimal value)) = Text.decimal value from rfl,
      Text.readInteger?_append early late (Text.isNumeral_decimal value), Text.readSigned_decimal]

def written (text : String) : Value :=
  .object [("kind", .text "Immediate"), ("value", .text text)]

/-- A negative integer with blanks of several scripts around it. -/
theorem load_written_immediate_negative : ∀ number ∈ ["-0x1a", "-26"],
    empty.load (written ("\n\u00a0" ++ number ++ "\u3000\t")) "f" =
      (.ok (.immediate ⟨"f", 0, 0⟩ (-26), 1), empty) := by
  obtain ⟨name, dump, named, dumped, loads⟩ := load_written_immediate (-26) .nowhere empty
  cases named
  cases dumped
  have spelled : ["-0x1a", "-26"] = [Text.hexadecimal (-26), Text.decimal (-26)] := by decide +kernel
  have spacing : ("\n\u00a0".toList ++ "\u3000\t".toList).all Text.isSpacing := by decide +kernel
  intro number mem
  rw [spelled] at mem
  exact loads number mem _ _ (List.all_eq_true.mp spacing) _ "f" ⟨"f", 0, 0⟩ rfl rfl rfl empty

/-- An information separator is white space, and is not taken off. -/
theorem separator_unread : Text.isBlank '\x1c' ∧
    (Node.immediate .nowhere 5).dump = .ok "5" ∧ (empty.load (written "\x1c5") "f").1 =
      .error (.diagnostic ⟨.badImmediate "'\\x1c5'", some ⟨"f", 0, 0⟩, none⟩) :=
  ⟨rfl, rfl, rfl⟩

end SymbolTable

end MacroAssembler
