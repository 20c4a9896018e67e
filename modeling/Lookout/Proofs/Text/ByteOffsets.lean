/-
# Texts by byte offsets

A text is also a run of bytes, its characters in UTF-8, and may be looked at through
offsets into that run. Any byte can be asked for. To cut the text at an offset is
possible only where a character begins or the text ends, so everything that cuts has
no result elsewhere. Behind a part of the text that is known, all of these operations
are those of the remaining text.
-/

import Lookout.Bytes

namespace Lookout.Text

/-- The characters of a text in UTF-8. -/
def utf8 (text : String) : Bytes := text.toByteArray.data.toList

/-- The byte at an offset of the text, as the character with the same number. -/
def codeAt? (text : String) (offset : Nat) : Option Char :=
  (utf8 text)[offset]?.map Char.ofUInt8

/-- The text from a byte offset on, unless the offset lies inside a character or behind
the end. -/
def from? (text : String) (offset : Nat) : Option String :=
  if inside : String.Pos.Raw.IsValid text ⟨offset⟩ then
    some (text.sliceFrom ⟨⟨offset⟩, inside⟩).copy
  else none

/-- The text up to a byte offset, unless the offset lies inside a character or behind
the end. -/
def upTo? (text : String) (offset : Nat) : Option String :=
  if inside : String.Pos.Raw.IsValid text ⟨offset⟩ then
    some (text.sliceTo ⟨⟨offset⟩, inside⟩).copy
  else none

/-- That many bytes of the text from an offset on, unless this cuts a character or the
text is too short. -/
def cut? (text : String) (offset length : Nat) : Option String :=
  (from? text offset).bind (upTo? · length)

/-- The byte offset of the first such character. -/
def offsetOf? (wanted : Char) (text : String) : Option Nat :=
  if wanted ∈ text.toList then
    some (String.ofList (text.toList.takeWhile (· != wanted))).utf8ByteSize
  else none

/-! ### Behind a known part -/

@[simp]
theorem length_utf8 (text : String) : (utf8 text).length = text.utf8ByteSize := by
  simp [utf8]

theorem utf8_append (front rest : String) : utf8 (front ++ rest) = utf8 front ++ utf8 rest := by
  simp [utf8]

theorem utf8_ofList (characters : List Char) :
    utf8 (String.ofList characters) = characters.flatMap String.utf8EncodeChar := by
  simp [utf8, List.utf8Encode]

theorem utf8ByteSize_ofList_cons (character : Char) (rest : List Char) :
    (String.ofList (character :: rest)).utf8ByteSize =
      character.utf8Size + (String.ofList rest).utf8ByteSize := by
  rw [← length_utf8, ← length_utf8, utf8_ofList, utf8_ofList, List.flatMap_cons,
    List.length_append, String.length_utf8EncodeChar]

theorem drop_utf8_append (front rest : String) :
    (utf8 (front ++ rest)).drop front.utf8ByteSize = utf8 rest := by
  rw [utf8_append, List.drop_left' (length_utf8 front)]

theorem getElem?_utf8_append (front rest : String) (offset : Nat) :
    (utf8 (front ++ rest))[front.utf8ByteSize + offset]? = (utf8 rest)[offset]? := by
  rw [← List.getElem?_drop, drop_utf8_append]

theorem isValid_append (front rest : String) :
    String.Pos.Raw.IsValid (front ++ rest) ⟨front.utf8ByteSize⟩ :=
  String.Pos.Raw.isValid_iff_exists_append.mpr ⟨front, rest, rfl, rfl⟩

/-- A text can be cut exactly where it falls into two texts. -/
theorem from?_eq_some_iff {text rest : String} {offset : Nat} :
    from? text offset = some rest ↔
      ∃ front, text = front ++ rest ∧ offset = front.utf8ByteSize := by
  unfold from?
  constructor
  · intro success
    split at success
    · rename_i inside
      obtain ⟨front, back, rfl, same⟩ := String.Pos.Raw.isValid_iff_exists_append.mp inside
      obtain rfl : offset = front.utf8ByteSize := congrArg String.Pos.Raw.byteIdx same
      rw [String.Pos.Splits.copy_sliceFrom_eq ⟨rfl, rfl⟩] at success
      cases success
      exact ⟨front, rfl, rfl⟩
    · cases success
  · rintro ⟨front, rfl, rfl⟩
    rw [dif_pos (isValid_append front rest)]
    exact congrArg some (String.Pos.Splits.copy_sliceFrom_eq ⟨rfl, rfl⟩)

example : from? "Lé;" 3 = some ";" ∧ from? "Lé;" 2 = none := by decide

theorem upTo?_eq_some_iff {text front : String} {offset : Nat} :
    upTo? text offset = some front ↔
      ∃ rest, text = front ++ rest ∧ offset = front.utf8ByteSize := by
  unfold upTo?
  constructor
  · intro success
    split at success
    · rename_i inside
      obtain ⟨start, back, rfl, same⟩ := String.Pos.Raw.isValid_iff_exists_append.mp inside
      obtain rfl : offset = start.utf8ByteSize := congrArg String.Pos.Raw.byteIdx same
      rw [String.Pos.Splits.copy_sliceTo_eq ⟨rfl, rfl⟩] at success
      cases success
      exact ⟨back, rfl, rfl⟩
    · cases success
  · rintro ⟨rest, rfl, rfl⟩
    rw [dif_pos (isValid_append front rest)]
    exact congrArg some (String.Pos.Splits.copy_sliceTo_eq ⟨rfl, rfl⟩)

theorem from?_append (front rest : String) :
    from? (front ++ rest) front.utf8ByteSize = some rest :=
  from?_eq_some_iff.mpr ⟨front, rfl, rfl⟩

theorem upTo?_append (front rest : String) :
    upTo? (front ++ rest) front.utf8ByteSize = some front :=
  upTo?_eq_some_iff.mpr ⟨rest, rfl, rfl⟩

theorem cut?_append (front middle rest : String) :
    cut? (front ++ (middle ++ rest)) front.utf8ByteSize middle.utf8ByteSize = some middle := by
  rw [cut?, from?_append, Option.bind_some, upTo?_append]

theorem offsetOf?_append {wanted : Char} {front : List Char} (absent : wanted ∉ front)
    (rest : List Char) :
    offsetOf? wanted (String.ofList (front ++ wanted :: rest)) =
      some (String.ofList front).utf8ByteSize := by
  have earlier : ∀ character ∈ front, (character != wanted) = true := fun character member =>
    bne_iff_ne.mpr fun same => absent (same ▸ member)
  have stops : ¬(wanted != wanted) = true := by
    rw [bne_self_eq_false]
    exact Bool.false_ne_true
  unfold offsetOf?
  rw [String.toList_ofList, if_pos (by simp), List.takeWhile_append_of_pos earlier,
    List.takeWhile_cons_of_neg (p := (· != wanted)) stops, List.append_nil]

theorem offsetOf?_eq_none {wanted : Char} {text : List Char} (absent : wanted ∉ text) :
    offsetOf? wanted (String.ofList text) = none := by
  unfold offsetOf?
  rw [String.toList_ofList, if_neg absent]

/-! ### Characters below 128 -/

theorem toNat_ofUInt8 (byte : UInt8) : (Char.ofUInt8 byte).toNat = byte.toNat := rfl

/-- A character below 128 is a single byte with the same number. Any other begins with a
byte that is no such character. -/
theorem utf8EncodeChar_cases (character : Char) :
    (∃ byte, String.utf8EncodeChar character = [byte] ∧ Char.ofUInt8 byte = character) ∨
      ∃ first more, String.utf8EncodeChar character = first :: more ∧
        128 ≤ (Char.ofUInt8 first).toNat ∧ 128 ≤ character.toNat := by
  have number : character.val.toNat = character.toNat := rfl
  unfold String.utf8EncodeChar
  rw [number]
  dsimp only
  split
  · rename_i small
    refine .inl ⟨_, rfl, Char.toNat_inj.mp ?_⟩
    rw [toNat_ofUInt8, UInt8.toNat_ofNat']
    omega
  · rename_i large
    right
    split
    · refine ⟨_, _, rfl, ?_, by omega⟩
      rw [toNat_ofUInt8, UInt8.toNat_ofNat']
      omega
    split
    all_goals
      refine ⟨_, _, rfl, ?_, by omega⟩
      rw [toNat_ofUInt8, UInt8.toNat_ofNat']
      omega

/-- The first byte of a text is the first character, unless neither is below 128. -/
theorem exists_utf8_cons (character : Char) (rest : List Char) :
    ∃ first more, utf8 (String.ofList (character :: rest)) = first :: more ∧
      (Char.ofUInt8 first = character ∨
        128 ≤ (Char.ofUInt8 first).toNat ∧ 128 ≤ character.toNat) := by
  rw [utf8_ofList, List.flatMap_cons]
  rcases utf8EncodeChar_cases character with ⟨byte, encoded, same⟩ | ⟨first, more, encoded, large⟩
  · exact ⟨byte, _, by rw [encoded]; rfl, .inl same⟩
  · exact ⟨first, _, by rw [encoded]; rfl, .inr large⟩

/-! ### Single bytes -/

theorem lt_of_codeAt? {text : String} {offset : Nat} {code : Char}
    (present : codeAt? text offset = some code) : offset < text.utf8ByteSize := by
  obtain ⟨byte, here, -⟩ := Option.map_eq_some_iff.mp present
  rw [← length_utf8]
  exact (List.getElem?_eq_some_iff.mp here).1

theorem codeAt?_append (front rest : String) :
    codeAt? (front ++ rest) front.utf8ByteSize = codeAt? rest 0 := by
  have same := getElem?_utf8_append front rest 0
  rw [Nat.add_zero] at same
  rw [codeAt?, same, codeAt?]

theorem codeAt?_nil : codeAt? (String.ofList []) 0 = none := rfl

theorem codeAt?_cons (character : Char) (rest : List Char) :
    ∃ code, codeAt? (String.ofList (character :: rest)) 0 = some code ∧
      (code = character ∨ 128 ≤ code.toNat ∧ 128 ≤ character.toNat) := by
  obtain ⟨first, more, encoded, same⟩ := exists_utf8_cons character rest
  exact ⟨_, by rw [codeAt?, encoded]; rfl, same⟩

/-- Asking for a character below 128 is the same as asking for its byte. -/
theorem codeAt?_cons_eq_some_iff {wanted : Char} (small : wanted.toNat < 128) (character : Char)
    (rest : List Char) :
    codeAt? (String.ofList (character :: rest)) 0 = some wanted ↔ character = wanted := by
  obtain ⟨code, present, rfl | large⟩ := codeAt?_cons character rest
  · rw [present, Option.some.injEq]
  · rw [present, Option.some.injEq]
    constructor
    · rintro rfl
      omega
    · rintro rfl
      omega

end Lookout.Text
