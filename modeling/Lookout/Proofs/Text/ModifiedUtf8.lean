/-
# Modified UTF-8 is read as it was written

Every text is spelled by its code units, and every unit by a sequence of one, two
or three bytes. Reading takes whole sequences one after the other, of any length,
up to the first thing that is none; what is written for a unit is the sequence of
the length prescribed for it. So an encoded text decodes to itself, and the encoding
of what bytes decode to is never longer than the bytes.
-/

import Lookout.Proofs.Bytes.Grammar
import Lookout.Text.ModifiedUtf8

namespace Lookout.Text

/-! ### Code units -/

/-- A character is no surrogate, and is below 2^20 + 2^16. -/
theorem toNat_char_cases (character : Char) :
    character.toNat < 0xD800 ∨ 0xDFFF < character.toNat ∧ character.toNat < 0x110000 :=
  character.valid

private theorem isHighSurrogate_iff (unit : UInt16) :
    isHighSurrogate unit = true ↔ 0xD800 ≤ unit.toNat ∧ unit.toNat ≤ 0xDBFF := by
  simp [isHighSurrogate, UInt16.le_iff_toNat_le]

private theorem isLowSurrogate_iff (unit : UInt16) :
    isLowSurrogate unit = true ↔ 0xDC00 ≤ unit.toNat ∧ unit.toNat ≤ 0xDFFF := by
  simp [isLowSurrogate, UInt16.le_iff_toNat_le]

/-- A number that is no surrogate is the number of its character. -/
private theorem toNat_charOfNat {value : Nat}
    (valid : value < 0xD800 ∨ 0xDFFF < value ∧ value < 0x110000) :
    (Char.ofNat value).toNat = value := by
  have isValid : value.isValidChar := valid
  rw [Char.ofNat, dif_pos isValid]
  rfl

/-- The units of a character are read as that character. -/
theorem charsOfUnitsOnto_unitsOfChar (done : List Char) (character : Char) (rest : List UInt16) :
    charsOfUnitsOnto done (unitsOfChar character ++ rest) =
      charsOfUnitsOnto (character :: done) rest := by
  have valid := toNat_char_cases character
  unfold unitsOfChar
  dsimp only
  by_cases small : character.toNat < 0x10000
  · have unit_eq : (UInt16.ofNat character.toNat).toNat = character.toNat := by
      rw [UInt16.toNat_ofNat']
      omega
    rw [if_pos small, List.singleton_append, charsOfUnitsOnto.eq_def]
    dsimp only
    rw [if_neg (by rw [isHighSurrogate_iff, unit_eq]; omega),
      if_neg (by rw [isLowSurrogate_iff, unit_eq]; omega), unit_eq, Char.ofNat_toNat]
  · have high_eq : (UInt16.ofNat (0xD800 + (character.toNat - 0x10000) / 0x400)).toNat =
        0xD800 + (character.toNat - 0x10000) / 0x400 := by
      rw [UInt16.toNat_ofNat']
      omega
    have low_eq : (UInt16.ofNat (0xDC00 + (character.toNat - 0x10000) % 0x400)).toNat =
        0xDC00 + (character.toNat - 0x10000) % 0x400 := by
      rw [UInt16.toNat_ofNat']
      omega
    rw [if_neg small, List.cons_append, List.singleton_append, charsOfUnitsOnto,
      if_pos (by rw [isHighSurrogate_iff, high_eq]; omega),
      if_pos (by rw [isLowSurrogate_iff, low_eq]; omega), charOfPair, high_eq, low_eq]
    have whole : 0x10000 + (0xD800 + (character.toNat - 0x10000) / 0x400 - 0xD800) * 0x400 +
        (0xDC00 + (character.toNat - 0x10000) % 0x400 - 0xDC00) = character.toNat := by
      omega
    rw [whole, Char.ofNat_toNat]

/-- A text is read off its code units. -/
theorem ofUnits?_units (text : String) : ofUnits? (units text) = some text := by
  have spelled (characters done : List Char) :
      charsOfUnitsOnto done (characters.flatMap unitsOfChar) =
        some (done.reverse ++ characters) := by
    induction characters generalizing done with
    | nil => rw [List.flatMap_nil, charsOfUnitsOnto, List.append_nil]
    | cons character characters ih =>
        rw [List.flatMap_cons, charsOfUnitsOnto_unitsOfChar, ih, List.reverse_cons,
          List.append_assoc, List.singleton_append]
  rw [ofUnits?, units, spelled, List.reverse_nil, List.nil_append, Option.map_some,
    String.ofList_toList]

/-- Units that are read as characters are the units of these characters. -/
private theorem units_of_charsOfUnitsOnto {done characters : List Char} {codeUnits : List UInt16}
    (success : charsOfUnitsOnto done codeUnits = some characters) :
    ∃ added, characters = done.reverse ++ added ∧ codeUnits = added.flatMap unitsOfChar := by
  fun_induction charsOfUnitsOnto done codeUnits with
  | case1 done =>
      cases success
      exact ⟨[], by simp, rfl⟩
  | case2 | case4 | case5 => cases success
  | case3 done unit high partner rest low ih =>
      obtain ⟨added, rfl, rfl⟩ := ih success
      rw [isHighSurrogate_iff] at high
      rw [isLowSurrogate_iff] at low
      have pair_eq : (charOfPair unit partner).toNat =
          0x10000 + (unit.toNat - 0xD800) * 0x400 + (partner.toNat - 0xDC00) :=
        toNat_charOfNat (by omega)
      have high_eq : UInt16.ofNat (0xD800 + ((charOfPair unit partner).toNat - 0x10000) / 0x400) =
          unit := by
        apply UInt16.toNat.inj
        rw [UInt16.toNat_ofNat', pair_eq]
        omega
      have low_eq : UInt16.ofNat (0xDC00 + ((charOfPair unit partner).toNat - 0x10000) % 0x400) =
          partner := by
        apply UInt16.toNat.inj
        rw [UInt16.toNat_ofNat', pair_eq]
        omega
      refine ⟨charOfPair unit partner :: added, by simp, ?_⟩
      rw [List.flatMap_cons, unitsOfChar]
      dsimp only
      rw [if_neg (by omega), high_eq, low_eq, List.cons_append, List.singleton_append]
  | case6 done unit rest notHigh notLow ih =>
      obtain ⟨added, rfl, rfl⟩ := ih success
      rw [isHighSurrogate_iff] at notHigh
      rw [isLowSurrogate_iff] at notLow
      have bound := unit.toNat_lt
      have unit_eq : (Char.ofNat unit.toNat).toNat = unit.toNat := toNat_charOfNat (by omega)
      refine ⟨Char.ofNat unit.toNat :: added, by simp, ?_⟩
      rw [List.flatMap_cons, unitsOfChar]
      dsimp only
      rw [if_pos (by omega), unit_eq, UInt16.ofNat_toNat, List.singleton_append]

/-- Units that are read as a text are the units of that text. -/
theorem units_of_ofUnits? {codeUnits : List UInt16} {text : String}
    (success : ofUnits? codeUnits = some text) : units text = codeUnits := by
  obtain ⟨characters, read, rfl⟩ := Option.map_eq_some_iff.mp success
  obtain ⟨added, same, rfl⟩ := units_of_charsOfUnitsOnto read
  rw [units, String.toList_ofList, same, List.reverse_nil, List.nil_append]

namespace ModifiedUtf8

open Reader (Row)

/-! ### Sequences -/

/-- The bytes are one whole sequence, of any of the three lengths, and spell the unit. -/
inductive Sequence : Bytes → UInt16 → Prop where
  | one {byte : UInt8} {unit : UInt16} :
      0x01 ≤ byte.toNat → byte.toNat ≤ 0x7F → unit.toNat = byte.toNat → Sequence [byte] unit
  | two {first second : UInt8} {unit : UInt16} :
      0xC0 ≤ first.toNat → first.toNat ≤ 0xDF → isContinuation second = true →
      unit.toNat = (first.toNat - 0xC0) * 64 + (second.toNat - 0x80) →
      Sequence [first, second] unit
  | three {first second third : UInt8} {unit : UInt16} :
      0xE0 ≤ first.toNat → first.toNat ≤ 0xEF → isContinuation second = true →
      isContinuation third = true →
      unit.toNat = (first.toNat - 0xE0) * 4096 + (second.toNat - 0x80) * 64 +
        (third.toNat - 0x80) →
      Sequence [first, second, third] unit

/-- How many continuation bytes the lead of a sequence of two or three calls for. -/
def continuationsAfter (lead : UInt8) : Nat :=
  if 0xC0 ≤ lead ∧ lead ≤ 0xDF then 1 else if 0xE0 ≤ lead ∧ lead ≤ 0xEF then 2 else 0

/-- What the bytes begin with is no whole sequence. -/
inductive Broken : Bytes → Prop where
  /-- A raw zero, which is no form of any unit. -/
  | zero {rest : Bytes} : Broken (0 :: rest)
  /-- A byte that no sequence begins with. -/
  | stray {byte : UInt8} {rest : Bytes} :
      isContinuation byte = true ∨ 0xF8 ≤ byte.toNat → Broken (byte :: rest)
  /-- The lead of a sequence of four. -/
  | four {lead : UInt8} {rest : Bytes} :
      0xF0 ≤ lead.toNat → lead.toNat ≤ 0xF7 → Broken (lead :: rest)
  /-- A lead with fewer continuation bytes behind it than it calls for. -/
  | truncated {lead : UInt8} {rest : Bytes} :
      (rest.takeWhile isContinuation).length < continuationsAfter lead → Broken (lead :: rest)

/-- The length of the form in which the unit is to be written: 0 takes two bytes, so that
no byte is zero. -/
def prescribedLength (unit : UInt16) : Nat :=
  if 0x01 ≤ unit.toNat ∧ unit.toNat ≤ 0x7F then 1 else if unit.toNat ≤ 0x7FF then 2 else 3

theorem isContinuation_iff (byte : UInt8) :
    isContinuation byte = true ↔ 0x80 ≤ byte.toNat ∧ byte.toNat ≤ 0xBF := by
  simp [isContinuation, UInt8.le_iff_toNat_le]

/-! ### Reading -/

/-- A whole sequence is read as the unit that it spells. -/
theorem decodeUnitsOnto_sequence {run : Bytes} {unit : UInt16} (spelled : Sequence run unit)
    (done : List UInt16) (rest : Bytes) :
    decodeUnitsOnto done (run ++ rest) = decodeUnitsOnto (unit :: done) rest := by
  cases spelled with
  | @one byte _ low high value =>
      have unit_eq : UInt16.ofNat byte.toNat = unit := by rw [← value, UInt16.ofNat_toNat]
      rw [List.singleton_append, decodeUnitsOnto.eq_def]
      simp only [UInt8.le_iff_toNat_le, UInt8.reduceToNat]
      rw [if_pos ⟨low, high⟩, unit_eq]
  | @two first second _ low high continues value =>
      have payload := (isContinuation_iff second).mp continues
      have unit_eq : unitOfTwo first second = unit := by
        apply UInt16.toNat.inj
        rw [unitOfTwo, UInt16.toNat_ofNat', value]
        omega
      rw [List.cons_append, List.singleton_append, decodeUnitsOnto]
      simp only [UInt8.le_iff_toNat_le, UInt8.reduceToNat]
      rw [if_neg (by omega), if_pos ⟨low, high⟩, if_pos continues, unit_eq]
  | @three first second third _ low high continues continuesToo value =>
      have payload := (isContinuation_iff second).mp continues
      have payloadToo := (isContinuation_iff third).mp continuesToo
      have unit_eq : unitOfThree first second third = unit := by
        apply UInt16.toNat.inj
        rw [unitOfThree, UInt16.toNat_ofNat', value]
        omega
      rw [List.cons_append, List.cons_append, List.singleton_append, decodeUnitsOnto]
      simp only [UInt8.le_iff_toNat_le, UInt8.reduceToNat]
      rw [if_neg (by omega), if_neg (by omega), if_pos ⟨low, high⟩,
        if_pos (by rw [continues, continuesToo]; rfl), unit_eq]

/-- A row of whole sequences is read up to its end. -/
theorem decodeUnitsOnto_row {front : Bytes} {codeUnits : List UInt16}
    (row : Row Sequence front codeUnits) (done : List UInt16) (back : Bytes) :
    decodeUnitsOnto done (front ++ back) = decodeUnitsOnto (codeUnits.reverse ++ done) back := by
  induction row generalizing done with
  | nil => rfl
  | cons spelled _ ih =>
      rw [List.append_assoc, decodeUnitsOnto_sequence spelled, ih, List.reverse_cons,
        List.append_assoc, List.singleton_append]

/-- Nothing is read off a byte that leads no sequence of one, two or three. -/
theorem decodeUnitsOnto_of_noLead {lead : UInt8}
    (outside : lead.toNat = 0 ∨ 0x80 ≤ lead.toNat ∧ lead.toNat ≤ 0xBF ∨ 0xF0 ≤ lead.toNat)
    (done : List UInt16) (rest : Bytes) : decodeUnitsOnto done (lead :: rest) = none := by
  rw [decodeUnitsOnto.eq_def]
  simp only [UInt8.le_iff_toNat_le, UInt8.reduceToNat]
  rw [if_neg (by omega), if_neg (by omega), if_neg (by omega)]

/-- Nothing is read off a lead that has too few continuation bytes behind it. -/
theorem decodeUnitsOnto_of_truncated {lead : UInt8} {rest : Bytes}
    (short : (rest.takeWhile isContinuation).length < continuationsAfter lead)
    (done : List UInt16) : decodeUnitsOnto done (lead :: rest) = none := by
  unfold continuationsAfter at short
  rw [decodeUnitsOnto.eq_def]
  simp only [UInt8.le_iff_toNat_le, UInt8.reduceToNat] at short ⊢
  by_cases two : 0xC0 ≤ lead.toNat ∧ lead.toNat ≤ 0xDF
  · rw [if_pos two] at short
    rw [if_neg (by omega), if_pos two]
    rcases rest with _ | ⟨second, rest⟩
    · rfl
    refine if_neg fun continues => ?_
    rw [List.takeWhile_cons_of_pos continues, List.length_cons] at short
    omega
  by_cases three : 0xE0 ≤ lead.toNat ∧ lead.toNat ≤ 0xEF
  · rw [if_neg two, if_pos three] at short
    rw [if_neg (by omega), if_neg two, if_pos three]
    rcases rest with _ | ⟨second, _ | ⟨third, rest⟩⟩
    · rfl
    · rfl
    refine if_neg fun bothContinue => ?_
    obtain ⟨continues, continuesToo⟩ := Bool.and_eq_true_iff.mp bothContinue
    rw [List.takeWhile_cons_of_pos continues, List.takeWhile_cons_of_pos continuesToo,
      List.length_cons, List.length_cons] at short
    omega
  · rw [if_neg two, if_neg three] at short
    exact absurd short (Nat.not_lt_zero _)

/-- Nothing is read off something that is no whole sequence. -/
theorem decodeUnitsOnto_broken {bytes : Bytes} (broken : Broken bytes) (done : List UInt16) :
    decodeUnitsOnto done bytes = none := by
  cases broken with
  | zero => exact decodeUnitsOnto_of_noLead (.inl rfl) done _
  | stray reason =>
      refine decodeUnitsOnto_of_noLead ?_ done _
      rw [isContinuation_iff] at reason
      omega
  | four low high => exact decodeUnitsOnto_of_noLead (.inr (.inr low)) done _
  | truncated short => exact decodeUnitsOnto_of_truncated short done

/-- Bytes begin with a whole sequence unless what they begin with is none. -/
theorem sequence_or_broken (first : UInt8) (rest : Bytes) :
    (∃ run unit after, first :: rest = run ++ after ∧ Sequence run unit) ∨
      Broken (first :: rest) := by
  -- The cases are the ranges of the first byte, from below.
  have bound := first.toNat_lt
  have spelled {value : Nat} (small : value < 65536) : (UInt16.ofNat value).toNat = value := by
    rw [UInt16.toNat_ofNat']
    omega
  by_cases zero : first.toNat = 0
  · obtain rfl : first = 0 := UInt8.toNat.inj zero
    exact .inr .zero
  by_cases one : first.toNat ≤ 0x7F
  · exact .inl ⟨[first], UInt16.ofNat first.toNat, rest, rfl,
      .one (by omega) one (spelled (by omega))⟩
  by_cases stray : first.toNat ≤ 0xBF
  · exact .inr (.stray (.inl ((isContinuation_iff first).mpr ⟨by omega, stray⟩)))
  by_cases two : first.toNat ≤ 0xDF
  · have called : continuationsAfter first = 1 := by
      simp only [continuationsAfter, UInt8.le_iff_toNat_le, UInt8.reduceToNat]
      rw [if_pos (by omega)]
    rcases rest with _ | ⟨second, after⟩
    · exact .inr (.truncated (by simp [called]))
    cases continues : isContinuation second with
    | false => exact .inr (.truncated (by simp [called, continues]))
    | true =>
        have payload := (isContinuation_iff second).mp continues
        exact .inl ⟨[first, second], _, after, rfl,
          .two (by omega) two continues (spelled (by omega))⟩
  by_cases three : first.toNat ≤ 0xEF
  · have called : continuationsAfter first = 2 := by
      simp only [continuationsAfter, UInt8.le_iff_toNat_le, UInt8.reduceToNat]
      rw [if_neg (by omega), if_pos (by omega)]
    rcases rest with _ | ⟨second, _ | ⟨third, after⟩⟩
    · exact .inr (.truncated (by simp [called]))
    · refine .inr (.truncated ?_)
      have atMostOne := (List.takeWhile_prefix isContinuation (l := [second])).length_le
      rw [called]
      exact Nat.lt_succ_of_le atMostOne
    cases continues : isContinuation second with
    | false => exact .inr (.truncated (by simp [called, continues]))
    | true =>
        cases continuesToo : isContinuation third with
        | false => exact .inr (.truncated (by simp [called, continues, continuesToo]))
        | true =>
            have payload := (isContinuation_iff second).mp continues
            have payloadToo := (isContinuation_iff third).mp continuesToo
            exact .inl ⟨[first, second, third], _, after, rfl,
              .three (by omega) three continues continuesToo (spelled (by omega))⟩
  by_cases four : first.toNat ≤ 0xF7
  · exact .inr (.four (by omega) four)
  · exact .inr (.stray (.inr (by omega)))

theorem Sequence.length_pos {run : Bytes} {unit : UInt16} (spelled : Sequence run unit) :
    0 < run.length := by
  cases spelled <;> exact Nat.succ_pos _

/-- Bytes are a row of whole sequences, if need be up to something that is none. -/
theorem row_or_broken (bytes : Bytes) :
    (∃ codeUnits, Row Sequence bytes codeUnits) ∨
      ∃ front back codeUnits, bytes = front ++ back ∧ Row Sequence front codeUnits ∧
        Broken back := by
  match bytes with
  | [] => exact .inl ⟨[], .nil⟩
  | first :: rest =>
      rcases sequence_or_broken first rest with ⟨run, unit, after, cut, spelled⟩ | broken
      · have shorter : after.length < (first :: rest).length := by
          have runs := spelled.length_pos
          rw [cut, List.length_append]
          omega
        rw [cut]
        rcases row_or_broken after with
          ⟨codeUnits, row⟩ | ⟨front, back, codeUnits, rfl, row, broken⟩
        · exact .inl ⟨unit :: codeUnits, .cons spelled row⟩
        · exact .inr ⟨run ++ front, back, unit :: codeUnits, (List.append_assoc ..).symm,
            .cons spelled row, broken⟩
      · exact .inr ⟨[], first :: rest, [], rfl, .nil, broken⟩
  termination_by bytes.length
  decreasing_by exact shorter

/-- The units that are read are those that a row of whole sequences spells. -/
theorem decodeUnits_eq_some_iff {bytes : Bytes} {codeUnits : List UInt16} :
    decodeUnits bytes = some codeUnits ↔ Row Sequence bytes codeUnits := by
  have readsRow {front : Bytes} {spelled : List UInt16} (row : Row Sequence front spelled) :
      decodeUnits front = some spelled := by
    have read := decodeUnitsOnto_row row [] []
    rw [List.append_nil, List.append_nil, decodeUnitsOnto, List.reverse_reverse] at read
    exact read
  constructor
  · intro success
    rcases row_or_broken bytes with ⟨spelled, row⟩ | ⟨front, back, spelled, rfl, row, broken⟩
    · cases (readsRow row).symm.trans success
      exact row
    · rw [decodeUnits, decodeUnitsOnto_row row, decodeUnitsOnto_broken broken] at success
      cases success
  · exact readsRow

theorem decode?_eq_some_iff {bytes : Bytes} {text : String} :
    decode? bytes = some text ↔ Row Sequence bytes (units text) := by
  rw [decode?, Option.bind_eq_some_iff]
  constructor
  · rintro ⟨codeUnits, unitsRead, textRead⟩
    rw [units_of_ofUnits? textRead]
    exact decodeUnits_eq_some_iff.mp unitsRead
  · intro row
    exact ⟨units text, decodeUnits_eq_some_iff.mpr row, ofUnits?_units text⟩

/-! ### Writing -/

/-- What is written for a unit is a whole sequence, of the prescribed length. -/
theorem sequence_encodeUnit (unit : UInt16) :
    Sequence (encodeUnit unit) unit ∧ (encodeUnit unit).length = prescribedLength unit := by
  have bound := unit.toNat_lt
  have byte_eq {value : Nat} (small : value < 256) : (UInt8.ofNat value).toNat = value := by
    rw [UInt8.toNat_ofNat']
    omega
  have continues {value : Nat} (small : value < 64) :
      isContinuation (UInt8.ofNat (0x80 + value)) = true := by
    rw [isContinuation_iff, byte_eq (by omega)]
    omega
  unfold encodeUnit prescribedLength
  dsimp only
  by_cases one : 0x01 ≤ unit.toNat ∧ unit.toNat ≤ 0x7F
  · rw [if_pos one, if_pos one]
    have first_eq := byte_eq (show unit.toNat < 256 by omega)
    exact ⟨.one (by omega) (by omega) first_eq.symm, rfl⟩
  by_cases two : unit.toNat ≤ 0x7FF
  · rw [if_neg one, if_neg one, if_pos two, if_pos two]
    have first_eq := byte_eq (show 0xC0 + unit.toNat / 64 < 256 by omega)
    have second_eq := byte_eq (show 0x80 + unit.toNat % 64 < 256 by omega)
    exact ⟨.two (by omega) (by omega) (continues (by omega)) (by omega), rfl⟩
  · rw [if_neg one, if_neg one, if_neg two, if_neg two]
    have first_eq := byte_eq (show 0xE0 + unit.toNat / 4096 < 256 by omega)
    have second_eq := byte_eq (show 0x80 + unit.toNat / 64 % 64 < 256 by omega)
    have third_eq := byte_eq (show 0x80 + unit.toNat % 64 < 256 by omega)
    exact ⟨.three (by omega) (by omega) (continues (by omega)) (continues (by omega)) (by omega),
      rfl⟩

/-- What spells a unit is no shorter than the unit's prescribed form. -/
theorem Sequence.prescribedLength_le {run : Bytes} {unit : UInt16} (spelled : Sequence run unit) :
    prescribedLength unit ≤ run.length := by
  unfold prescribedLength
  cases spelled with
  | one low high value =>
      rw [if_pos (by omega)]
      exact Nat.le_refl 1
  | @two first second _ low high continues value =>
      have payload := (isContinuation_iff second).mp continues
      rw [if_pos (show unit.toNat ≤ 0x7FF by omega)]
      split <;> simp
  | three =>
      show _ ≤ 3
      split
      · omega
      · split <;> omega

/-- What is written for a unit is no longer than any sequence that spells it. -/
theorem Sequence.length_encodeUnit_le {run : Bytes} {unit : UInt16}
    (spelled : Sequence run unit) : (encodeUnit unit).length ≤ run.length := by
  rw [(sequence_encodeUnit unit).2]
  exact spelled.prescribedLength_le

/-- A text is written as a row of sequences that spell its units. -/
theorem row_encode (text : String) : Row Sequence (encode text) (units text) := by
  rw [encode]
  induction units text with
  | nil => exact .nil
  | cons unit codeUnits ih => exact .cons (sequence_encodeUnit unit).1 ih

/-- Encoding loses nothing. -/
theorem decode?_encode (text : String) : decode? (encode text) = some text :=
  decode?_eq_some_iff.mpr (row_encode text)

theorem encode_injective : Function.Injective encode := by
  intro text other same
  have decoded := congrArg decode? same
  rw [decode?_encode, decode?_encode] at decoded
  exact Option.some.inj decoded

/-- The encoding of what bytes decode to is no longer than the bytes. -/
theorem length_encode_le_of_decode? {bytes : Bytes} {text : String}
    (success : decode? bytes = some text) : (encode text).length ≤ bytes.length := by
  have row := decode?_eq_some_iff.mp success
  have bound : (encode text).length ≤ bytes.length + 0 * (units text).length :=
    row.length_flatMap_le fun spelled => spelled.length_encodeUnit_le
  rwa [Nat.zero_mul, Nat.add_zero] at bound

end ModifiedUtf8

end Lookout.Text
