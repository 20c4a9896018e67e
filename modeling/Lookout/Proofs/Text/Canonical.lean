/-
# Canonical and faulty Modified UTF-8

A unit may be spelled by a sequence longer than its size prescribes. Writing it
back picks the prescribed one, so the bytes that a text was read from come back
exactly if they had the prescribed form throughout. Bytes are refused only for a
reason: behind a row of whole sequences stands something that is none, or the
units of the row leave a surrogate alone.
-/

import Lookout.Proofs.Text.ModifiedUtf8

namespace Lookout.Text

/-! ### Surrogates -/

/-- A surrogate stands without its partner: a high one that no low one follows, or a low
one that no high one precedes. -/
inductive Unpaired : List UInt16 → Prop where
  | high {before after : List UInt16} {unit : UInt16} : isHighSurrogate unit = true →
      (∀ next ∈ after.head?, isLowSurrogate next = false) → Unpaired (before ++ unit :: after)
  | low {before after : List UInt16} {unit : UInt16} : isLowSurrogate unit = true →
      (∀ previous ∈ before.getLast?, isHighSurrogate previous = false) →
      Unpaired (before ++ unit :: after)

theorem not_isHighSurrogate_of_isLowSurrogate {unit : UInt16}
    (low : isLowSurrogate unit = true) : isHighSurrogate unit = false := by
  simp only [isLowSurrogate, isHighSurrogate, Bool.and_eq_true, decide_eq_true_eq,
    Bool.and_eq_false_iff, decide_eq_false_iff_not, UInt16.le_iff_toNat_le,
    UInt16.reduceToNat] at low ⊢
  omega

/-- A surrogate that is alone stays so behind units whose last is not high. -/
theorem Unpaired.behind {front codeUnits : List UInt16} (unpaired : Unpaired codeUnits)
    (closed : ∀ last ∈ front.getLast?, isHighSurrogate last = false) :
    Unpaired (front ++ codeUnits) := by
  cases unpaired with
  | @high before after unit isHigh alone =>
      rw [← List.append_assoc]
      exact .high isHigh alone
  | @low before after unit isLow alone =>
      rw [← List.append_assoc]
      refine .low isLow ?_
      intro previous member
      rw [List.getLast?_append] at member
      cases last : before.getLast? with
      | none =>
          rw [last, Option.none_or] at member
          exact closed previous member
      | some final =>
          rw [last, Option.some_or] at member
          exact alone previous (last ▸ member)

/-- Behind a unit that is no surrogate, a surrogate is alone for the same reasons. -/
theorem Unpaired.of_cons {unit : UInt16} {rest : List UInt16}
    (unpaired : Unpaired (unit :: rest)) (notHigh : isHighSurrogate unit = false)
    (notLow : isLowSurrogate unit = false) : Unpaired rest := by
  generalize same : unit :: rest = codeUnits at unpaired
  cases unpaired with
  | @high before after alone isHigh follows =>
      rcases before with _ | ⟨first, before⟩
      · cases same
        simp [notHigh] at isHigh
      · cases same
        exact .high isHigh follows
  | @low before after alone isLow precedes =>
      rcases before with _ | ⟨first, before⟩
      · cases same
        simp [notLow] at isLow
      · cases same
        refine .low isLow fun previous member => precedes previous ?_
        rw [List.getLast?_cons, Option.mem_def.mp member]
        rfl

/-- Behind a pair, a surrogate is alone for the same reasons. -/
theorem Unpaired.of_pair {first second : UInt16} {rest : List UInt16}
    (unpaired : Unpaired (first :: second :: rest)) (isHigh : isHighSurrogate first = true)
    (isLow : isLowSurrogate second = true) : Unpaired rest := by
  generalize same : first :: second :: rest = codeUnits at unpaired
  have firstNotLow : isLowSurrogate first = false := by
    by_contra firstLow
    simp [not_isHighSurrogate_of_isLowSurrogate (Bool.of_not_eq_false firstLow)] at isHigh
  cases unpaired with
  | @high before after alone aloneHigh follows =>
      rcases before with _ | ⟨_, _ | ⟨_, before⟩⟩
      · cases same
        simp [isLow] at follows
      · cases same
        simp [not_isHighSurrogate_of_isLowSurrogate isLow] at aloneHigh
      · cases same
        exact .high aloneHigh follows
  | @low before after alone aloneLow precedes =>
      rcases before with _ | ⟨_, _ | ⟨_, before⟩⟩
      · cases same
        simp [firstNotLow] at aloneLow
      · cases same
        simp [isHigh] at precedes
      · cases same
        refine .low aloneLow fun previous member => precedes previous ?_
        rw [List.getLast?_cons, List.getLast?_cons, Option.mem_def.mp member]
        rfl

/-- Units are read as characters unless a surrogate among them is alone. -/
theorem charsOfUnitsOnto_eq_none_iff {done : List Char} {codeUnits : List UInt16} :
    charsOfUnitsOnto done codeUnits = none ↔ Unpaired codeUnits := by
  -- The reader never stands behind a high surrogate, so what is alone in the units that are
  -- left is alone in all of them.
  fun_induction charsOfUnitsOnto done codeUnits with
  | case1 done =>
      refine iff_of_false (Option.some_ne_none _) fun unpaired => ?_
      generalize same : [] = codeUnits at unpaired
      cases unpaired <;> simp at same
  | case2 done unit isHigh =>
      exact iff_of_true rfl (@Unpaired.high [] [] unit isHigh (by simp))
  | case3 done unit isHigh partner rest isLow ih =>
      rw [ih]
      constructor
      · have closed : ∀ last ∈ [unit, partner].getLast?, isHighSurrogate last = false := by
          rintro last ⟨⟩
          exact not_isHighSurrogate_of_isLowSurrogate isLow
        exact fun unpaired => unpaired.behind closed
      · intro unpaired
        exact unpaired.of_pair isHigh isLow
  | case4 done unit isHigh partner rest notLow =>
      refine iff_of_true rfl (@Unpaired.high [] (partner :: rest) unit isHigh ?_)
      rintro next ⟨⟩
      exact Bool.of_not_eq_true notLow
  | case5 done unit rest notHigh isLow =>
      exact iff_of_true rfl (@Unpaired.low [] rest unit isLow (by simp))
  | case6 done unit rest notHigh notLow ih =>
      rw [ih]
      constructor
      · have closed : ∀ last ∈ [unit].getLast?, isHighSurrogate last = false := by
          rintro last ⟨⟩
          exact Bool.of_not_eq_true notHigh
        exact fun unpaired => unpaired.behind closed
      · intro unpaired
        exact unpaired.of_cons (Bool.of_not_eq_true notHigh) (Bool.of_not_eq_true notLow)

theorem ofUnits?_eq_none_iff {codeUnits : List UInt16} :
    ofUnits? codeUnits = none ↔ Unpaired codeUnits := by
  rw [ofUnits?, Option.map_eq_none_iff, charsOfUnitsOnto_eq_none_iff]

namespace ModifiedUtf8

open Reader (Row row_iff_forall₂)

/-! ### Faults -/

/-- Why bytes are not text. -/
inductive Faulty : Bytes → Prop where
  /-- Behind whole sequences stands something that is none. -/
  | broken {front back : Bytes} {codeUnits : List UInt16} :
      Row Sequence front codeUnits → Broken back → Faulty (front ++ back)
  /-- All sequences are whole, but a surrogate is alone. -/
  | unpaired {bytes : Bytes} {codeUnits : List UInt16} :
      Row Sequence bytes codeUnits → Unpaired codeUnits → Faulty bytes

/-- Bytes are refused exactly for one of the reasons. -/
theorem decode?_eq_none_iff {bytes : Bytes} : decode? bytes = none ↔ Faulty bytes := by
  constructor
  · intro refused
    rcases row_or_broken bytes with ⟨codeUnits, row⟩ | ⟨front, back, codeUnits, rfl, row, broken⟩
    · rw [decode?, decodeUnits_eq_some_iff.mpr row, Option.bind_some] at refused
      exact .unpaired row (ofUnits?_eq_none_iff.mp refused)
    · exact .broken row broken
  · intro faulty
    cases faulty with
    | broken row broken =>
        rw [decode?, decodeUnits, decodeUnitsOnto_row row, decodeUnitsOnto_broken broken]
        rfl
    | unpaired row unpaired =>
        rw [decode?, decodeUnits_eq_some_iff.mpr row, Option.bind_some]
        exact ofUnits?_eq_none_iff.mpr unpaired

theorem Sequence.bounds_of_mem {run : Bytes} {unit : UInt16} (spelled : Sequence run unit)
    {byte : UInt8} (member : byte ∈ run) : 0 < byte.toNat ∧ byte.toNat ≤ 0xEF := by
  cases spelled with
  | one low high _ =>
      obtain rfl := List.mem_singleton.mp member
      omega
  | two low high continues _ =>
      rw [isContinuation_iff] at continues
      simp only [List.mem_cons, List.not_mem_nil, or_false] at member
      rcases member with rfl | rfl <;> omega
  | three low high continues continuesToo _ =>
      rw [isContinuation_iff] at continues continuesToo
      simp only [List.mem_cons, List.not_mem_nil, or_false] at member
      rcases member with rfl | rfl | rfl <;> omega

theorem bounds_of_mem_row {bytes : Bytes} {codeUnits : List UInt16}
    (row : Row Sequence bytes codeUnits) {byte : UInt8} (member : byte ∈ bytes) :
    0 < byte.toNat ∧ byte.toNat ≤ 0xEF := by
  induction row with
  | nil => cases member
  | cons spelled _ ih =>
      rcases List.mem_append.mp member with atFront | later
      · exact spelled.bounds_of_mem atFront
      · exact ih later

/-- Wherever a zero byte or one of F0 and above stands, the bytes are refused. -/
theorem faulty_of_mem {bytes : Bytes} {byte : UInt8} (member : byte ∈ bytes)
    (outside : byte.toNat = 0 ∨ 0xF0 ≤ byte.toNat) : Faulty bytes := by
  rw [← decode?_eq_none_iff, Option.eq_none_iff_forall_ne_some]
  intro text read
  have bounds := bounds_of_mem_row (decode?_eq_some_iff.mp read) member
  omega

/-! ### Prescribed forms -/

/-- A unit has no two sequences of one length. -/
theorem Sequence.eq_of_length_eq {run other : Bytes} {unit : UInt16} (spelled : Sequence run unit)
    (spelledToo : Sequence other unit) (same : run.length = other.length) : run = other := by
  cases spelled with
  | one _ _ value =>
      cases spelledToo with
      | one _ _ valueToo => rw [UInt8.toNat.inj (value.symm.trans valueToo)]
      | two => cases same
      | three => cases same
  | @two first second _ low high continues value =>
      cases spelledToo with
      | one => cases same
      | @two first' second' _ low' high' continues' value' =>
          rw [isContinuation_iff] at continues continues'
          obtain rfl : first = first' := UInt8.toNat.inj (by omega)
          obtain rfl : second = second' := UInt8.toNat.inj (by omega)
          rfl
      | three => cases same
  | @three first second third _ low high continues continuesToo value =>
      cases spelledToo with
      | one => cases same
      | two => cases same
      | @three first' second' third' _ low' high' continues' continuesToo' value' =>
          rw [isContinuation_iff] at continues continues' continuesToo continuesToo'
          obtain rfl : first = first' := UInt8.toNat.inj (by omega)
          obtain rfl : second = second' := UInt8.toNat.inj (by omega)
          obtain rfl : third = third' := UInt8.toNat.inj (by omega)
          rfl

/-- Of the sequences that spell a unit, the one of the prescribed length is written. -/
theorem Sequence.encodeUnit_eq_iff {run : Bytes} {unit : UInt16} (spelled : Sequence run unit) :
    encodeUnit unit = run ↔ run.length = prescribedLength unit := by
  obtain ⟨written, length_eq⟩ := sequence_encodeUnit unit
  constructor
  · rintro rfl
    exact length_eq
  · intro prescribed
    exact written.eq_of_length_eq spelled (length_eq.trans prescribed.symm)

/-- No byte of a text is zero or above EF. -/
theorem bounds_of_mem_encode {text : String} {byte : UInt8} (member : byte ∈ encode text) :
    byte ≠ 0 ∧ byte ≤ 0xEF := by
  obtain ⟨low, high⟩ := bounds_of_mem_row (row_encode text) member
  refine ⟨?_, UInt8.le_iff_toNat_le.mpr high⟩
  rintro rfl
  exact absurd low (Nat.lt_irrefl 0)

/-- The sequences that bytes are cut into are those written for their text exactly if each
has the length prescribed for its unit. -/
theorem encode_eq_flatten_iff {text : String} {runs : List Bytes}
    (spelled : List.Forall₂ Sequence runs (units text)) :
    encode text = runs.flatten ↔
      List.Forall₂ (fun run unit => run.length = prescribedLength unit) runs (units text) := by
  have noLonger : List.Forall₂ (fun run unit => (encodeUnit unit).length ≤ run.length) runs
      (units text) :=
    spelled.imp fun _ _ => Sequence.length_encodeUnit_le
  rw [encode, Reader.flatMap_eq_flatten_iff noLonger]
  generalize units text = codeUnits at spelled ⊢
  clear noLonger
  induction spelled with
  | nil => simp
  | cons first _ ih =>
      rw [List.forall₂_cons, List.forall₂_cons]
      exact and_congr first.encodeUnit_eq_iff ih

/-- A text is spelled in one prescribed way, in bytes from 1 to EF, and read back from it.
Bytes that are read as a text are cut into whole sequences, one for each of its units, that
take at least as many bytes as are written for it; they are what is written for it exactly
if every unit has its prescribed length. All other bytes, and no more than these, are
faulty. -/
theorem encode_canonical :
    (∀ text, decode? (encode text) = some text ∧
      ∀ byte ∈ encode text, byte ≠ 0 ∧ byte ≤ 0xEF) ∧
    (∀ bytes text, decode? bytes = some text →
      (encode text).length ≤ bytes.length ∧
      ∃ runs, bytes = runs.flatten ∧ List.Forall₂ Sequence runs (units text) ∧
        (encode text = bytes ↔
          List.Forall₂ (fun run unit => run.length = prescribedLength unit) runs (units text))) ∧
    ∀ bytes, decode? bytes = none ↔ Faulty bytes := by
  refine ⟨fun text => ⟨decode?_encode text, fun byte => bounds_of_mem_encode⟩, ?_,
    fun bytes => decode?_eq_none_iff⟩
  intro bytes text success
  obtain ⟨runs, rfl, spelled⟩ := row_iff_forall₂.mp (decode?_eq_some_iff.mp success)
  exact ⟨length_encode_le_of_decode? success, runs, rfl, spelled, encode_eq_flatten_iff spelled⟩

/-- A letter in two bytes is read, but not written so; a lone high surrogate is refused. -/
theorem encode_canonical_longForm :
    decode? [0xC1, 0x81] = some "A" ∧ (encode "A").length ≤ 2 ∧ encode "A" ≠ [0xC1, 0x81] ∧
      Faulty [0xED, 0xA0, 0x80] :=
  have read : decode? [0xC1, 0x81] = some "A" := by decide
  ⟨read, (encode_canonical.2.1 _ _ read).1, by decide, (encode_canonical.2.2 _).mp (by decide)⟩

end ModifiedUtf8

end Lookout.Text
