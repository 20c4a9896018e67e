/-
# Readers and the bytes they accept

A reader is described by a relation between runs of bytes and values: which
runs spell which value. `Accepts` says that the reader reads exactly the runs
of the relation, whatever stands behind them; `Finishes` says it of readers
that also require the data to end. Both are stated once for each way of
putting readers together, so that a format is described by putting the
descriptions of its parts together in the same way.
-/

import Lookout.Bytes.Cursor
import Lookout.Proofs.Bytes.Word
import Mathlib.Data.List.Forall2

namespace Lookout.Reader

variable {α β : Type}

/-- The reader takes a run of bytes off the front of its data exactly if the run
spells the value that it yields. -/
structure Accepts (reader : Reader α) (spells : Bytes → α → Prop) : Prop where
  /-- What spells a value is read as that value, and nothing behind it is touched. -/
  reads : ∀ {bytes value}, spells bytes value → ∀ position rest,
    reader ⟨position, bytes ++ rest⟩ = .ok (value, ⟨position + bytes.length, rest⟩)
  /-- Whatever is read was spelled by the bytes that are gone. -/
  consumed : ∀ {cursor value next}, reader cursor = .ok (value, next) →
    ∃ bytes, spells bytes value ∧ cursor.rest = bytes ++ next.rest ∧
      next.position = cursor.position + bytes.length

/-- The reader takes up all of its data exactly if the data spells the value. -/
def Finishes (reader : Reader α) (spells : Bytes → α → Prop) : Prop :=
  ∀ position data value, (∃ next, reader ⟨position, data⟩ = .ok (value, next)) ↔ spells data value

/-- Bytes that spell a value are its written form, and the value fits the form. -/
abbrev Written (encode : α → Bytes) (fits : α → Prop) (bytes : Bytes) (value : α) : Prop :=
  bytes = encode value ∧ fits value

/-- A run that spells one value, and behind it a run that, given this value, spells
another. -/
def Followed (first : Bytes → α → Prop) (second : α → Bytes → β → Prop) (bytes : Bytes)
    (value : β) : Prop :=
  ∃ front middle back, bytes = front ++ back ∧ first front middle ∧ second middle back value

theorem Followed.intro {first : Bytes → α → Prop} {second : α → Bytes → β → Prop}
    {front back : Bytes} {middle : α} {value : β} (spelled : first front middle)
    (later : second middle back value) : Followed first second (front ++ back) value :=
  ⟨front, middle, back, rfl, spelled, later⟩

/-- Runs one behind the other, each of which spells one of the values. -/
inductive Row (spells : Bytes → α → Prop) : Bytes → List α → Prop where
  | nil : Row spells [] []
  | cons {front back : Bytes} {value : α} {values : List α} :
      spells front value → Row spells back values → Row spells (front ++ back) (value :: values)

/-! ### Sequences -/

/-- A sequence succeeds exactly if both of its parts do, the second where the first
left off. -/
theorem bind_eq_ok_iff {first : Reader α} {second : α → Reader β} {cursor : Cursor}
    {result : β × Cursor} :
    (first >>= second) cursor = .ok result ↔
      ∃ value next, first cursor = .ok (value, next) ∧ second value next = .ok result := by
  show Except.bind (first cursor) (fun pair => second pair.1 pair.2) = .ok result ↔ _
  cases first cursor with
  | error fault => simp [Except.bind]
  | ok pair =>
      obtain ⟨value, next⟩ := pair
      simp only [Except.bind, Except.ok.injEq, Prod.mk.injEq]
      constructor
      · intro success
        exact ⟨value, next, ⟨rfl, rfl⟩, success⟩
      · rintro ⟨_, _, ⟨rfl, rfl⟩, success⟩
        exact success

theorem Accepts.congr {reader : Reader α} {spells spells' : Bytes → α → Prop}
    (accepts : Accepts reader spells)
    (same : ∀ bytes value, spells bytes value ↔ spells' bytes value) :
    Accepts reader spells' where
  reads spelled := accepts.reads ((same _ _).mpr spelled)
  consumed success := by
    obtain ⟨bytes, spelled, rest, position⟩ := accepts.consumed success
    exact ⟨bytes, (same _ _).mp spelled, rest, position⟩

theorem Finishes.congr {reader : Reader α} {spells spells' : Bytes → α → Prop}
    (finishes : Finishes reader spells)
    (same : ∀ bytes value, spells bytes value ↔ spells' bytes value) :
    Finishes reader spells' :=
  fun position data value => (finishes position data value).trans (same data value)

/-- A value that is handed on takes no bytes. -/
theorem accepts_pure (value : α) :
    Accepts (pure value) fun bytes other => bytes = [] ∧ other = value where
  reads := by
    rintro bytes other ⟨rfl, rfl⟩ position rest
    rfl
  consumed := by
    rintro cursor other next success
    cases success
    exact ⟨[], ⟨rfl, rfl⟩, rfl, rfl⟩

theorem Accepts.bind {first : Reader α} {second : α → Reader β} {spells : Bytes → α → Prop}
    {later : α → Bytes → β → Prop} (accepts : Accepts first spells)
    (acceptsLater : ∀ value, Accepts (second value) (later value)) :
    Accepts (first >>= second) (Followed spells later) where
  reads := by
    rintro bytes value ⟨front, middle, back, rfl, spelled, spelledLater⟩ position rest
    rw [bind_eq_ok_iff]
    refine ⟨middle, ⟨position + front.length, back ++ rest⟩, ?_, ?_⟩
    · rw [List.append_assoc]
      exact accepts.reads spelled position (back ++ rest)
    · rw [List.length_append, ← Nat.add_assoc]
      exact (acceptsLater middle).reads spelledLater _ rest
  consumed := by
    intro cursor value next success
    obtain ⟨middle, between, firstSuccess, secondSuccess⟩ := bind_eq_ok_iff.mp success
    obtain ⟨front, spelled, frontRest, frontPosition⟩ := accepts.consumed firstSuccess
    obtain ⟨back, spelledLater, backRest, backPosition⟩ :=
      (acceptsLater middle).consumed secondSuccess
    refine ⟨front ++ back, ⟨front, middle, back, rfl, spelled, spelledLater⟩, ?_, ?_⟩
    · rw [frontRest, backRest, List.append_assoc]
    · rw [backPosition, frontPosition, List.length_append, Nat.add_assoc]

/-- Applying a function to what was read does not change what is accepted. -/
theorem Accepts.map {reader : Reader α} {spells : Bytes → α → Prop}
    (accepts : Accepts reader spells) (change : α → β) :
    Accepts (reader >>= fun value => pure (change value)) fun bytes result =>
      ∃ value, spells bytes value ∧ result = change value :=
  (accepts.bind fun value => accepts_pure (change value)).congr fun bytes result => by
    constructor
    · rintro ⟨front, value, back, rfl, spelled, rfl, same⟩
      exact ⟨value, by simpa using spelled, same⟩
    · rintro ⟨value, spelled, same⟩
      exact ⟨bytes, value, [], by simp, spelled, rfl, same⟩

theorem Accepts.finishes {first : Reader α} {second : α → Reader β} {spells : Bytes → α → Prop}
    {later : α → Bytes → β → Prop} (accepts : Accepts first spells)
    (finishesLater : ∀ value, Finishes (second value) (later value)) :
    Finishes (first >>= second) (Followed spells later) := by
  intro position data value
  constructor
  · rintro ⟨next, success⟩
    obtain ⟨middle, between, firstSuccess, secondSuccess⟩ := bind_eq_ok_iff.mp success
    obtain ⟨front, spelled, frontRest, -⟩ := accepts.consumed firstSuccess
    exact ⟨front, middle, between.rest, frontRest, spelled,
      (finishesLater middle _ _ value).mp ⟨next, secondSuccess⟩⟩
  · rintro ⟨front, middle, back, rfl, spelled, spelledLater⟩
    obtain ⟨next, success⟩ :=
      (finishesLater middle (position + front.length) back value).mpr spelledLater
    exact ⟨next, bind_eq_ok_iff.mpr
      ⟨middle, ⟨position + front.length, back⟩, accepts.reads spelled position back, success⟩⟩

/-- A run over whole data yields exactly what the data spells. -/
theorem Finishes.readAll_eq_ok_iff {reader : Reader α} {spells : Bytes → α → Prop}
    (finishes : Finishes reader spells) {data : Bytes} {value : α} :
    readAll reader data = .ok value ↔ spells data value := by
  rw [← finishes 0 data value, readAll, Cursor.start]
  cases reader ⟨0, data⟩ with
  | error fault => simp [Except.map]
  | ok pair =>
      obtain ⟨read, next⟩ := pair
      simp [Except.map]

/-! ### Single items -/

theorem accepts_byte : Accepts byte fun bytes value => bytes = [value] where
  reads := by
    rintro bytes value rfl position rest
    rfl
  consumed := by
    rintro ⟨position, data⟩ value next success
    cases data with
    | nil => cases success
    | cons first rest =>
        cases success
        exact ⟨[value], rfl, rfl, rfl⟩

theorem accepts_word16 : Accepts word16 fun bytes value => bytes = Word.bytes16 value where
  reads := by
    rintro bytes value rfl position rest
    simp only [word16, Word.bytes16, List.cons_append, List.nil_append, Word.of16_bytes]
    rfl
  consumed := by
    rintro ⟨position, data⟩ value next success
    rcases data with _ | ⟨high, _ | ⟨low, rest⟩⟩
    · cases success
    · cases success
    · cases success
      exact ⟨[high, low], by simp, rfl, rfl⟩

theorem accepts_word32 : Accepts word32 fun bytes value => bytes = Word.bytes32 value where
  reads := by
    rintro bytes value rfl position rest
    simp only [word32, Word.bytes32, List.cons_append, List.nil_append, Word.of32_bytes]
    rfl
  consumed := by
    rintro ⟨position, data⟩ value next success
    rcases data with _ | ⟨b3, _ | ⟨b2, _ | ⟨b1, _ | ⟨b0, rest⟩⟩⟩⟩
    · cases success
    · cases success
    · cases success
    · cases success
    · cases success
      exact ⟨[b3, b2, b1, b0], by simp, rfl, rfl⟩

theorem accepts_word64 : Accepts word64 fun bytes value => bytes = Word.bytes64 value :=
  (accepts_word32.bind fun high => accepts_word32.map (Word.of64 high)).congr fun bytes value => by
    constructor
    · rintro ⟨front, high, back, rfl, rfl, low, rfl, rfl⟩
      exact (Word.bytes64_of64 high low).symm
    · rintro rfl
      exact ⟨_, _, _, rfl, rfl, _, rfl, (Word.of64_halves value).symm⟩

theorem accepts_take (count : Nat) :
    Accepts (take count) fun bytes value => bytes = value ∧ value.length = count where
  reads := by
    rintro bytes value ⟨rfl, rfl⟩ position rest
    simp [take]
  consumed := by
    rintro ⟨position, data⟩ value next success
    unfold take at success
    dsimp only at success
    split at success
    case isTrue whole =>
      cases success
      exact ⟨data.take count, ⟨rfl, whole⟩, (List.take_append_drop count data).symm, by rw [whole]⟩
    case isFalse => cases success

/-- A length field and as many bytes. -/
theorem accepts_blob : Accepts blob
    (Written (fun info => Word.count32 info.length ++ info) fun info => info.length < 4294967296) :=
  (accepts_word32.bind fun length => accepts_take length.toNat).congr fun bytes value => by
    constructor
    · rintro ⟨front, length, back, rfl, rfl, rfl, counted⟩
      simp only [Written, counted, Word.count32_toNat, true_and]
      exact length.toNat_lt
    · rintro ⟨rfl, room⟩
      exact ⟨_, UInt32.ofNat value.length, value, rfl, rfl, rfl, (Word.toNat_ofNat32 room).symm⟩

theorem accepts_fail (fault : ClassFileError) : Accepts (fail (α := α) fault) fun _ _ => False where
  reads := False.elim
  consumed success := by cases success

theorem accepts_ofExcept (result : Except ClassFileError α) :
    Accepts (ofExcept result) fun bytes value => bytes = [] ∧ result = .ok value where
  reads := by
    rintro bytes value ⟨rfl, rfl⟩ position rest
    rfl
  consumed := by
    intro cursor value next success
    cases result with
    | error fault => cases success
    | ok computed =>
        cases success
        exact ⟨[], ⟨rfl, rfl⟩, rfl, rfl⟩

theorem finishes_attributeEnd (name : String) (value : α) :
    Finishes (attributeEnd name >>= fun _ => pure value) fun bytes other =>
      bytes = [] ∧ other = value := by
  intro position data other
  cases data with
  | nil =>
      constructor
      · rintro ⟨next, success⟩
        cases success
        exact ⟨rfl, rfl⟩
      · rintro ⟨-, rfl⟩
        exact ⟨_, rfl⟩
  | cons first rest =>
      constructor
      · rintro ⟨next, success⟩
        cases success
      · rintro ⟨impossible, -⟩
        cases impossible

/-! ### Tables -/

/-- If every value is written in at most `excess` bytes more than it was spelled in, so
is a row of them, for each value. -/
theorem Row.length_flatMap_le {spells : Bytes → α → Prop} {encode : α → Bytes} {excess : Nat}
    {bytes : Bytes} {values : List α} (row : Row spells bytes values)
    (close : ∀ {front value}, spells front value → (encode value).length ≤ front.length + excess) :
    (values.flatMap encode).length ≤ bytes.length + excess * values.length := by
  induction row with
  | nil => simp
  | cons spelled _ ih =>
      have first := close spelled
      simp only [List.flatMap_cons, List.length_append, List.length_cons, Nat.mul_succ]
      omega

/-- Values with one written form each are spelled by these forms in a row. -/
theorem row_written_iff {encode : α → Bytes} {fits : α → Prop} {bytes : Bytes} {values : List α} :
    Row (Written encode fits) bytes values ↔
      bytes = values.flatMap encode ∧ ∀ value ∈ values, fits value := by
  constructor
  · intro row
    induction row with
    | nil => simp
    | cons spelled _ ih =>
        obtain ⟨rfl, fit⟩ := spelled
        obtain ⟨rfl, fitLater⟩ := ih
        simp only [List.flatMap_cons, List.mem_cons, forall_eq_or_imp, true_and]
        exact ⟨fit, fitLater⟩
  · rintro ⟨rfl, fit⟩
    induction values with
    | nil => exact .nil
    | cons value values ih =>
        rw [List.flatMap_cons]
        exact .cons ⟨rfl, fit value List.mem_cons_self⟩
          (ih fun later member => fit later (List.mem_cons_of_mem value member))

/-- Values that are each computed from what one run spells come from a row of what the
runs spell. -/
theorem row_exists_iff {spells : Bytes → α → Prop} {yields : α → β → Prop} {bytes : Bytes}
    {values : List β} :
    Row (fun run value => ∃ source, spells run source ∧ yields source value) bytes values ↔
      ∃ sources, Row spells bytes sources ∧ List.Forall₂ yields sources values := by
  constructor
  · intro row
    induction row with
    | nil => exact ⟨[], .nil, .nil⟩
    | cons first _ ih =>
        obtain ⟨source, spelled, yielded⟩ := first
        obtain ⟨sources, spelledLater, yieldedLater⟩ := ih
        exact ⟨source :: sources, .cons spelled spelledLater, .cons yielded yieldedLater⟩
  · rintro ⟨sources, row, yielded⟩
    induction row generalizing values with
    | nil =>
        cases yielded
        exact .nil
    | cons spelled _ ih =>
        cases yielded with
        | cons first later => exact .cons ⟨_, spelled, first⟩ (ih later)

/-- A row is one run for each of its values, put together. -/
theorem row_iff_forall₂ {spells : Bytes → α → Prop} {bytes : Bytes} {values : List α} :
    Row spells bytes values ↔ ∃ runs, bytes = runs.flatten ∧ List.Forall₂ spells runs values := by
  constructor
  · intro row
    induction row with
    | nil => exact ⟨[], rfl, .nil⟩
    | @cons front _ _ _ spelled _ ih =>
        obtain ⟨runs, rfl, spelledLater⟩ := ih
        exact ⟨front :: runs, rfl, .cons spelled spelledLater⟩
  · rintro ⟨runs, rfl, spelled⟩
    induction spelled with
    | nil => exact .nil
    | cons first _ ih => exact .cons first ih

/-- If no value is written in more bytes than its run has, then what is written is the runs
put together only if each value is written as its run. -/
theorem flatMap_eq_flatten_iff {encode : α → Bytes} {runs : List Bytes} {values : List α}
    (noLonger : List.Forall₂ (fun run value => (encode value).length ≤ run.length) runs values) :
    values.flatMap encode = runs.flatten ↔
      List.Forall₂ (fun run value => encode value = run) runs values := by
  constructor
  · intro same
    induction noLonger with
    | nil => exact .nil
    | @cons run value runs values first later ih =>
        have row : Row (fun run value => (encode value).length ≤ run.length) runs.flatten values :=
          row_iff_forall₂.mpr ⟨runs, rfl, later⟩
        have noLongerRest : (values.flatMap encode).length ≤
            runs.flatten.length + 0 * values.length :=
          row.length_flatMap_le fun noLonger => noLonger
        rw [List.flatMap_cons, List.flatten_cons] at same
        have lengths := congrArg List.length same
        rw [List.length_append, List.length_append] at lengths
        obtain ⟨sameRun, sameRest⟩ := List.append_inj same (by omega)
        exact .cons sameRun (ih sameRest)
  · intro pairs
    clear noLonger
    induction pairs with
    | nil => rfl
    | cons first _ ih => rw [List.flatMap_cons, List.flatten_cons, first, ih]

section Tables

variable {item : Reader α} {spells : Bytes → α → Prop}

private theorem manyOnto_of_row (accepts : Accepts item spells) {bytes : Bytes} {values : List α}
    (row : Row spells bytes values) (done : List α) (position : Nat) (rest : Bytes) :
    manyOnto item done values.length ⟨position, bytes ++ rest⟩ =
      .ok (done.reverse ++ values, ⟨position + bytes.length, rest⟩) := by
  induction row generalizing done position with
  | nil => simp [manyOnto]
  | cons spelled _ ih =>
      rw [List.length_cons, manyOnto, List.append_assoc, accepts.reads spelled]
      dsimp only
      rw [ih, List.reverse_cons, List.append_assoc, List.singleton_append, List.length_append,
        Nat.add_assoc]

private theorem row_of_manyOnto (accepts : Accepts item spells) {count : Nat} {done values : List α}
    {cursor next : Cursor} (success : manyOnto item done count cursor = .ok (values, next)) :
    ∃ bytes added, values = done.reverse ++ added ∧ added.length = count ∧
      Row spells bytes added ∧ cursor.rest = bytes ++ next.rest ∧
        next.position = cursor.position + bytes.length := by
  induction count generalizing done cursor with
  | zero =>
      rw [manyOnto] at success
      cases success
      exact ⟨[], [], by simp, rfl, .nil, rfl, rfl⟩
  | succ count ih =>
      rw [manyOnto] at success
      split at success
      case h_2 => cases success
      case h_1 value between firstSuccess =>
        obtain ⟨front, spelled, frontRest, frontPosition⟩ := accepts.consumed firstSuccess
        obtain ⟨back, added, same, counted, row, backRest, backPosition⟩ := ih success
        refine ⟨front ++ back, value :: added, ?_, ?_, .cons spelled row, ?_, ?_⟩
        · rw [same, List.reverse_cons, List.append_assoc, List.singleton_append]
        · rw [List.length_cons, counted]
        · rw [frontRest, backRest, List.append_assoc]
        · rw [backPosition, frontPosition, List.length_append, Nat.add_assoc]

/-- A given number of items, one after the other. -/
theorem Accepts.many (accepts : Accepts item spells) (count : Nat) :
    Accepts (Reader.many count item) fun bytes values =>
      values.length = count ∧ Row spells bytes values where
  reads := by
    rintro bytes values ⟨rfl, row⟩ position rest
    exact manyOnto_of_row accepts row [] position rest
  consumed := by
    intro cursor values next success
    obtain ⟨bytes, added, same, counted, row, rest, position⟩ := row_of_manyOnto accepts success
    rw [List.reverse_nil, List.nil_append] at same
    subst same
    exact ⟨bytes, ⟨counted, row⟩, rest, position⟩

/-- A count and as many items. The count leaves room for 65535 of them. -/
theorem Accepts.table (accepts : Accepts item spells) :
    Accepts (Reader.table item) fun bytes values =>
      values.length < 65536 ∧
        ∃ back, bytes = Word.count16 values.length ++ back ∧ Row spells back values :=
  (accepts_word16.bind fun count => accepts.many count.toNat).congr fun bytes values => by
    constructor
    · rintro ⟨front, count, back, rfl, rfl, counted, row⟩
      rw [counted, Word.count16_toNat]
      exact ⟨count.toNat_lt, back, rfl, row⟩
    · rintro ⟨room, back, rfl, row⟩
      exact ⟨_, UInt16.ofNat values.length, back, rfl, rfl, (Word.toNat_ofNat16 room).symm, row⟩

/-- A table of items with one written form each has one written form. -/
theorem Accepts.writtenTable {encode : α → Bytes} {fits : α → Prop}
    (accepts : Accepts item (Written encode fits)) :
    Accepts (Reader.table item)
      (Written (fun values => Word.count16 values.length ++ values.flatMap encode)
        fun values => values.length < 65536 ∧ ∀ value ∈ values, fits value) :=
  accepts.table.congr fun bytes values => by
    constructor
    · rintro ⟨room, back, rfl, row⟩
      obtain ⟨rfl, fit⟩ := row_written_iff.mp row
      exact ⟨rfl, room, fit⟩
    · rintro ⟨rfl, room, fit⟩
      exact ⟨room, _, rfl, row_written_iff.mpr ⟨rfl, fit⟩⟩

/-- A table that takes up all of an attribute. -/
theorem Accepts.wholeTable (accepts : Accepts item spells) (name : String) (whole : List α → β) :
    Finishes (do
      let values ← Reader.table item
      attributeEnd name
      return whole values) fun bytes result =>
      ∃ values, result = whole values ∧ values.length < 65536 ∧
        ∃ back, bytes = Word.count16 values.length ++ back ∧ Row spells back values :=
  Finishes.congr (accepts.table.finishes fun values => finishes_attributeEnd name (whole values))
    fun bytes result => by
      constructor
      · rintro ⟨_, values, _, rfl, ⟨room, back, rfl, row⟩, rfl, rfl⟩
        exact ⟨values, rfl, room, back, List.append_nil _, row⟩
      · rintro ⟨values, rfl, room, back, rfl, row⟩
        exact ⟨_, values, [], (List.append_nil _).symm, ⟨room, back, rfl, row⟩, rfl, rfl⟩

end Tables

end Lookout.Reader
