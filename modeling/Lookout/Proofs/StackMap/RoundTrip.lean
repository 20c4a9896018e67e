/-
# Which stack map tables survive being written

A table is read back from what is written for it exactly if its counts fit the width of
their fields and the kinds of frames that there are. Every table that was read is of this
sort. It may have been read from more bytes than are written for it, because a frame of
the two commonest kinds may spend two bytes on a delta that has a one-byte form; but this
is the only way in which the bytes of a table can differ from its written form.
-/

import Lookout.Proofs.Effect
import Lookout.Proofs.StackMap.Format

namespace Lookout

open Reader

namespace StackMapFrame

/-- Whether there is a kind of frame for as many locals and stack entries. -/
def Fits : StackMapFrame → Prop
  | .same _ => True
  | .sameLocalsOneStackItem _ _ => True
  | .chop _ count => 1 ≤ count ∧ count ≤ 3
  | .append _ locals => 1 ≤ locals.length ∧ locals.length ≤ 3
  | .full _ locals stack => locals.length < 65536 ∧ stack.length < 65536

instance (frame : StackMapFrame) : Decidable frame.Fits :=
  match frame with
  | .same _ | .sameLocalsOneStackItem _ _ => .isTrue trivial
  | .chop _ count => inferInstanceAs (Decidable (1 ≤ count ∧ count ≤ 3))
  | .append _ locals => inferInstanceAs (Decidable (1 ≤ locals.length ∧ locals.length ≤ 3))
  | .full _ locals stack =>
      inferInstanceAs (Decidable (locals.length < 65536 ∧ stack.length < 65536))

/-- The bytes are a frame in an extended form, with two bytes for its delta, although the
delta fits into a one-byte form. -/
def Stretched (run : Bytes) : Prop :=
  ∃ kind delta rest, run = kind :: (Word.bytes16 delta ++ rest) ∧
    (kind = 247 ∨ kind = 251) ∧ delta ≤ maxCompactDelta

theorem stretched_iff {kind : UInt8} {delta : UInt16} {rest : Bytes} :
    Stretched (kind :: (Word.bytes16 delta ++ rest)) ↔
      (kind = 247 ∨ kind = 251) ∧ delta ≤ maxCompactDelta := by
  constructor
  · rintro ⟨otherKind, otherDelta, otherRest, same, extended, compact⟩
    obtain ⟨rfl, sameRest⟩ := List.cons.inj same
    obtain ⟨sameDelta, -⟩ := List.append_inj sameRest rfl
    rw [Word.bytes16_injective sameDelta]
    exact ⟨extended, compact⟩
  · rintro ⟨extended, compact⟩
    exact ⟨kind, delta, rest, rfl, extended, compact⟩

private theorem delta_of_compactKind {kind : UInt8} (compact : kind ≤ 63) :
    kind.toUInt16 ≤ maxCompactDelta ∧ kind.toUInt16.toUInt8 = kind := by
  refine ⟨?_, UInt8.toUInt8_toUInt16 kind⟩
  rw [UInt16.le_iff_toNat_le, UInt8.toNat_toUInt16]
  exact compact

private theorem kind_of_compactDelta {delta : UInt16} (compact : delta ≤ maxCompactDelta) :
    delta.toUInt8 ≤ 63 ∧ delta.toUInt8.toUInt16 = delta := by
  have small : delta.toNat ≤ 63 := compact
  refine ⟨?_, Word.toUInt16_toUInt8 (UInt16.le_trans compact (by decide))⟩
  rw [UInt8.le_iff_toNat_le, UInt16.toNat_toUInt8]
  show delta.toNat % 256 ≤ 63
  omega

/-! ### What was read is written as it was -/

/-- A frame with two bytes for its delta is written as it is spelled, unless it is in one of
the extended forms and the delta is small. -/
theorem SpellsBehind.bytes_eq_iff {delta : UInt16} {kind : UInt8} {back : Bytes}
    {frame : StackMapFrame} (spelled : SpellsBehind delta kind back frame) :
    frame.bytes = kind :: (Word.bytes16 delta ++ back) ↔
      ¬((kind = 247 ∨ kind = 251) ∧ delta ≤ maxCompactDelta) := by
  cases spelled with
  | oneStackItem stack =>
      by_cases compact : delta ≤ maxCompactDelta
      · refine iff_of_false (fun same => ?_) (by simp [compact])
        have lengths := congrArg List.length same
        simp [bytes, compact] at lengths
      · simp [bytes, compact]
  | chop low high =>
      have ordinary : ¬(kind = 247 ∨ kind = 251) := by grind
      have sameKind : 251 - (251 - kind) = kind := by grind
      simp [bytes, ordinary, sameKind]
  | same =>
      by_cases compact : delta ≤ maxCompactDelta
      · refine iff_of_false (fun same => ?_) (by simp [compact])
        have lengths := congrArg List.length same
        simp [bytes, compact] at lengths
      · simp [bytes, compact]
  | append locals low high counted =>
      have ordinary : ¬(kind = 247 ∨ kind = 251) := by grind
      have sameKind : 251 + UInt8.ofNat locals.length = kind := by
        rw [counted, UInt8.ofNat_toNat]
        grind
      simp [bytes, ordinary, sameKind]
  | full locals stack _ _ => simp [bytes]

/-- A frame is written as it is spelled, unless it is stretched. -/
theorem Spells.bytes_eq_iff {kind : UInt8} {back : Bytes} {frame : StackMapFrame}
    (spelled : Spells kind back frame) :
    frame.bytes = kind :: back ↔ ¬Stretched (kind :: back) := by
  have unstretched (compact : kind ≤ 127) : ¬Stretched (kind :: back) := by
    rintro ⟨other, delta, rest, same, extended, -⟩
    obtain ⟨rfl, -⟩ := List.cons.inj same
    rcases extended with rfl | rfl <;> exact absurd compact (by decide)
  cases spelled with
  | same compact =>
      obtain ⟨small, sameKind⟩ := delta_of_compactKind compact
      refine iff_of_true ?_ (unstretched (by grind))
      rw [bytes, if_pos small, sameKind]
  | oneStackItem stack low high =>
      have compact : kind - 64 ≤ 63 := by grind
      obtain ⟨small, sameKind⟩ := delta_of_compactKind compact
      have sum : 64 + (kind - 64) = kind := by grind
      refine iff_of_true ?_ (unstretched high)
      rw [bytes, if_pos small, sameKind, sum]
  | extended spelled => rw [spelled.bytes_eq_iff, stretched_iff]

theorem SpellsBehind.fits {delta : UInt16} {kind : UInt8} {back : Bytes} {frame : StackMapFrame}
    (spelled : SpellsBehind delta kind back frame) : frame.Fits := by
  cases spelled with
  | oneStackItem _ => trivial
  | same => trivial
  | chop low high => exact ⟨by grind, by grind⟩
  | append locals low high counted =>
      have difference : (kind - 251).toNat = kind.toNat - 251 :=
        UInt8.toNat_sub_of_le _ _ (by grind)
      rw [UInt8.le_iff_toNat_le] at low high
      rw [Fits, counted, difference]
      exact ⟨Nat.le_sub_of_add_le low, Nat.sub_le_of_le_add high⟩
  | full _ _ localsRoom stackRoom => exact ⟨localsRoom, stackRoom⟩

/-- Every frame that is spelled fits. -/
theorem Spells.fits {kind : UInt8} {back : Bytes} {frame : StackMapFrame}
    (spelled : Spells kind back frame) : frame.Fits := by
  cases spelled with
  | same _ => trivial
  | oneStackItem _ _ _ => trivial
  | extended spelled => exact spelled.fits

/-! ### What is written is read -/

/-- A frame that fits is spelled by what is written for it. -/
theorem Fits.spells_bytes {frame : StackMapFrame} (fits : frame.Fits) :
    ∃ kind back, frame.bytes = kind :: back ∧ Spells kind back frame := by
  cases frame with
  | same delta =>
      by_cases compact : delta ≤ maxCompactDelta
      · obtain ⟨small, sameDelta⟩ := kind_of_compactDelta compact
        have spelled := Spells.same small
        rw [sameDelta] at spelled
        exact ⟨_, _, by rw [bytes, if_pos compact], spelled⟩
      · exact ⟨251, Word.bytes16 delta ++ [], by rw [bytes, if_neg compact, List.append_nil],
          .extended .same⟩
  | sameLocalsOneStackItem delta stack =>
      by_cases compact : delta ≤ maxCompactDelta
      · obtain ⟨small, sameDelta⟩ := kind_of_compactDelta compact
        have difference : 64 + delta.toUInt8 - 64 = delta.toUInt8 := by grind
        have spelled : Spells (64 + delta.toUInt8) stack.bytes _ :=
          .oneStackItem stack (by grind) (by grind)
        rw [difference, sameDelta] at spelled
        exact ⟨_, _, by rw [bytes, if_pos compact], spelled⟩
      · exact ⟨_, _, by rw [bytes, if_neg compact], .extended (.oneStackItem stack)⟩
  | chop delta count =>
      obtain ⟨some, few⟩ := fits
      have difference : 251 - (251 - count) = count := by grind
      have spelled : SpellsBehind delta (251 - count) [] _ := .chop (by grind) (by grind)
      rw [difference] at spelled
      exact ⟨251 - count, Word.bytes16 delta ++ [], by rw [bytes, List.append_nil],
        .extended spelled⟩
  | append delta locals =>
      obtain ⟨some, few⟩ := fits
      refine ⟨_, _, rfl, .extended (.append locals ?_ ?_ ?_)⟩
      all_goals
        obtain one | two | three : locals.length = 1 ∨ locals.length = 2 ∨ locals.length = 3 := by
          omega
      all_goals simp [*]
  | full delta locals stack => exact ⟨_, _, rfl, .extended (.full locals stack fits.1 fits.2)⟩

end StackMapFrame

namespace StackMapTable

/-- Whether all counts of the table can be written. -/
structure Fits (table : StackMapTable) : Prop where
  frames : table.frames.length < 65536
  each : ∀ frame ∈ table.frames, frame.Fits

instance (table : StackMapTable) : Decidable table.Fits :=
  decidable_of_iff (table.frames.length < 65536 ∧ ∀ frame ∈ table.frames, frame.Fits)
    ⟨fun ⟨frames, each⟩ => ⟨frames, each⟩, fun fits => ⟨fits.frames, fits.each⟩⟩

/-- The bytes are a count and that many runs, each of which spells the frame in its place. -/
def Spells (info : Bytes) (runs : List Bytes) (frames : List StackMapFrame) : Prop :=
  runs.length < 65536 ∧ info = Word.count16 runs.length ++ runs.flatten ∧
    List.Forall₂ SpellsFrame runs frames

/-- The bytes spell a table, and one of its frames is stretched. -/
def UsesStretched (info : Bytes) : Prop :=
  ∃ runs frames, Spells info runs frames ∧ ∃ run ∈ runs, StackMapFrame.Stretched run

theorem ofBytes_eq_ok_iff_spells {info : Bytes} {table : StackMapTable} :
    ofBytes info = .ok table ↔ ∃ runs, Spells info runs table.frames := by
  rw [ofBytes_eq_ok_iff]
  simp only [row_iff_forall₂]
  constructor
  · rintro ⟨room, _, rfl, runs, rfl, spelled⟩
    rw [← spelled.length_eq] at room ⊢
    exact ⟨runs, room, rfl, spelled⟩
  · rintro ⟨runs, room, rfl, spelled⟩
    rw [spelled.length_eq] at room ⊢
    exact ⟨room, _, rfl, runs, rfl, spelled⟩

theorem fits_of_ofBytes {info : Bytes} {table : StackMapTable} (read : ofBytes info = .ok table) :
    table.Fits := by
  obtain ⟨runs, room, rfl, spelled⟩ := ofBytes_eq_ok_iff_spells.mp read
  refine ⟨spelled.length_eq ▸ room, fun frame member => ?_⟩
  obtain ⟨run, -, kind, back, -, spelledFrame⟩ := exists_of_mem_forall₂ spelled member
  exact spelledFrame.fits

/-- A table that fits is read back from what is written for it. -/
theorem Fits.ofBytes_bytes {table : StackMapTable} (fits : table.Fits) :
    ofBytes table.bytes = .ok table := by
  refine ofBytes_eq_ok_iff_spells.mpr ⟨table.frames.map StackMapFrame.bytes, ?_, ?_, ?_⟩
  · rw [List.length_map]
    exact fits.frames
  · rw [bytes, List.length_map, List.flatMap_def]
  · rw [List.forall₂_map_left_iff]
    refine List.forall₂_same.mpr fun frame member => ?_
    exact (fits.each frame member).spells_bytes

/-- A table is written as it was spelled, unless a frame is stretched. -/
theorem Spells.bytes_eq_iff {info : Bytes} {runs : List Bytes} {table : StackMapTable}
    (spelled : Spells info runs table.frames) :
    table.bytes = info ↔ ∀ run ∈ runs, ¬StackMapFrame.Stretched run := by
  obtain ⟨room, rfl, pairs⟩ := spelled
  have noLonger : List.Forall₂ (fun run frame => (StackMapFrame.bytes frame).length ≤ run.length)
      runs table.frames :=
    pairs.imp fun run frame spelled => by
      obtain ⟨kind, back, rfl, spelled⟩ := spelled
      exact spelled.length_bytes_le
  rw [bytes, pairs.length_eq, List.append_right_inj, flatMap_eq_flatten_iff noLonger]
  clear room noLonger
  generalize table.frames = frames at pairs ⊢
  induction pairs with
  | nil => simp
  | cons first _ ih =>
      obtain ⟨kind, back, rfl, spelled⟩ := first
      rw [List.forall₂_cons, spelled.bytes_eq_iff, List.forall_mem_cons]
      exact and_congr_right fun _ => ih

/-- The tables that are read back from what is written for them are those that fit. What is
read always fits, and is written in no more bytes than it was read from; the bytes are the
same unless a frame took an extended form for a delta that has a compact one. -/
theorem canonical_bytes (table : StackMapTable) :
    (ofBytes table.bytes = .ok table ↔ table.Fits) ∧
      ∀ info, ofBytes info = .ok table →
        table.Fits ∧ table.bytes.length ≤ info.length ∧
          (table.bytes = info ↔ ¬UsesStretched info) := by
  refine ⟨⟨fits_of_ofBytes, Fits.ofBytes_bytes⟩, fun info read => ?_⟩
  refine ⟨fits_of_ofBytes read, length_bytes_le_of_ofBytes read, ?_⟩
  obtain ⟨runs, spelled⟩ := ofBytes_eq_ok_iff_spells.mp read
  constructor
  · rintro same ⟨otherRuns, frames, otherSpelled, run, member, stretched⟩
    -- However the bytes are cut into frames, it is this table that they spell.
    have otherRead := ofBytes_eq_ok_iff_spells.mpr ⟨otherRuns, otherSpelled⟩
    cases read.symm.trans otherRead
    exact otherSpelled.bytes_eq_iff.mp same run member stretched
  · intro noneStretched
    refine spelled.bytes_eq_iff.mpr fun run member stretched => ?_
    exact noneStretched ⟨runs, table.frames, spelled, run, member, stretched⟩

/-- Three frames, of which the first has the delta 5 in two bytes. -/
def stretchedSample : Bytes := [0, 3, 251, 0, 5, 247, 0, 200, 7, 0, 9, 249, 0, 1]

/-- The first frame of the sample is written in one byte. -/
theorem canonical_bytes_stretchedSample :
    ∃ table : StackMapTable, ofBytes stretchedSample = .ok table ∧ table.Fits ∧
      ofBytes table.bytes = .ok table ∧
      table.bytes = [0, 3, 5, 247, 0, 200, 7, 0, 9, 249, 0, 1] ∧
      UsesStretched stretchedSample := by
  have read : ofBytes stretchedSample =
      .ok ⟨[.same 5, .sameLocalsOneStackItem 200 (.object 9), .chop 1 2]⟩ :=
    eq_ok_of_toOption (by decide +kernel)
  obtain ⟨readBack, canonical⟩ := canonical_bytes
    ⟨[.same 5, .sameLocalsOneStackItem 200 (.object 9), .chop 1 2]⟩
  obtain ⟨fits, -, sameIff⟩ := canonical stretchedSample read
  have stretched : UsesStretched stretchedSample :=
    Classical.not_not.mp fun noneStretched => absurd (sameIff.mpr noneStretched) (by decide)
  exact ⟨_, read, fits, readBack.mpr (by decide), by decide, stretched⟩

end StackMapTable

end Lookout
