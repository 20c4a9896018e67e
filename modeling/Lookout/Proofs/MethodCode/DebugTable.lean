/-
# What moving a debug table reads and writes

A table is moved while it is read. Every entry of the result comes from one
written entry of the same length, with its offsets moved and the rest of it as it
was, so a moved table takes up as many bytes as the table it was read from.
-/

import Lookout.MethodCode.DebugTable
import Lookout.Proofs.Effect
import Lookout.Proofs.Bytes.Grammar

namespace Lookout

open Reader

namespace LineEntry

/-- The second entry is the first one, moved on. -/
def Moves (distance : UInt16) (entry moved : LineEntry) : Prop :=
  raisedOffset attributeName entry.start distance = .ok moved.start ∧ moved.line = entry.line

theorem accepts_readShifted (distance : UInt16) :
    Accepts (readShifted distance) fun written moved =>
      ∃ entry : LineEntry, Written bytes (fun _ => True) written entry ∧
        entry.Moves distance moved :=
  (accepts_word16.bind fun start => (accepts_ofExcept
    (raisedOffset attributeName start distance)).bind fun start =>
      accepts_word16.map (LineEntry.mk start)).congr fun written moved => by
    constructor
    · rintro ⟨_, start, _, rfl, rfl, _, raised, _, rfl, ⟨rfl, moves⟩, line, rfl, rfl⟩
      exact ⟨⟨start, line⟩, ⟨rfl, trivial⟩, moves, rfl⟩
    · rintro ⟨entry, ⟨rfl, -⟩, moves, same⟩
      exact .intro rfl ⟨[], moved.start, _, rfl, ⟨rfl, moves⟩, entry.line, rfl, by rw [← same]⟩

end LineEntry

namespace VariableRange

/-- The second range of the named table is the first one, moved on. -/
def Moves (name : String) (distance : UInt16) (range moved : VariableRange) : Prop :=
  shiftedBounds name distance range.start range.length = .ok (moved.start, moved.length) ∧
    moved.details = range.details

/-- Whether the range has the six bytes that are never looked into. -/
def Fits (range : VariableRange) : Prop := range.details.length = 6

theorem accepts_readShifted (name : String) (distance : UInt16) :
    Accepts (readShifted name distance) fun written moved =>
      ∃ range : VariableRange, Written bytes Fits written range ∧ range.Moves name distance moved :=
  (accepts_word16.bind fun start => accepts_word16.bind fun length => (accepts_ofExcept
    (shiftedBounds name distance start length)).bind fun bounds =>
      (accepts_take 6).map (VariableRange.mk bounds.1 bounds.2)).congr fun written moved => by
    constructor
    · rintro ⟨_, start, _, rfl, rfl, _, length, _, rfl, rfl, _, bounds, _, rfl, ⟨rfl, moves⟩,
        details, ⟨rfl, counted⟩, rfl⟩
      exact ⟨⟨start, length, _⟩, ⟨rfl, counted⟩, moves, rfl⟩
    · rintro ⟨range, ⟨rfl, counted⟩, moves, same⟩
      exact .intro rfl (.intro rfl ⟨[], (moved.start, moved.length), _, rfl, ⟨rfl, moves⟩,
        range.details, ⟨rfl, counted⟩, by rw [← same]⟩)

end VariableRange

namespace DebugTable

variable {α : Type}

theorem ofBytes_eq_ok_iff {name : String} {readEntry : Reader α} {spells : Bytes → α → Prop}
    (accepts : Accepts readEntry spells) {info : Bytes} {entries : List α} :
    ofBytes name readEntry info = .ok entries ↔ entries.length < 65536 ∧
      ∃ back, info = Word.count16 entries.length ++ back ∧ Row spells back entries := by
  apply (accepts.wholeTable name id).readAll_eq_ok_iff.trans
  simp

/-- A table is moved entry by entry: what was read came from a written table, and every
entry of it from the written entry in its place. -/
theorem ofBytes_eq_ok_iff_forall₂ {name : String} {readEntry : Reader α} {entryBytes : α → Bytes}
    {fits : α → Prop} {moves : α → α → Prop}
    (accepts : Accepts readEntry fun written moved =>
      ∃ entry, Written entryBytes fits written entry ∧ moves entry moved)
    {info : Bytes} {moved : List α} :
    ofBytes name readEntry info = .ok moved ↔ ∃ entries, entries.length < 65536 ∧
      info = bytes entryBytes entries ∧ (∀ entry ∈ entries, fits entry) ∧
        List.Forall₂ moves entries moved := by
  rw [ofBytes_eq_ok_iff accepts]
  constructor
  · rintro ⟨room, back, rfl, row⟩
    obtain ⟨entries, written, related⟩ := row_exists_iff.mp row
    obtain ⟨rfl, fit⟩ := row_written_iff.mp written
    rw [← related.length_eq] at room ⊢
    exact ⟨entries, room, rfl, fit, related⟩
  · rintro ⟨entries, room, rfl, fit, related⟩
    rw [bytes, related.length_eq] at *
    exact ⟨room, _, rfl, row_exists_iff.mpr ⟨entries, row_written_iff.mpr ⟨rfl, fit⟩, related⟩⟩

/-- A table whose entries are written in no more bytes than they were read from is
written in no more bytes than it was read from. -/
theorem length_bytes_le_of_ofBytes {name : String} {readEntry : Reader α}
    {spells : Bytes → α → Prop} {entryBytes : α → Bytes} (accepts : Accepts readEntry spells)
    (noLonger : ∀ {written entry}, spells written entry →
      (entryBytes entry).length ≤ written.length) {info : Bytes} {entries : List α}
    (read : ofBytes name readEntry info = .ok entries) :
    (bytes entryBytes entries).length ≤ info.length := by
  obtain ⟨-, back, rfl, row⟩ := (ofBytes_eq_ok_iff accepts).mp read
  have noLongerRow : (entries.flatMap entryBytes).length ≤ back.length + 0 * entries.length :=
    row.length_flatMap_le noLonger
  rw [bytes, List.length_append, List.length_append]
  omega

theorem length_le_of_shiftLines {distance : UInt16} {info moved : Bytes}
    (success : shiftLines distance info = .ok moved) : moved.length ≤ info.length := by
  obtain ⟨entries, read, written⟩ := bindExcept_eq_ok_iff.mp success
  cases written
  refine length_bytes_le_of_ofBytes (LineEntry.accepts_readShifted distance) ?_ read
  rintro _ entry ⟨old, ⟨rfl, -⟩, -⟩
  exact Nat.le_refl _

theorem length_le_of_shiftVariables {name : String} {distance : UInt16} {info moved : Bytes}
    (success : shiftVariables name distance info = .ok moved) : moved.length ≤ info.length := by
  obtain ⟨ranges, read, written⟩ := bindExcept_eq_ok_iff.mp success
  cases written
  refine length_bytes_le_of_ofBytes (VariableRange.accepts_readShifted name distance) ?_ read
  rintro _ range ⟨old, ⟨rfl, -⟩, -, same⟩
  rw [VariableRange.bytes, VariableRange.bytes, same]
  exact Nat.le_refl _

end DebugTable

end Lookout
