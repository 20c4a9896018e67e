/-
# The forms of stack map frames

Every verification type has one written form. A frame of one of the two compact
kinds may also be spelled in the extended form, whatever its delta, so a table is
read from more than what is written for it; but what is written is never longer
than what was read.
-/

import Lookout.Proofs.Bytes.Grammar
import Lookout.StackMap.Format

namespace Lookout

open Reader

namespace VerificationType

theorem accepts_read : Accepts read fun written type => written = bytes type where
  reads := by
    rintro written type rfl position rest
    unfold read
    apply bind_eq_ok_iff.mpr
    cases type with
    | object classIndex =>
        exact ⟨7, _, rfl, bind_eq_ok_iff.mpr
          ⟨classIndex, _, accepts_word16.reads rfl _ rest, rfl⟩⟩
    | uninitialized offset =>
        exact ⟨8, _, rfl, bind_eq_ok_iff.mpr ⟨offset, _, accepts_word16.reads rfl _ rest, rfl⟩⟩
    | _ => exact ⟨_, _, rfl, rfl⟩
  consumed := by
    intro cursor type next success
    obtain ⟨tag, between, tagSuccess, success⟩ := bind_eq_ok_iff.mp success
    obtain ⟨_, rfl, tagRest, tagPosition⟩ := accepts_byte.consumed tagSuccess
    split at success
    case h_8 =>
      obtain ⟨classIndex, last, indexSuccess, success⟩ := bind_eq_ok_iff.mp success
      obtain ⟨_, rfl, rest, position⟩ := accepts_word16.consumed indexSuccess
      cases success
      refine ⟨bytes (.object classIndex), rfl, ?_, ?_⟩
      · rw [tagRest, rest]
        rfl
      · rw [position, tagPosition]
        rfl
    case h_9 =>
      obtain ⟨offset, last, offsetSuccess, success⟩ := bind_eq_ok_iff.mp success
      obtain ⟨_, rfl, rest, position⟩ := accepts_word16.consumed offsetSuccess
      cases success
      refine ⟨bytes (.uninitialized offset), rfl, ?_, ?_⟩
      · rw [tagRest, rest]
        rfl
      · rw [position, tagPosition]
        rfl
    case h_10 => cases success
    all_goals
      cases success
      exact ⟨_, rfl, tagRest, tagPosition⟩

/-- Types in a row have one spelling. -/
theorem row_iff {written : Bytes} {types : List VerificationType} :
    Row (fun written type => written = bytes type) written types ↔
      written = types.flatMap bytes := by
  have same : (fun written type => written = bytes type) = Written bytes fun _ => True := by
    funext written type
    simp [Written]
  rw [same, row_written_iff]
  simp

end VerificationType

namespace StackMapFrame

/-- What may stand behind a kind byte and a delta of two bytes, and the frame that it
spells there. -/
inductive SpellsBehind (delta : UInt16) : UInt8 → Bytes → StackMapFrame → Prop where
  | oneStackItem (stack : VerificationType) :
      SpellsBehind delta 247 stack.bytes (.sameLocalsOneStackItem delta stack)
  | chop {kind : UInt8} : 248 ≤ kind → kind ≤ 250 →
      SpellsBehind delta kind [] (.chop delta (251 - kind))
  | same : SpellsBehind delta 251 [] (.same delta)
  | append {kind : UInt8} (locals : List VerificationType) : 252 ≤ kind → kind ≤ 254 →
      locals.length = (kind - 251).toNat →
      SpellsBehind delta kind (locals.flatMap VerificationType.bytes) (.append delta locals)
  | full (locals stack : List VerificationType) : locals.length < 65536 → stack.length < 65536 →
      SpellsBehind delta 255
        (Word.count16 locals.length ++ (locals.flatMap VerificationType.bytes ++
          (Word.count16 stack.length ++ stack.flatMap VerificationType.bytes)))
        (.full delta locals stack)

/-- What may stand behind a kind byte, and the frame that it spells there. -/
inductive Spells : UInt8 → Bytes → StackMapFrame → Prop where
  | same {kind : UInt8} : kind ≤ 63 → Spells kind [] (.same kind.toUInt16)
  | oneStackItem {kind : UInt8} (stack : VerificationType) : 64 ≤ kind → kind ≤ 127 →
      Spells kind stack.bytes (.sameLocalsOneStackItem (kind - 64).toUInt16 stack)
  | extended {kind : UInt8} {delta : UInt16} {back : Bytes} {frame : StackMapFrame} :
      SpellsBehind delta kind back frame → Spells kind (Word.bytes16 delta ++ back) frame

theorem SpellsBehind.kind_ge {delta : UInt16} {kind : UInt8} {back : Bytes} {frame : StackMapFrame}
    (spelled : SpellsBehind delta kind back frame) : 247 ≤ kind := by
  cases spelled <;> grind

private theorem accepts_types : Accepts (table VerificationType.read) fun written types =>
    types.length < 65536 ∧
      written = Word.count16 types.length ++ types.flatMap VerificationType.bytes :=
  VerificationType.accepts_read.table.congr fun written types => by
    constructor
    · rintro ⟨room, back, rfl, row⟩
      exact ⟨room, by rw [VerificationType.row_iff.mp row]⟩
    · rintro ⟨room, rfl⟩
      exact ⟨room, _, rfl, VerificationType.row_iff.mpr rfl⟩

private theorem accepts_readBehind (kind : UInt8) (extended : ¬kind ≤ 246) (delta : UInt16) :
    Accepts (
      if kind = 247 then do return .sameLocalsOneStackItem delta (← VerificationType.read)
      else if kind ≤ 250 then return .chop delta (251 - kind)
      else if kind = 251 then return .same delta
      else if kind ≤ 254 then do
        return .append delta (← Reader.many (kind - 251).toNat VerificationType.read)
      else do
        let locals ← Reader.table VerificationType.read
        let stack ← Reader.table VerificationType.read
        return .full delta locals stack)
      (SpellsBehind delta kind) := by
  by_cases oneStackItem : kind = 247
  · rw [if_pos oneStackItem]
    apply (VerificationType.accepts_read.map _).congr
    intro written frame
    subst oneStackItem
    constructor
    · rintro ⟨stack, rfl, rfl⟩
      exact .oneStackItem stack
    · intro spelled
      cases spelled with
      | oneStackItem stack => exact ⟨stack, rfl, rfl⟩
      | _ => grind
  rw [if_neg oneStackItem]
  by_cases chop : kind ≤ 250
  · rw [if_pos chop]
    apply (accepts_pure _).congr
    intro written frame
    constructor
    · rintro ⟨rfl, rfl⟩
      exact .chop (by grind) chop
    · intro spelled
      cases spelled with
      | chop _ _ => exact ⟨rfl, rfl⟩
      | _ => grind
  rw [if_neg chop]
  by_cases same : kind = 251
  · rw [if_pos same]
    apply (accepts_pure _).congr
    intro written frame
    subst same
    constructor
    · rintro ⟨rfl, rfl⟩
      exact .same
    · intro spelled
      cases spelled with
      | same => exact ⟨rfl, rfl⟩
      | _ => grind
  rw [if_neg same]
  by_cases append : kind ≤ 254
  · rw [if_pos append]
    apply ((VerificationType.accepts_read.many _).map _).congr
    intro written frame
    constructor
    · rintro ⟨locals, ⟨counted, row⟩, rfl⟩
      rw [VerificationType.row_iff.mp row]
      exact .append locals (by grind) append counted
    · intro spelled
      cases spelled with
      | append locals _ _ counted =>
          exact ⟨locals, ⟨counted, VerificationType.row_iff.mpr rfl⟩, rfl⟩
      | _ => grind
  rw [if_neg append]
  refine (accepts_types.bind fun locals => accepts_types.map _).congr fun written frame => ?_
  have full : kind = 255 := by grind
  subst full
  constructor
  · rintro ⟨_, locals, _, rfl, ⟨localsRoom, rfl⟩, stack, ⟨stackRoom, rfl⟩, rfl⟩
    rw [List.append_assoc]
    exact .full locals stack localsRoom stackRoom
  · intro spelled
    cases spelled with
    | full locals stack localsRoom stackRoom =>
        rw [← List.append_assoc]
        exact .intro ⟨localsRoom, rfl⟩ ⟨stack, ⟨stackRoom, rfl⟩, rfl⟩
    | _ => grind

theorem accepts_readBody (kind : UInt8) : Accepts (readBody kind) (Spells kind) := by
  unfold readBody
  by_cases compact : kind ≤ 63
  · rw [if_pos compact]
    apply (accepts_pure _).congr
    intro written frame
    constructor
    · rintro ⟨rfl, rfl⟩
      exact .same compact
    · intro spelled
      cases spelled with
      | same _ => exact ⟨rfl, rfl⟩
      | oneStackItem _ _ _ => grind
      | extended spelled =>
          have := spelled.kind_ge
          grind
  rw [if_neg compact]
  by_cases compactOne : kind ≤ 127
  · rw [if_pos compactOne]
    apply (VerificationType.accepts_read.map _).congr
    intro written frame
    constructor
    · rintro ⟨stack, rfl, rfl⟩
      exact .oneStackItem stack (by grind) compactOne
    · intro spelled
      cases spelled with
      | same _ => grind
      | oneStackItem stack _ _ => exact ⟨stack, rfl, rfl⟩
      | extended spelled =>
          have := spelled.kind_ge
          grind
  rw [if_neg compactOne]
  by_cases reserved : kind ≤ 246
  · rw [if_pos reserved]
    apply (accepts_fail _).congr
    intro written frame
    constructor
    · exact False.elim
    · intro spelled
      cases spelled with
      | same _ => grind
      | oneStackItem _ _ _ => grind
      | extended spelled =>
          have := spelled.kind_ge
          grind
  rw [if_neg reserved]
  apply (accepts_word16.bind (accepts_readBehind kind reserved)).congr
  intro written frame
  constructor
  · rintro ⟨_, delta, back, rfl, rfl, spelled⟩
    exact .extended spelled
  · intro spelled
    cases spelled with
    | same _ => grind
    | oneStackItem _ _ _ => grind
    | extended spelled => exact .intro rfl spelled

/-- A frame is spelled by a kind byte and what may stand behind it. -/
theorem accepts_read :
    Accepts read fun written frame =>
      ∃ kind back, written = kind :: back ∧ Spells kind back frame :=
  (accepts_byte.bind accepts_readBody).congr fun written frame => by
    constructor
    · rintro ⟨_, kind, back, rfl, rfl, spelled⟩
      exact ⟨kind, back, rfl, spelled⟩
    · rintro ⟨kind, back, rfl, spelled⟩
      exact ⟨[kind], kind, back, rfl, rfl, spelled⟩

private theorem SpellsBehind.length_bytes_le {delta : UInt16} {kind : UInt8} {back : Bytes}
    {frame : StackMapFrame} (spelled : SpellsBehind delta kind back frame) :
    frame.bytes.length ≤ back.length + 3 := by
  cases spelled with
  | oneStackItem stack =>
      by_cases compact : delta ≤ maxCompactDelta <;>
        simp only [bytes, compact, if_true, if_false, List.length_cons, List.length_append,
          Word.length_bytes16] <;> omega
  | same =>
      by_cases compact : delta ≤ maxCompactDelta <;>
        simp only [bytes, compact, if_true, if_false, List.length_cons, List.length_nil,
          Word.length_bytes16] <;> omega
  | _ =>
      simp only [bytes, List.length_cons, List.length_append, List.length_nil, Word.length_bytes16]
      omega

/-- A frame is written in no more bytes than it was spelled in. -/
theorem Spells.length_bytes_le {kind : UInt8} {back : Bytes} {frame : StackMapFrame}
    (spelled : Spells kind back frame) : frame.bytes.length ≤ back.length + 1 := by
  have isCompact {byte : UInt8} (small : byte ≤ 63) : byte.toUInt16 ≤ maxCompactDelta := by
    rw [UInt16.le_iff_toNat_le, UInt8.toNat_toUInt16]
    exact small
  cases spelled with
  | same compact =>
      rw [bytes, if_pos (isCompact compact)]
      exact Nat.le_refl _
  | oneStackItem stack low high =>
      rw [bytes, if_pos (isCompact (by grind))]
      exact Nat.le_refl _
  | extended spelled =>
      have behind := spelled.length_bytes_le
      rw [List.length_append, Word.length_bytes16]
      omega

end StackMapFrame

namespace StackMapTable

/-- The bytes spell a frame. -/
def SpellsFrame (written : Bytes) (frame : StackMapFrame) : Prop :=
  ∃ kind back, written = kind :: back ∧ StackMapFrame.Spells kind back frame

/-- A table is read exactly from a count and the spellings of that many frames. -/
theorem ofBytes_eq_ok_iff {info : Bytes} {table : StackMapTable} :
    ofBytes info = .ok table ↔ table.frames.length < 65536 ∧
      ∃ back, info = Word.count16 table.frames.length ++ back ∧
        Row SpellsFrame back table.frames := by
  have finishes := StackMapFrame.accepts_read.wholeTable attributeName StackMapTable.mk
  apply finishes.readAll_eq_ok_iff.trans
  constructor
  · rintro ⟨frames, rfl, spelled⟩
    exact spelled
  · intro spelled
    exact ⟨table.frames, rfl, spelled⟩

/-- A table is written in no more bytes than it was read from. -/
theorem length_bytes_le_of_ofBytes {info : Bytes} {table : StackMapTable}
    (read : ofBytes info = .ok table) : table.bytes.length ≤ info.length := by
  obtain ⟨-, back, rfl, row⟩ := ofBytes_eq_ok_iff.mp read
  have noLonger : (table.frames.flatMap StackMapFrame.bytes).length ≤
      back.length + 0 * table.frames.length :=
    row.length_flatMap_le fun spelled => by
      obtain ⟨kind, rest, rfl, spelled⟩ := spelled
      exact spelled.length_bytes_le
  rw [bytes, List.length_append, List.length_append]
  omega

end StackMapTable

end Lookout
