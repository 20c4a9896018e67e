/-
# Bodies and their bytes

The bodies whose lengths and counts have room and the attribute bodies that are accepted
as code are in one to one correspondence: each such body is written in one way, and it is
what is read from there and from nowhere else. Accepted bytes are accepted as a whole,
with not one of them missing and none behind them.
-/

import Lookout.Proofs.Bytes.Prefix
import Lookout.Proofs.Effect
import Lookout.Proofs.MethodCode.Format
import Mathlib.Data.Set.Function

namespace Lookout

open Reader

namespace Attribute

theorem delimited_read : Delimited read :=
  delimited_word16.bind fun _ => delimited_blob.bind fun _ => delimited_pure _

theorem delimited_readList : Delimited readList := delimited_read.table

end Attribute

theorem ExceptionEntry.delimited_read : Delimited read :=
  delimited_word16.bind fun _ => delimited_word16.bind fun _ => delimited_word16.bind fun _ =>
    delimited_word16.bind fun _ => delimited_pure _

namespace MethodCode

private theorem closed_read :
    Closed read fun count => .malformedAttribute attributeName (.trailing count) :=
  delimited_word16.closed fun _ => delimited_word16.closed fun _ => delimited_blob.closed
    fun _ => ExceptionEntry.delimited_read.table.closed fun _ =>
      Attribute.delimited_readList.closed fun _ => closed_attributeEnd attributeName _

/-- Writing is a bijection from the bodies that fit onto the bytes that are accepted, and
reading is its inverse. Accepted bytes are refused when some are missing at the end, and
refused for those that are left over when there are more. -/
theorem bijOn_bytes :
    Set.BijOn bytes {body | body.Fits} {info | ∃ body, ofBytes info = .ok body} ∧
      (∀ info body, ofBytes info = .ok body ↔ body.bytes = info ∧ body.Fits) ∧
      PrefixFree ofBytes fun count => .malformedAttribute attributeName (.trailing count) := by
  have inverse (info : Bytes) (body : MethodCode) :
      ofBytes info = .ok body ↔ body.bytes = info ∧ body.Fits := by
    rw [ofBytes_eq_ok_iff, eq_comm]
  refine ⟨⟨?mapsTo, ?injective, ?surjective⟩, inverse, closed_read.prefixFree⟩
  case mapsTo =>
    intro body fits
    exact ⟨body, (inverse _ _).mpr ⟨rfl, fits⟩⟩
  case injective =>
    intro body fits other otherFits same
    have read := (inverse _ _).mpr ⟨same, fits⟩
    rw [(inverse _ _).mpr ⟨rfl, otherFits⟩] at read
    exact (Except.ok.inj read).symm
  case surjective =>
    rintro info ⟨body, read⟩
    obtain ⟨same, fits⟩ := (inverse _ _).mp read
    exact ⟨body, fits, same⟩

/-- The code of a method with a handler and an attribute. -/
def handledSample : Bytes :=
  [0, 1, 0, 2, 0, 0, 0, 3, 0, 0, 177, 0, 1, 0, 0, 0, 2, 0, 2, 0, 0, 0, 1, 0, 5, 0, 0, 0, 2, 9, 9]

/-- That code is written as it was read. It is refused where its last attribute is cut, and
where two bytes follow it. -/
theorem bijOn_bytes_handledSample :
    ∃ body, ofBytes handledSample = .ok body ∧ body.bytes = handledSample ∧ body.Fits ∧
      ofBytes (handledSample ++ [0, 0]) = .error (.malformedAttribute "Code" (.trailing 2)) ∧
      ∃ offset ≤ 30, ofBytes (handledSample.take 30) = .error (.unexpectedEnd offset) := by
  obtain ⟨-, inverse, prefixFree⟩ := bijOn_bytes
  obtain ⟨body, read, -⟩ : ∃ body, ofBytes handledSample = .ok body ∧ body.code.length = 3 := by
    decide +kernel
  obtain ⟨same, fits⟩ := (inverse _ _).mp read
  exact ⟨body, read, same, fits, prefixFree.goesOn read (by decide),
    prefixFree.cutShort read (List.take_prefix 30 handledSample) (by decide)⟩

end MethodCode

end Lookout
