/-
# UTF-16 code units

A character below 2^16 is one code unit, any other a pair of surrogates: the
first from D800 on and carrying the upper ten bits, the second from DC00 on
and carrying the lower ten. Reading refuses a surrogate that has no partner;
everything else is a character.
-/

namespace Lookout.Text

/-- The one or two code units of a character. -/
def unitsOfChar (character : Char) : List UInt16 :=
  let value := character.toNat
  if value < 0x10000 then [UInt16.ofNat value]
  else
    let offset := value - 0x10000
    [UInt16.ofNat (0xD800 + offset / 0x400), UInt16.ofNat (0xDC00 + offset % 0x400)]

/-- The code units of a text, in order. -/
def units (text : String) : List UInt16 :=
  text.toList.flatMap unitsOfChar

/-- Whether the unit opens a surrogate pair. -/
def isHighSurrogate (unit : UInt16) : Bool :=
  0xD800 ≤ unit && unit ≤ 0xDBFF

/-- Whether the unit closes a surrogate pair. -/
def isLowSurrogate (unit : UInt16) : Bool :=
  0xDC00 ≤ unit && unit ≤ 0xDFFF

/-- The character that a surrogate pair stands for. -/
def charOfPair (high low : UInt16) : Char :=
  Char.ofNat (0x10000 + (high.toNat - 0xD800) * 0x400 + (low.toNat - 0xDC00))

/-- Read code units behind the characters already `done`, which are kept in
reverse so that long texts need no stack. -/
def charsOfUnitsOnto : List Char → List UInt16 → Option (List Char)
  | done, [] => some done.reverse
  | done, unit :: rest =>
    if isHighSurrogate unit then
      match rest with
      | [] => none
      | partner :: rest =>
        if isLowSurrogate partner then charsOfUnitsOnto (charOfPair unit partner :: done) rest
        else none
    else if isLowSurrogate unit then none
    else charsOfUnitsOnto (Char.ofNat unit.toNat :: done) rest

/-- The text with these code units, if no surrogate stands alone. -/
def ofUnits? (codeUnits : List UInt16) : Option String :=
  (charsOfUnitsOnto [] codeUnits).map String.ofList

end Lookout.Text
