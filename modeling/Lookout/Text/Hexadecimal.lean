/-
# Hexadecimal text

Lower-case digits, padded on the left with zeros to a least width. Diagnostics
show magic numbers and opcodes this way.
-/

namespace Lookout.Text

/-- The digits of `value` in base 16, at least `width` of them. -/
def hexadecimal (width value : Nat) : String :=
  let digits := Nat.toDigits 16 value
  String.ofList (List.replicate (width - digits.length) '0' ++ digits)

end Lookout.Text
