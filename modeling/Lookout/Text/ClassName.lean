/-
# Spellings of class names

A class name is written with slashes inside class files (the internal form)
and with dots in source code and messages (the binary form).
-/

namespace Lookout.Text

/-- The text with every dot made a slash. -/
def slashed (text : String) : String :=
  String.ofList (text.toList.map fun character => if character = '.' then '/' else character)

/-- The text with every slash made a dot. -/
def dotted (text : String) : String :=
  String.ofList (text.toList.map fun character => if character = '/' then '.' else character)

end Lookout.Text
