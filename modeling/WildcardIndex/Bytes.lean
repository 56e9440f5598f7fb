/-!
# Bytes — values and patterns

Values and patterns are byte strings, compared byte by byte and never as
characters. They are kept as lists, so that a pattern and the value it is held
against are taken apart by the same recursion.
-/

namespace WildcardIndex

/-- A byte string. -/
abbrev Bytes := List UInt8

end WildcardIndex
