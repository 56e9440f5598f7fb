/-!
# Records — the numbers the index answers with

A record is named by the place of its slot in the store, which never changes
while the record lives. Thirty-two bits hold it: that is the width of the sets
below, and the store stops growing before it overflows.
-/

namespace WildcardIndex

/-- The number of a record: the place of its slot in the store. -/
abbrev Record := UInt32

end WildcardIndex
