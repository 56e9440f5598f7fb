import WildcardIndex.Bytes
/-!
# Slots — where a record lives

A slot is live from the moment a value is put into it until its record is
deleted. Deleting only marks it; the value stays cached until the sets have
been purged of the record, and an emptied slot waits for its next value:

```text
live --delete--> tombstoned --purge--> vacant
 ^                   |                    |
 +------reuse--------+--------reuse-------+
```
-/

namespace WildcardIndex

/-- What a slot is at. -/
inductive SlotState where
  /-- Indexed and visible to queries. -/
  | live
  /-- Deleted, but still in the sets. -/
  | tombstoned
  /-- Deleted and in no set. -/
  | vacant
  deriving DecidableEq, Repr

/-- The word for a state in messages. -/
def SlotState.name : SlotState → String
  | live => "Live"
  | tombstoned => "Tombstoned"
  | vacant => "Vacant"

/-- A slot: what it is called outside, and the value it was indexed under. -/
structure Slot (I : Type) where
  /-- The identifier last put there. -/
  identifier : I
  /-- The indexed value; absent once the sets have been purged of it. -/
  value : Option Bytes

end WildcardIndex
