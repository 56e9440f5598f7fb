import WildcardIndex.Length
import WildcardIndex.Positional.Basic
/-!
# Tables — what is known about the values of records

The tables are the positions and the lengths together. They are all a query
reads: a record is in them exactly under the value it was added with.
-/

namespace WildcardIndex

/-- Records by the bytes and by the length of their value. -/
structure Tables where
  /-- The records by the bytes of their value. -/
  positional : PositionalIndex
  /-- The records by the length of their value. -/
  length : LengthIndex

namespace Tables

/-- Tables of nothing. -/
def empty (b : Backend) : Tables := ⟨.empty b, .empty b⟩

/-- Adds a record under its value. -/
def add (t : Tables) (r : Record) (v : Bytes) : Tables :=
  let ⟨positional, length⟩ := t
  ⟨positional.add r v, length.add r v.length⟩

/-- Removes a record that was added under a value. -/
def remove (t : Tables) (r : Record) (v : Bytes) : Tables :=
  let ⟨positional, length⟩ := t
  ⟨positional.remove r v, length.remove r v.length⟩

/-- Removes every record of a set. -/
def subtract (t : Tables) (gone : RecordSet) : Tables :=
  let ⟨positional, length⟩ := t
  ⟨positional.subtract gone, length.subtract gone⟩

/-- Drops everything; the backends stay. -/
def clear (t : Tables) : Tables := ⟨t.positional.clear, t.length.clear⟩

/-- The bytes the tables take. -/
def byteSize (t : Tables) : Nat := t.positional.byteSize + t.length.byteSize

end Tables

end WildcardIndex
