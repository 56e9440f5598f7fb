import WildcardIndex.RecordSet.Backend
import WildcardIndex.RecordSet.Dense
import WildcardIndex.RecordSet.Weight
/-!
# Record sets

The set every slot of the index owns: one type over the two representations.
Reading a set never depends on which one it is. **Combining two sets of
different representations leaves the first as it was**; an index keeps all its
sets in one representation, so its own combinations never meet that case.
-/

namespace WildcardIndex

/-- A set of record numbers in one of the two representations. -/
inductive RecordSet where
  /-- An ordered set. -/
  | roaring (s : RoaringSet)
  /-- A set of bits. -/
  | dense (s : DenseSet)

namespace RecordSet

/-- The empty set of a backend. -/
def empty : Backend → RecordSet
  | .roaring => roaring {}
  | .dense => dense .empty

instance : Inhabited RecordSet := ⟨empty .roaring⟩

/-- The backend a set is represented by. -/
def backend : RecordSet → Backend
  | roaring _ => .roaring
  | dense _ => .dense

/-- Membership, as a test. -/
def contains : RecordSet → Record → Bool
  | roaring s, v => s.contains v
  | dense s, v => s.contains v

instance : Membership Record RecordSet := ⟨fun s v => s.contains v = true⟩

instance (v : Record) (s : RecordSet) : Decidable (v ∈ s) :=
  inferInstanceAs (Decidable (s.contains v = true))

/-- Adds a record. -/
def insert : RecordSet → Record → RecordSet
  | roaring s, v => roaring (Std.TreeSet.insert s v)
  | dense s, v => dense (s.insert v)

/-- Removes a record. -/
def erase : RecordSet → Record → RecordSet
  | roaring s, v => roaring (Std.TreeSet.erase s v)
  | dense s, v => dense (s.erase v)

/-- Adds a record and says whether it was missing. -/
def insertNew (s : RecordSet) (v : Record) : Bool × RecordSet :=
  (!s.contains v, s.insert v)

/-- Removes a record and says whether it was there. -/
def eraseFound (s : RecordSet) (v : Record) : Bool × RecordSet :=
  (s.contains v, s.erase v)

/-- A set of the given backend holding the records of a list. -/
def ofList (b : Backend) (vs : List Record) : RecordSet :=
  vs.foldl insert (empty b)

/-- The number of members. -/
def size : RecordSet → Nat
  | roaring s => Std.TreeSet.size s
  | dense s => s.size

/-- No record is a member. -/
def isEmpty : RecordSet → Bool
  | roaring s => Std.TreeSet.isEmpty s
  | dense s => s.isEmpty

/-- Removes every record; the backend stays. -/
def clear (s : RecordSet) : RecordSet := empty s.backend

/-- The members, ascending. -/
def toList : RecordSet → List Record
  | roaring s => Std.TreeSet.toList s
  | dense s => s.toList

/-- The members of both sets, if they share a backend. -/
def inter : RecordSet → RecordSet → RecordSet
  | roaring s, roaring t => roaring (Std.TreeSet.inter s t)
  | dense s, dense t => dense (s.inter t)
  | s, _ => s

/-- The members of either set, if they share a backend. -/
def union : RecordSet → RecordSet → RecordSet
  | roaring s, roaring t => roaring (Std.TreeSet.union s t)
  | dense s, dense t => dense (s.union t)
  | s, _ => s

/-- The members of the first set outside the second, if they share a backend. -/
def diff : RecordSet → RecordSet → RecordSet
  | roaring s, roaring t => roaring (Std.TreeSet.diff s t)
  | dense s, dense t => dense (s.diff t)
  | s, _ => s

/-- Equality of contents, also between the two backends. -/
def beq : RecordSet → RecordSet → Bool
  | dense s, dense t => s == t
  | s, t => s.toList == t.toList

instance : BEq RecordSet := ⟨beq⟩

/-- The bytes a set takes. -/
def byteSize : RecordSet → Nat
  | roaring s => RoaringSet.byteSize s
  | dense s => s.byteSize

end RecordSet

end WildcardIndex
