import WildcardIndex.RecordSet.Basic
import WildcardIndex.Total
/-!
# Lengths — records by the length of their value

For every length up to the longest one indexed there are two sets: the records
of exactly that length, made when the first such record comes, and the records
of at least that length. A record of length `n` is in one set of the first kind
and in `n + 1` of the second. **Growing needs no filling in**: no record so far
is longer than the longest length so far.
-/

namespace WildcardIndex

/-- Applies `f` to the first `n` cells of an array. -/
def modifyFirst {α : Type} (f : α → α) : Nat → Array α → Array α
  | 0, cells => cells
  | n + 1, cells => modifyFirst f n (cells.modify n f)

/-- The records of an index by the length of their value. -/
structure LengthIndex where
  /-- The backend of new sets. -/
  backend : Backend
  /-- The records of exactly each length; absent until one is added. -/
  exact : Array (Option RecordSet) := #[]
  /-- The records of each length or longer. -/
  cumulative : Array RecordSet := #[]

namespace LengthIndex

/-- A length index with no slot. -/
def empty (b : Backend) : LengthIndex := { backend := b }

/-- The number of lengths that have a slot. -/
def slots (x : LengthIndex) : Nat := x.exact.size

/-- The longest length that has a slot; zero if none has. -/
def maxLength (x : LengthIndex) : Nat := x.slots - 1

/-- The records of a length or longer, if the length has a slot. -/
def atLeast? (x : LengthIndex) (n : Nat) : Option RecordSet := x.cumulative[n]?

/-- The records of a length or longer. -/
def atLeast (x : LengthIndex) (n : Nat) : RecordSet :=
  (x.atLeast? n).getD (.empty x.backend)

/-- The records of exactly a length, if one was ever added. -/
def exactly? (x : LengthIndex) (n : Nat) : Option RecordSet := (x.exact[n]?).join

/-- Every indexed record. -/
def all (x : LengthIndex) : RecordSet := x.atLeast 0

/-- Makes a slot for a length and every shorter one. -/
def grow (x : LengthIndex) (n : Nat) : LengthIndex :=
  if n < x.slots then x else
    let ⟨b, exact, cumulative⟩ := x
    { backend := b
      exact := exact ++ Array.replicate (n + 1 - exact.size) none
      cumulative := cumulative ++ Array.replicate (n + 1 - cumulative.size) (.empty b) }

/-- A length index with a slot for every length up to `n`. -/
def ofMaxLength (b : Backend) (n : Nat) : LengthIndex := (empty b).grow n

/-- Adds a record of length `n`. -/
def add (x : LengthIndex) (r : Record) (n : Nat) : LengthIndex :=
  let ⟨b, exact, cumulative⟩ := x.grow n
  { backend := b
    exact := exact.modify n fun s => some ((s.getD (.empty b)).insert r)
    cumulative := modifyFirst (·.insert r) (n + 1) cumulative }

/-- Removes a record that was added with length `n`. -/
def remove (x : LengthIndex) (r : Record) (n : Nat) : LengthIndex :=
  let ⟨b, exact, cumulative⟩ := x
  { backend := b
    exact := exact.modify n (·.map (·.erase r))
    cumulative := modifyFirst (·.erase r) (min (n + 1) cumulative.size) cumulative }

/-- Removes every record of a set from every slot. -/
def subtract (x : LengthIndex) (gone : RecordSet) : LengthIndex :=
  { x with
    exact := x.exact.map (·.map (·.diff gone))
    cumulative := x.cumulative.map (·.diff gone) }

/-- Drops every slot. -/
def clear (x : LengthIndex) : LengthIndex := empty x.backend

/-- The bytes all sets take. -/
def byteSize (x : LengthIndex) : Nat :=
  total RecordSet.byteSize (x.exact.toList.filterMap id ++ x.cumulative.toList)

end LengthIndex

end WildcardIndex
