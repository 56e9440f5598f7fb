import WildcardIndex.Bytes
import WildcardIndex.Positional.ByteTable
import WildcardIndex.Positional.PositionList
import WildcardIndex.Total
/-!
# Positions — records by the bytes of their value

A value is indexed three times over: every byte of it by its offset from the
start, by its distance from the end, and by merely occurring. So a literal byte
at a known place, counted from either end, is one lookup.
-/

namespace WildcardIndex

/-- The records of an index by the bytes of their value. -/
structure PositionalIndex where
  /-- The backend of new sets. -/
  backend : Backend
  /-- For every byte, the records that have it at each offset. -/
  forward : ByteTable PositionList
  /-- For every byte, the records that have it at each distance from the end. -/
  backward : ByteTable PositionList
  /-- For every byte, the records that have it; absent until one has. -/
  presence : ByteTable (Option RecordSet)

namespace PositionalIndex

/-- A positional index of nothing. -/
def empty (b : Backend) : PositionalIndex where
  backend := b
  forward := .uniform {}
  backward := .uniform {}
  presence := .uniform none

/-- The records with a byte at an offset from the start. -/
def forward? (x : PositionalIndex) (b : UInt8) (offset : Nat) : Option RecordSet :=
  (x.forward.get b).get? (positionOf offset)

/-- The records with a byte at a negative position; -1 is the last byte. -/
def backward? (x : PositionalIndex) (b : UInt8) (p : Position) : Option RecordSet :=
  (x.backward.get b).get? p

/-- The records with a byte anywhere. -/
def presence? (x : PositionalIndex) (b : UInt8) : Option RecordSet := x.presence.get b

/-- Stores a set at an offset from the start. -/
def setForward (x : PositionalIndex) (b : UInt8) (offset : Nat) (s : RecordSet) : PositionalIndex :=
  { x with forward := x.forward.update b (·.set (positionOf offset) s) }

/-- Stores a set at a negative position. -/
def setBackward (x : PositionalIndex) (b : UInt8) (p : Position) (s : RecordSet) :
    PositionalIndex :=
  { x with backward := x.backward.update b (·.set p s) }

/-- The records with any byte at an offset: those with a longer value. -/
def anyAt (x : PositionalIndex) (offset : Nat) : RecordSet :=
  x.forward.toList.foldl (fun found l =>
    match l.get? (positionOf offset) with
    | some s => found.union s
    | none => found) (.empty x.backend)

/-- Adds a record under one byte, `before` bytes of its value standing before
it and `remaining` from it on. -/
def addByte (r : Record) (x : PositionalIndex) (b : UInt8) (before remaining : Nat) :
    PositionalIndex :=
  let ⟨kind, forward, backward, presence⟩ := x
  { backend := kind
    forward := forward.update b (·.insert (positionOf before) kind r)
    backward := backward.update b (·.insert (-positionOf remaining) kind r)
    presence := presence.update b fun s => some ((s.getD (.empty kind)).insert r) }

/-- Removes a record from the three sets of one byte. -/
def removeByte (r : Record) (x : PositionalIndex) (b : UInt8) (before remaining : Nat) :
    PositionalIndex :=
  let ⟨kind, forward, backward, presence⟩ := x
  { backend := kind
    forward := forward.update b (·.erase (positionOf before) r)
    backward := backward.update b (·.erase (-positionOf remaining) r)
    presence := presence.update b (·.map (·.erase r)) }

/-- Goes through a value with `f`, telling it for every byte how many stand
before it and how many are left from it on. -/
def throughValue (f : PositionalIndex → UInt8 → Nat → Nat → PositionalIndex) (length : Nat)
    (x : PositionalIndex) (v : Bytes) : PositionalIndex :=
  v.zipIdx.foldl (fun x (b, i) => f x b i (length - i)) x

/-- Indexes a value under a record. -/
def add (x : PositionalIndex) (r : Record) (v : Bytes) : PositionalIndex :=
  throughValue (addByte r) v.length x v

/-- Takes a record out of exactly the sets its value put it into. -/
def remove (x : PositionalIndex) (r : Record) (v : Bytes) : PositionalIndex :=
  throughValue (removeByte r) v.length x v

/-- Removes every record of a set from every set. The lists of different bytes
have nothing in common, so it makes no difference whether they are gone through
at once or one after another: each ends up as `PositionList.subtract` leaves it. -/
def subtract (x : PositionalIndex) (gone : RecordSet) : PositionalIndex :=
  { x with
    forward := x.forward.map (·.subtract gone)
    backward := x.backward.map (·.subtract gone)
    presence := x.presence.map (·.map (·.diff gone)) }

/-- The number of positions over all bytes and both directions. -/
def entryCount (x : PositionalIndex) : Nat :=
  total PositionList.size x.forward.toList + total PositionList.size x.backward.toList

/-- The bytes all sets take. -/
def byteSize (x : PositionalIndex) : Nat :=
  total PositionList.byteSize x.forward.toList + total PositionList.byteSize x.backward.toList
    + total RecordSet.byteSize (x.presence.toList.filterMap id)

/-- Drops every set; the backend stays. -/
def clear (x : PositionalIndex) : PositionalIndex := empty x.backend

end PositionalIndex

end WildcardIndex
