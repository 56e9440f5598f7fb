import WildcardIndex.RecordSet.Basic
import WildcardIndex.Total
/-!
# Position lists — record sets by position

A position list holds the sets of one byte in one direction, by ascending
position. Positions count from the start of a value, from 0 up, or from its
end, from -1 down; they are 32-bit, and an offset is brought to that width
before it is looked up. A position is found by halving; **a missing position is
put where halving ends**, which keeps the list ascending.
-/

namespace WildcardIndex

/-- A place in a value: an offset from the start, or a negated distance from
the end. -/
abbrev Position := Int32

/-- The position of an offset, at 32 bits. -/
def positionOf (offset : Nat) : Position := Int32.ofNat offset

/-- The sets of one byte in one direction, by position. -/
structure PositionList where
  /-- The positions with their sets, ascending. -/
  entries : Array (Position × RecordSet) := #[]
  deriving Inhabited

namespace PositionList

/-- Whether entry `i` lies before a position. -/
def isBefore (l : PositionList) (i : Nat) (p : Position) : Bool :=
  match l.entries[i]? with
  | some (q, _) => q < p
  | none => false

/-- Halves `lo`–`hi` down to the first entry that is not before a position. -/
def lowerBoundIn (l : PositionList) (p : Position) (lo hi : Nat) : Nat :=
  if lo < hi then
    let mid := lo + (hi - lo) / 2
    if l.isBefore mid p then l.lowerBoundIn p (mid + 1) hi else l.lowerBoundIn p lo mid
  else lo
termination_by hi - lo
decreasing_by all_goals omega

/-- The first entry that is not before a position. -/
def lowerBound (l : PositionList) (p : Position) : Nat := l.lowerBoundIn p 0 l.entries.size

/-- The place of a position, if it is there. -/
def find? (l : PositionList) (p : Position) : Option Nat :=
  let i := l.lowerBound p
  match l.entries[i]? with
  | some (q, _) => if q = p then some i else none
  | none => none

/-- The set at a position, if the position was ever indexed. -/
def get? (l : PositionList) (p : Position) : Option RecordSet :=
  match l.entries[l.lowerBound p]? with
  | some (q, s) => if q = p then some s else none
  | none => none

/-- Halving ends between its bounds. -/
theorem lowerBoundIn_le (l : PositionList) (p : Position) (lo hi : Nat) (h : lo ≤ hi) :
    l.lowerBoundIn p lo hi ≤ hi := by
  fun_induction lowerBoundIn l p lo hi <;> grind

/-- There is room at the place where halving ends. -/
theorem lowerBound_le (l : PositionList) (p : Position) : l.lowerBound p ≤ l.entries.size :=
  l.lowerBoundIn_le p 0 _ (Nat.zero_le _)

/-- Changes the set at a position with `f`, or puts `fresh` there if the
position is missing. -/
def alter (l : PositionList) (p : Position) (f : RecordSet → RecordSet) (fresh : RecordSet) :
    PositionList :=
  match l.find? p with
  | some i => ⟨l.entries.modify i fun (q, s) => (q, f s)⟩
  | none => ⟨l.entries.insertIdx (l.lowerBound p) (p, fresh) (l.lowerBound_le p)⟩

/-- Stores a set at a position, over the one that may be there. -/
def set (l : PositionList) (p : Position) (s : RecordSet) : PositionList :=
  l.alter p (fun _ => s) s

/-- Changes the set at a position; a missing one starts empty in the given
backend. -/
def upsert (l : PositionList) (p : Position) (b : Backend) (f : RecordSet → RecordSet) :
    PositionList :=
  l.alter p f (f (.empty b))

/-- Makes sure a position is there; a missing one starts empty. -/
def touch (l : PositionList) (p : Position) (b : Backend) : PositionList := l.upsert p b id

/-- Adds a record at a position. -/
def insert (l : PositionList) (p : Position) (b : Backend) (r : Record) : PositionList :=
  l.upsert p b (·.insert r)

/-- Removes a record from the set at a position. A missing position stays
missing. -/
def erase (l : PositionList) (p : Position) (r : Record) : PositionList :=
  match l.find? p with
  | some i => ⟨l.entries.modify i fun (q, s) => (q, s.erase r)⟩
  | none => l

/-- Removes every record of a set from every position. -/
def subtract (l : PositionList) (gone : RecordSet) : PositionList :=
  ⟨l.entries.map fun (q, s) => (q, s.diff gone)⟩

/-- The number of positions. -/
def size (l : PositionList) : Nat := l.entries.size

/-- No position is indexed. -/
def isEmpty (l : PositionList) : Bool := l.entries.isEmpty

/-- The positions with their sets, ascending. -/
def toList (l : PositionList) : List (Position × RecordSet) := l.entries.toList

/-- The bytes the entries take: four for a position, and its set. -/
def byteSize (l : PositionList) : Nat :=
  total (fun (_, s) => 4 + s.byteSize) l.toList

end PositionList

end WildcardIndex
