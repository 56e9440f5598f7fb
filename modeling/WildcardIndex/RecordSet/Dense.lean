import WildcardIndex.RecordSet.Record
/-!
# Record sets — the dense representation

Number `v` is bit `v % 64` of word `v / 64`. The words grow when a number
beyond them is inserted and when a longer set is added in; an intersection cuts
them to the shorter operand; removals leave them. So two sets with the same
members may differ in trailing zero words, which membership, listing and
comparison do not see.
-/

namespace WildcardIndex

/-- A set of record numbers, one bit a number. -/
structure DenseSet where
  /-- The words, 64 record numbers each. -/
  words : Array UInt64 := #[]
  deriving Inhabited, Repr

namespace DenseSet

/-- The word that holds a number. -/
def wordIndex (v : Record) : Nat := v.toNat / 64

/-- The bit of its word that stands for a number. -/
def bitMask (v : Record) : UInt64 := 1 <<< (v.toNat % 64).toUInt64

/-- The empty set, without a word. -/
def empty : DenseSet := {}

/-- Whether bit `i` of a word is set. -/
def bitSet (w : UInt64) (i : Nat) : Bool := (w >>> i.toUInt64) &&& 1 != 0

/-- Membership: the number's word is there and its bit is set. -/
def contains (s : DenseSet) (v : Record) : Bool :=
  s.words.getD (wordIndex v) 0 &&& bitMask v != 0

/-- At least `n` words, the new ones zero. -/
def reserve (ws : Array UInt64) (n : Nat) : Array UInt64 :=
  if ws.size < n then ws ++ Array.replicate (n - ws.size) 0 else ws

/-- Adds a number, growing the words up to its own. -/
def insert (s : DenseSet) (v : Record) : DenseSet :=
  ⟨(reserve s.words (wordIndex v + 1)).modify (wordIndex v) (· ||| bitMask v)⟩

/-- Removes a number; the words stay. -/
def erase (s : DenseSet) (v : Record) : DenseSet :=
  ⟨s.words.modify (wordIndex v) (· &&& ~~~ bitMask v)⟩

/-- No bit is set. -/
def isEmpty (s : DenseSet) : Bool := s.words.all (· == 0)

/-- The numbers a word stands for when it is word `i`, ascending. -/
def members (w : UInt64) (i : Nat) : List Record :=
  if w == 0 then [] else
    (List.range 64).filterMap fun b => if bitSet w b then some (i * 64 + b).toUInt32 else none

/-- The numbers the first `n` words stand for, ascending, in front of `found`. -/
def membersBelow (ws : Array UInt64) : Nat → List Record → List Record
  | 0, found => found
  | n + 1, found => membersBelow ws n (members (ws.getD n 0) n ++ found)

/-- The members, ascending. -/
def toList (s : DenseSet) : List Record := membersBelow s.words s.words.size []

/-- The number of set bits of a word. -/
def popCount (w : UInt64) : Nat :=
  if w == 0 then 0 else (List.range 64).countP (bitSet w)

/-- The number of members. -/
def size (s : DenseSet) : Nat :=
  s.words.foldl (fun n w => n + popCount w) 0

/-- The members of both. Words beyond the shorter set are dropped. -/
def inter (s t : DenseSet) : DenseSet :=
  ⟨Array.zipWith (· &&& ·) s.words t.words⟩

/-- The members of either. The words are those of the longer set. -/
def union (s t : DenseSet) : DenseSet :=
  ⟨(reserve s.words t.words.size).mapIdx fun i w => w ||| t.words.getD i 0⟩

/-- The members of the first that are not in the second. The words stay. -/
def diff (s t : DenseSet) : DenseSet :=
  ⟨s.words.mapIdx fun i w => w &&& ~~~ t.words.getD i 0⟩

/-- Equality of contents: the common words agree and what is left of the longer
set is zero. -/
def beq (s t : DenseSet) : Bool :=
  let (short, long) :=
    if s.words.size ≤ t.words.size then (s.words, t.words) else (t.words, s.words)
  (short.zip long).all (fun e => e.1 == e.2) && (long.drop short.size).all (· == 0)

instance : BEq DenseSet := ⟨beq⟩

/-- The bytes a set takes: eight a word. -/
def byteSize (s : DenseSet) : Nat := 8 * s.words.size

/-- Adds a number and says whether it was missing. -/
def insertNew (s : DenseSet) (v : Record) : Bool × DenseSet :=
  (!s.contains v, s.insert v)

/-- Removes a number and says whether it was there. -/
def eraseFound (s : DenseSet) (v : Record) : Bool × DenseSet :=
  (s.contains v, s.erase v)

end DenseSet

end WildcardIndex
