import WildcardIndex.RecordSet.Dense
/-!
# Record sets — walking a dense set

A walk over a dense set keeps the number of the word it is at and what is left
of that word. Each turn gives the lowest bit that is left and clears it; where
nothing is left it moves to the next word that has a bit. The number of a bit is
put together from the word's number, cut to 32 bits, and the bit's place in the
word.
-/

namespace WildcardIndex

namespace DenseSet

/-- The place of the lowest set bit of a word, 64 if it has none. -/
def lowestBit (w : UInt64) : Nat := ((List.range 64).find? (bitSet w)).getD 64

/-- A word without its lowest set bit. -/
def clearLowest (w : UInt64) : UInt64 := w &&& (w - 1)

/-- A walk on its way. -/
structure Cursor where
  /-- The words walked over. -/
  words : Array UInt64
  /-- The number of the word the walk is at. -/
  index : Nat
  /-- The bits of that word that are still to come. -/
  current : UInt64
  deriving Repr

/-- The walk before its first turn. -/
def cursor (s : DenseSet) : Cursor := ⟨s.words, 0, s.words.getD 0 0⟩

namespace Cursor

/-- The number of the lowest bit that is left of the word. -/
def number (c : Cursor) : Record := c.index.toUInt32 <<< 6 ||| (lowestBit c.current).toUInt32

/-- A turn: the next member, `none` behind the last word. -/
def next (c : Cursor) : Option Record × Cursor :=
  if c.current != 0 then
    (some c.number, { c with current := clearLowest c.current })
  else if h : c.index + 1 < c.words.size then
    next { c with index := c.index + 1, current := c.words[c.index + 1] }
  else
    (none, { c with index := c.index + 1 })
termination_by c.words.size - c.index

/-- The walk after `n` turns. -/
def after (c : Cursor) : Nat → Cursor
  | 0 => c
  | n + 1 => c.next.2.after n

end Cursor

end DenseSet

end WildcardIndex
