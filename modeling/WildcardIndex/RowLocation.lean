/-!
# Row locations — identifiers that sort by place

A row of a host's storage is a block and an offset in it. Ordering is by block,
then offset, so that sorted answers are read in the order they lie.
-/

namespace WildcardIndex

/-- Where a row is stored. -/
structure RowLocation where
  /-- The block. -/
  block : UInt32
  /-- The offset within the block. -/
  offset : UInt16
  deriving DecidableEq, Inhabited, Repr

namespace RowLocation

/-- By block, then by offset. -/
instance : Ord RowLocation where
  compare a b := (compare a.block b.block).then (compare a.offset b.offset)

/-- A row location on one line. -/
def describe (l : RowLocation) : String :=
  "(" ++ toString l.block.toNat ++ "," ++ toString l.offset.toNat ++ ")"

end RowLocation

end WildcardIndex
