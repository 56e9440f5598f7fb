import WildcardIndex.RecordSet.Roaring
import WildcardIndex.Total
/-!
# Record sets — what an ordered one weighs

The figures that a report of sizes gives for ordered sets. They count a set the
way roaring containers are laid out: the numbers sharing their upper sixteen bits
form one container, which is an array of two-byte entries until it would outgrow
the fixed bitmap. They are an estimate that is read off a set and decides nothing
about it: no law of `RoaringSet` speaks of them.
-/

namespace WildcardIndex.RoaringSet

/-- The container a record number falls into: its upper sixteen bits. -/
def containerOf (r : Record) : UInt32 := r >>> 16

/-- The bytes one container of `k` numbers takes: an eight-byte header, then
two bytes a number while there are at most 4096, and a bitmap of 8192 beyond. -/
def containerBytes (k : Nat) : Nat :=
  8 + if k ≤ 4096 then 2 * k else 8192

/-- The bytes a set takes: eight, and its containers. Numbers ascend, so a
container is a run of equal upper halves. -/
def byteSize (s : RoaringSet) : Nat :=
  8 + total (fun run => containerBytes run.length) ((s.toList.map containerOf).splitBy (· == ·))

end WildcardIndex.RoaringSet
