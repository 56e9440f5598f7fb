import Std.Data.TreeSet.Basic
import Std.Data.TreeSet.Lemmas
import WildcardIndex.RecordSet.Record
/-!
# Record sets — the ordered representation

Sparse sets of record numbers are compressed by a library of roaring bitmaps.
Here an ordered tree stands for its sets: what they contain is assumed to follow
the laws of finite sets of numbers, and to be listed in ascending order. **That
is all the index relies on, and `RoaringSet.Laws` is the list of it**; every fact
about a set of this representation is drawn from the laws, and none from the
tree. What such a set weighs is a separate matter.
-/

namespace WildcardIndex

/-- An ordered set of record numbers. -/
abbrev RoaringSet := Std.TreeSet Record

namespace RoaringSet

/-- What is relied on of the ordered sets: the members each operation leaves, and
the order of the listing. -/
structure Laws : Prop where
  /-- The test of membership decides it. -/
  contains_iff : ∀ (s : RoaringSet) v, s.contains v = true ↔ v ∈ s
  /-- The empty set has no member. -/
  not_mem_empty : ∀ v, v ∉ (∅ : RoaringSet)
  /-- Adding a number adds it and nothing else. -/
  mem_insert : ∀ (s : RoaringSet) v w, v ∈ Std.TreeSet.insert s w ↔ v = w ∨ v ∈ s
  /-- Removing a number removes it and nothing else. -/
  mem_erase : ∀ (s : RoaringSet) v w, v ∈ Std.TreeSet.erase s w ↔ v ≠ w ∧ v ∈ s
  /-- An intersection has the members of both sets. -/
  mem_inter : ∀ (s t : RoaringSet) v, v ∈ Std.TreeSet.inter s t ↔ v ∈ s ∧ v ∈ t
  /-- A union has the members of either set. -/
  mem_union : ∀ (s t : RoaringSet) v, v ∈ Std.TreeSet.union s t ↔ v ∈ s ∨ v ∈ t
  /-- A difference has the members of the first set outside the second. -/
  mem_diff : ∀ (s t : RoaringSet) v, v ∈ Std.TreeSet.diff s t ↔ v ∈ s ∧ v ∉ t
  /-- A set that says it is empty has no member. -/
  not_mem_of_isEmpty : ∀ s : RoaringSet, Std.TreeSet.isEmpty s = true → ∀ v, v ∉ s
  /-- The listing has the members. -/
  mem_toList : ∀ (s : RoaringSet) v, v ∈ Std.TreeSet.toList s ↔ v ∈ s
  /-- The listing ascends. -/
  pairwise_toList : ∀ s : RoaringSet, (Std.TreeSet.toList s).Pairwise (· < ·)

/-- The ordered tree follows the laws. -/
theorem laws : Laws where
  contains_iff _ _ := Std.TreeSet.mem_iff_contains.symm
  not_mem_empty _ := Std.TreeSet.not_mem_emptyc
  mem_insert _ _ _ := by rw [Std.TreeSet.mem_insert, Std.compare_eq_iff_eq, eq_comm]
  mem_erase _ _ _ := by rw [Std.TreeSet.mem_erase, ne_eq, Std.compare_eq_iff_eq, ne_comm]
  mem_inter _ _ _ := Std.TreeSet.mem_inter_iff
  mem_union _ _ _ := Std.TreeSet.mem_union_iff
  mem_diff _ _ _ := Std.TreeSet.mem_diff_iff
  not_mem_of_isEmpty _ h _ := Std.TreeSet.not_mem_of_isEmpty h
  mem_toList _ _ := Std.TreeSet.mem_toList
  pairwise_toList _ := Std.TreeSet.ordered_toList.imp Std.compare_eq_lt.1

end RoaringSet

end WildcardIndex
