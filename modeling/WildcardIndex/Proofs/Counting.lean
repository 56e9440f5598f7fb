import Mathlib.Data.Set.Card
import WildcardIndex.Proofs.Query.Part
/-!
# Counting — how many different ones there are

Sizes are kept as numbers, or read off the lengths of lists. Either way they
count **different** things: a list that names each of its members once is as long
as they are many. So a record set is counted by its listing, and the positions
of an index by the entries of its lists, whatever is stored there.
-/

namespace WildcardIndex

/-- A list that names each thing once is as long as there are things. -/
theorem ncard_setOf_mem {α : Type} {as : List α} (h : as.Nodup) :
    {a | a ∈ as}.ncard = as.length := by
  classical
  rw [← List.coe_toFinset, Set.ncard_coe_finset, List.toFinset_card_of_nodup h]

variable {b c : Backend}

theorem RecordSet.ncard_eq {s : RecordSet} (h : s.Valid b) :
    {r | r ∈ s}.ncard = s.toList.length := by
  rw [← ncard_setOf_mem (nodup_toList h)]
  simp only [mem_toList h]

/-! ## Positions -/

namespace PositionList

variable {l : PositionList} {q : Position}

/-- The positions of a list, ascending. -/
def positions (l : PositionList) : List Position := l.entries.toList.map Prod.fst

theorem length_positions : l.positions.length = l.size := by
  rw [positions, List.length_map, Array.length_toList, size]

theorem mem_positions (h : l.Ascending) : q ∈ l.positions ↔ (l.get? q).isSome := by
  rw [positions, List.mem_map, Option.isSome_iff_exists]
  constructor
  · rintro ⟨⟨q, s⟩, hmem, rfl⟩
    exact ⟨s, (mem_entries_iff h).1 hmem⟩
  · rintro ⟨s, hs⟩
    exact ⟨(q, s), (mem_entries_iff h).2 hs, rfl⟩

theorem nodup_positions (h : l.Ascending) : l.positions.Nodup := by
  rw [List.Nodup, positions, List.pairwise_map]
  exact h.imp fun {e f} hlt => Int32.ne_of_lt hlt

end PositionList

namespace ByteTable

theorem nodup_bytes : bytes.Nodup := by
  refine (List.nodup_map_iff_inj_on List.nodup_range).2 fun m hm n hn heq => ?_
  rw [List.mem_range] at hm hn
  rw [← UInt8.toNat_ofNat_of_lt' hm, ← UInt8.toNat_ofNat_of_lt' hn]
  exact congrArg UInt8.toNat heq

/-- The positions of a table, byte by byte. -/
def positions (t : ByteTable PositionList) : List (UInt8 × Position) :=
  bytes.flatMap fun c => (t.get c).positions.map (c, ·)

variable {t : ByteTable PositionList}

theorem length_positions : t.positions.length = total PositionList.size t.toList := by
  rw [positions, toList_eq]
  induction bytes with
  | nil => rfl
  | cons c cs ih =>
    rw [List.flatMap_cons, List.length_append, List.length_map, PositionList.length_positions, ih,
      List.map_cons, total_cons]

theorem mem_positions (h : ∀ c, (t.get c).Ascending) {e : UInt8 × Position} :
    e ∈ t.positions ↔ ((t.get e.1).get? e.2).isSome := by
  obtain ⟨c, q⟩ := e
  simp only [positions, List.mem_flatMap, mem_bytes, true_and, List.mem_map, Prod.mk.injEq]
  constructor
  · rintro ⟨d, q', hq, rfl, rfl⟩
    exact (PositionList.mem_positions (h d)).1 hq
  · exact fun hq => ⟨c, q, (PositionList.mem_positions (h c)).2 hq, rfl, rfl⟩

/-- Lists of different bytes share no position, even where the numbers agree. -/
theorem nodup_positions (h : ∀ c, (t.get c).Ascending) : t.positions.Nodup := by
  refine List.nodup_flatMap.2 ⟨fun c _ => ?_, nodup_bytes.imp fun {c d} hne => ?_⟩
  · exact (PositionList.nodup_positions (h c)).map fun q q' heq => (Prod.mk.inj heq).2
  · intro e hc hd
    obtain ⟨q, -, rfl⟩ := List.mem_map.1 hc
    obtain ⟨q', -, heq⟩ := List.mem_map.1 hd
    exact hne (Prod.mk.inj heq).1.symm

/-- **The entries of a table are its different positions.** -/
theorem total_size_eq (h : ∀ c, (t.get c).Ascending) :
    total PositionList.size t.toList =
      {e : UInt8 × Position | ((t.get e.1).get? e.2).isSome}.ncard := by
  rw [← length_positions, ← ncard_setOf_mem (nodup_positions h)]
  simp only [mem_positions h]

end ByteTable

namespace PositionalIndex

variable {x y : PositionalIndex}

/-- **The entries of an index are its different places**, counted from either
end. -/
theorem entryCount_eq_ncard (h : x.Valid b) :
    x.entryCount = {e : UInt8 × Position | (x.at? (.fromStart e.1 e.2)).isSome}.ncard +
      {e : UInt8 × Position | (x.at? (.fromEnd e.1 e.2)).isSome}.ncard := by
  rw [entryCount, ByteTable.total_size_eq h.forward, ByteTable.total_size_eq h.backward]
  rfl

/-- Indexes that have the same places have equally many positions. -/
theorem entryCount_eq (hx : x.Valid b) (hy : y.Valid c)
    (h : ∀ k, (x.at? k).isSome = (y.at? k).isSome) : x.entryCount = y.entryCount := by
  simp only [entryCount_eq_ncard hx, entryCount_eq_ncard hy, h]

end PositionalIndex

end WildcardIndex
