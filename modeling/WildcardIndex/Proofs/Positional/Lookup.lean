import Mathlib.Data.List.Basic
import WildcardIndex.Proofs.Positional.Places
import WildcardIndex.Query.Part
/-!
# Positions — what a lookup finds

Offsets below the limit are told apart by their positions. So over positions
that represent values, none of them too long, the set looked up at an offset or
at a distance from the end holds the records that have the byte there, and the
sets of all bytes at an offset make up the records that reach beyond it.
-/

namespace WildcardIndex

variable {b : Backend} {m : Contents Bytes} {r : Record} {s : RecordSet} {c : UInt8} {i j n : Nat}

/-! ## Positions of offsets -/

/-- An offset is taken for the position it comes to lie at when it is brought to
32 bits. -/
theorem positionOf_eq_iff (hj : j < Tables.positionLimit) :
    positionOf i = positionOf j ↔ i % UInt32.size = j := by
  unfold Tables.positionLimit at hj
  rw [positionOf, positionOf, ← Int32.toInt_inj, Int32.toInt_ofNat_of_lt hj, Int32.toInt_ofNat',
    Int32.size, UInt32.size, Int.bmod_def]
  omega

/-- Offsets below the limit are told apart. -/
theorem positionOf_inj (hi : i < Tables.positionLimit) (hj : j < Tables.positionLimit) :
    positionOf i = positionOf j ↔ i = j := by
  have hsize : Tables.positionLimit ≤ UInt32.size := by decide
  rw [positionOf_eq_iff hj, Nat.mod_eq_of_lt (by omega)]

theorem toInt_positionOf (h : i < Tables.positionLimit) : (positionOf i).toInt = i :=
  Int32.toInt_ofNat_of_lt h

/-- A distance that is a position is never the one whose negation overflows. -/
theorem toInt_neg_positionOf (h : i < Tables.positionLimit) : (-positionOf i).toInt = -(i : Int) := by
  unfold Tables.positionLimit at h
  rw [positionOf, Int32.neg_ofNat, Int32.toInt_ofInt_of_le (by omega) (by omega)]

theorem ByteTable.toList_eq {α : Type} (t : ByteTable α) : t.toList = bytes.map t.get := by
  refine List.ext_getElem (by simp [toList, bytes]) fun i hi _ => ?_
  have hlt : i < 256 := by simpa [toList] using hi
  simp [toList, bytes, get, Nat.mod_eq_of_lt hlt]

theorem ByteTable.update_const {α : Type} (t : ByteTable α) (c : UInt8) (f : α → α) :
    t.update c (fun _ => f (t.get c)) = t.update c f := by
  simp only [update, get, mk.injEq, Vector.mk_eq]
  ext i h₁ h₂
  · simp
  · by_cases hi : c.toNat = i
    · subst hi
      simp [Array.getElem_modify]
    · simp [Array.getElem_modify, hi]

theorem ByteTable.mem_bytes (c : UInt8) : c ∈ bytes := by
  rw [bytes, List.mem_map]
  exact ⟨c.toNat, List.mem_range.2 c.toNat_lt, UInt8.ofNat_toNat⟩

namespace RecordSet

/-- Sets collected one after the other, those that are missing left out. -/
theorem foldl_union {α : Type} {f : α → Option RecordSet} (as : List α)
    (hf : ∀ a ∈ as, ∀ u, f a = some u → u.Valid b) (hs : s.Valid b) :
    let found := as.foldl (fun found a => match f a with
      | some u => found.union u
      | none => found) s
    found.Valid b ∧ ∀ r, r ∈ found ↔ r ∈ s ∨ ∃ a ∈ as, ∃ u, f a = some u ∧ r ∈ u := by
  induction as generalizing s with
  | nil => exact ⟨hs, fun r => by simp⟩
  | cons a as ih =>
    have hrest : ∀ a' ∈ as, ∀ u, f a' = some u → u.Valid b :=
      fun a' ha' => hf a' (List.mem_cons_of_mem a ha')
    rw [List.foldl_cons]
    cases ha : f a with
    | none =>
      obtain ⟨hvalid, hmem⟩ := ih hrest hs
      refine ⟨hvalid, fun r => (hmem r).trans ?_⟩
      simp [ha]
    | some u =>
      have hu := hf a List.mem_cons_self u ha
      obtain ⟨hvalid, hmem⟩ := ih hrest (hs.union hu)
      refine ⟨hvalid, fun r => (hmem r).trans ?_⟩
      rw [mem_union (hs.backend_eq_backend hu)]
      simp [ha, or_assoc]

end RecordSet

namespace PositionalIndex

variable {x : PositionalIndex} {q : Position}

/-! ## One position

A list in itself: the sets under exactly one position, read off the bytes of the
values.
-/

/-- The set under a position from the start holds the values with the byte
there. -/
theorem Represents.mem_forward_entries (h : x.Represents b m)
    (hm : ∀ r v, m r = some v → v.length < Tables.positionLimit) :
    (∃ s, (q, s) ∈ (x.forward.get c).toList ∧ r ∈ s) ↔
      ∃ v, m r = some v ∧ 0 ≤ q.toInt ∧ v[q.toInt.toNat]? = some c := by
  have hentries := fun s => PositionList.mem_entries_iff (p := q) (s := s) (h.forward c)
  simp only [PositionList.toList, hentries]
  refine (h.holds_iff (.fromStart c q) r).trans ?_
  refine exists_congr fun v => and_congr_right fun hv => ?_
  rw [fromStart_mem_places]
  have hlen := hm r v hv
  constructor
  · rintro ⟨i, hi, rfl⟩
    have := (List.getElem?_eq_some_iff.1 hi).1
    rw [toInt_positionOf (by omega)]
    exact ⟨by omega, hi⟩
  · rintro ⟨hq, hbyte⟩
    have := (List.getElem?_eq_some_iff.1 hbyte).1
    refine ⟨q.toInt.toNat, hbyte, ?_⟩
    rw [← Int32.toInt_inj, toInt_positionOf (by omega)]
    omega

/-- The set under a position from the end holds the values with the byte
there. -/
theorem Represents.mem_backward_entries (h : x.Represents b m)
    (hm : ∀ r v, m r = some v → v.length < Tables.positionLimit) :
    (∃ s, (q, s) ∈ (x.backward.get c).toList ∧ r ∈ s) ↔
      ∃ v, m r = some v ∧
        ∃ k : Nat, q.toInt = -k ∧ 1 ≤ k ∧ k ≤ v.length ∧ v[v.length - k]? = some c := by
  have hentries := fun s => PositionList.mem_entries_iff (p := q) (s := s) (h.backward c)
  simp only [PositionList.toList, hentries]
  refine (h.holds_iff (.fromEnd c q) r).trans ?_
  refine exists_congr fun v => and_congr_right fun hv => ?_
  rw [fromEnd_mem_places]
  have hlen := hm r v hv
  constructor
  · rintro ⟨i, hi, rfl⟩
    have := (List.getElem?_eq_some_iff.1 hi).1
    refine ⟨v.length - i, toInt_neg_positionOf (by omega), by omega, by omega, ?_⟩
    rw [show v.length - (v.length - i) = i by omega]
    exact hi
  · rintro ⟨k, hk, hpos, hle, hbyte⟩
    refine ⟨v.length - k, hbyte, ?_⟩
    rw [show v.length - (v.length - k) = k by omega, ← Int32.toInt_inj,
      toInt_neg_positionOf (by omega), hk]

/-! ## One byte -/

/-- A set looked up at an offset holds the values with the byte where the offset
comes to lie. -/
theorem Represents.mem_forward (h : x.Represents b m)
    (hm : ∀ r v, m r = some v → v.length < Tables.positionLimit) :
    (∃ u, x.forward? c i = some u ∧ r ∈ u) ↔
      ∃ v, m r = some v ∧ v[i % UInt32.size]? = some c := by
  refine (h.holds_iff (.fromStart c (positionOf i)) r).trans ?_
  refine exists_congr fun v => and_congr_right fun hv => ?_
  have hlen := hm r v hv
  rw [fromStart_mem_places]
  constructor
  · rintro ⟨j, hj, hij⟩
    have hjlen := (List.getElem?_eq_some_iff.1 hj).1
    rw [(positionOf_eq_iff (by omega)).1 hij]
    exact hj
  · intro hbyte
    have hlt := (List.getElem?_eq_some_iff.1 hbyte).1
    exact ⟨_, hbyte, (positionOf_eq_iff (by omega)).2 rfl⟩

/-- A set looked up at a distance from the end holds the values with the byte
there. -/
theorem Represents.mem_backward (h : x.Represents b m)
    (hm : ∀ r v, m r = some v → v.length < Tables.positionLimit) (hn : 0 < n)
    (hlt : n < Tables.positionLimit) :
    (∃ u, x.backward? c (-positionOf n) = some u ∧ r ∈ u) ↔
      ∃ v, m r = some v ∧ n ≤ v.length ∧ v[v.length - n]? = some c := by
  refine (h.holds_iff (.fromEnd c (-positionOf n)) r).trans ?_
  refine exists_congr fun v => and_congr_right fun hv => ?_
  rw [fromEnd_mem_places]
  constructor
  · rintro ⟨j, hj, hnj⟩
    have hlen := hm r v hv
    have hjlen := (List.getElem?_eq_some_iff.1 hj).1
    have := (positionOf_inj hlt (by omega)).1 (Int32.neg_inj.1 hnj)
    refine ⟨by omega, ?_⟩
    rw [show v.length - n = j by omega]
    exact hj
  · rintro ⟨hle, hbyte⟩
    exact ⟨v.length - n, hbyte, by rw [show v.length - (v.length - n) = n by omega]⟩

theorem anyAt_spec (h : x.Valid b) (i : Nat) :
    (x.anyAt i).Valid b ∧ ∀ r, r ∈ x.anyAt i ↔ ∃ c u, x.forward? c i = some u ∧ r ∈ u := by
  have hempty : (RecordSet.empty x.backend).Valid b := by
    rw [h.backend]
    exact RecordSet.valid_empty b
  have hcells : ∀ l ∈ x.forward.toList, ∀ u, l.get? (positionOf i) = some u → u.Valid b := by
    intro l hl u hu
    rw [ByteTable.toList_eq, List.mem_map] at hl
    obtain ⟨c, -, rfl⟩ := hl
    exact h.sets (.fromStart c (positionOf i)) u hu
  obtain ⟨hvalid, hmem⟩ := RecordSet.foldl_union _ hcells hempty
  refine ⟨hvalid, fun r => (hmem r).trans ?_⟩
  rw [ByteTable.toList_eq, or_iff_right RecordSet.not_mem_empty]
  simp only [List.mem_map, ByteTable.mem_bytes, true_and, exists_exists_eq_and]
  rfl

/-- Some byte stands where an offset comes to lie in the values that reach
beyond. -/
theorem Represents.mem_anyAt (h : x.Represents b m)
    (hm : ∀ r v, m r = some v → v.length < Tables.positionLimit) :
    r ∈ x.anyAt i ↔ ∃ v, m r = some v ∧ i % UInt32.size < v.length := by
  rw [(anyAt_spec h.toValid i).2 r]
  simp only [h.mem_forward hm]
  constructor
  · rintro ⟨c, v, hv, hc⟩
    exact ⟨v, hv, (List.getElem?_eq_some_iff.1 hc).1⟩
  · rintro ⟨v, hv, hlt⟩
    exact ⟨v[i % UInt32.size], v, hv, List.getElem?_eq_getElem hlt⟩

end PositionalIndex

end WildcardIndex
