import Mathlib.Data.List.Basic
import Mathlib.Data.Nat.Bitwise
import WildcardIndex.RecordSet.Dense
/-!
# Record sets — the dense representation as a row of bits

A dense set is read as one row: bit `n` of the row is bit `n % 64` of word
`n / 64`, and absent words are zero. Every operation is one equation on the row
(`bitAt_insert`, `bitAt_union`, …), whatever the numbers of words are. The
listing of a set is the row's set bits, ascending (`toList_eq`).
-/

namespace WildcardIndex

namespace DenseSet

/-! ## Words as bits -/

/-- The mask of a number has the one bit that stands for it. -/
theorem bitMask_toNat (v : Record) : (bitMask v).toNat = 2 ^ (v.toNat % 64) := by
  have hk : v.toNat % 64 < 64 := Nat.mod_lt _ (by decide)
  have hp : 2 ^ (v.toNat % 64) < 2 ^ 64 := Nat.pow_lt_pow_right (by decide) hk
  have hs : (v.toNat % 64).toUInt64.toNat % 64 = v.toNat % 64 := by
    rw [Nat.toUInt64_eq, UInt64.toNat_ofNat']
    omega
  rw [bitMask, UInt64.toNat_shiftLeft, hs, UInt64.toNat_one, Nat.shiftLeft_eq, Nat.one_mul,
    Nat.mod_eq_of_lt hp]

/-- The complement of a word has the other bits. -/
theorem testBit_not (w : UInt64) {i : Nat} (h : i < 64) :
    (~~~w).toNat.testBit i = !w.toNat.testBit i := by
  have hw := w.toNat_lt
  rw [UInt64.toNat_not, show UInt64.size - 1 - w.toNat = 2 ^ 64 - (w.toNat + 1) by
    simp only [UInt64.size]; omega, Nat.testBit_two_pow_sub_succ hw]
  simp [h]

/-- A word is determined by its 64 bits. -/
theorem eq_of_testBit {v w : UInt64}
    (h : ∀ i, i < 64 → v.toNat.testBit i = w.toNat.testBit i) : v = w := by
  apply UInt64.toNat_inj.1
  apply Nat.eq_of_testBit_eq
  intro i
  by_cases hi : i < 64
  · exact h i hi
  · have hpow : 2 ^ 64 ≤ 2 ^ i := Nat.pow_le_pow_right (by decide) (by omega)
    rw [Nat.testBit_lt_two_pow (Nat.lt_of_lt_of_le v.toNat_lt hpow),
      Nat.testBit_lt_two_pow (Nat.lt_of_lt_of_le w.toNat_lt hpow)]

/-- Looking at one bit of a word by shifting. -/
theorem bitSet_eq_testBit (w : UInt64) {i : Nat} (h : i < 64) :
    bitSet w i = w.toNat.testBit i := by
  have hs : i.toUInt64.toNat % 64 = i := by
    rw [Nat.toUInt64_eq, UInt64.toNat_ofNat']
    omega
  have hw : (w >>> i.toUInt64 &&& 1).toNat = w.toNat >>> i &&& 1 := by
    rw [UInt64.toNat_and, UInt64.toNat_shiftRight, hs, UInt64.toNat_one]
  have hz : (w >>> i.toUInt64 &&& 1 = 0) ↔ (w.toNat >>> i &&& 1 = 0) := by
    rw [← hw, ← UInt64.toNat_inj, UInt64.toNat_zero]
  rw [bitSet, Nat.testBit, Nat.and_comm 1, Bool.eq_iff_iff, bne_iff_ne, bne_iff_ne, ne_eq, ne_eq,
    hz]

/-! ## The row of a set -/

/-- Bit `n` of the words laid end to end. -/
def bitAt (s : DenseSet) (n : Nat) : Bool := (s.words.getD (n / 64) 0).toNat.testBit (n % 64)

/-- A number is a member exactly if its bit of the row is set. -/
theorem contains_eq_bitAt (s : DenseSet) (v : Record) : s.contains v = s.bitAt v.toNat := by
  have hz : (s.words.getD (wordIndex v) 0 &&& bitMask v = 0) ↔
      (s.words.getD (wordIndex v) 0).toNat &&& 2 ^ (v.toNat % 64) = 0 := by
    rw [← bitMask_toNat, ← UInt64.toNat_and, ← UInt64.toNat_inj, UInt64.toNat_zero]
  rw [contains, bitAt, Bool.eq_iff_iff, bne_iff_ne, ne_eq, hz, Nat.and_two_pow, wordIndex,
    Nat.mul_eq_zero, not_or, Bool.toNat_eq_zero, Bool.not_eq_false]
  exact and_iff_left (Nat.two_pow_pos _).ne'

/-- Further words are zero, so no bit changes. -/
theorem getD_reserve (ws : Array UInt64) (n i : Nat) :
    (reserve ws n).getD i 0 = ws.getD i 0 := by
  unfold reserve
  split
  · simp only [Array.getD_eq_getD_getElem?, Array.getElem?_append]
    grind
  · rfl

theorem size_reserve (ws : Array UInt64) (n : Nat) : (reserve ws n).size = max ws.size n := by
  unfold reserve
  split
  · rw [Array.size_append, Array.size_replicate]
    omega
  · omega

/-- The empty set has an empty row. -/
theorem bitAt_empty (n : Nat) : empty.bitAt n = false := by
  simp [bitAt, empty]

/-- Inserting sets one bit. -/
theorem bitAt_insert (s : DenseSet) (v : Record) (n : Nat) :
    (s.insert v).bitAt n = (s.bitAt n || v.toNat == n) := by
  have hsize : wordIndex v < (reserve s.words (wordIndex v + 1)).size := by
    rw [size_reserve]
    omega
  have hword : (s.insert v).words.getD (n / 64) 0 =
      if wordIndex v = n / 64 then s.words.getD (n / 64) 0 ||| bitMask v
      else s.words.getD (n / 64) 0 := by
    rw [← getD_reserve s.words (wordIndex v + 1)]
    simp only [insert, Array.getD_eq_getD_getElem?, Array.getElem?_modify]
    split
    · rename_i h
      rw [← h, Array.getElem?_eq_getElem hsize]
      rfl
    · rfl
  rw [bitAt, hword]
  split
  · rename_i h
    rw [UInt64.toNat_or, Nat.testBit_or, bitMask_toNat, Nat.testBit_two_pow, bitAt]
    congr 1
    rw [Bool.eq_iff_iff, decide_eq_true_iff, beq_iff_eq]
    simp only [wordIndex] at h
    omega
  · rename_i h
    have : (v.toNat == n) = false := by
      rw [beq_eq_false_iff_ne]
      rintro rfl
      exact h rfl
    rw [this, Bool.or_false, bitAt]

/-- Erasing clears one bit. -/
theorem bitAt_erase (s : DenseSet) (v : Record) (n : Nat) :
    (s.erase v).bitAt n = (s.bitAt n && v.toNat != n) := by
  have hword : (s.erase v).words.getD (n / 64) 0 =
      if wordIndex v = n / 64 then s.words.getD (n / 64) 0 &&& ~~~bitMask v
      else s.words.getD (n / 64) 0 := by
    simp only [erase, Array.getD_eq_getD_getElem?, Array.getElem?_modify]
    split
    · cases s.words[n / 64]? with
      | none => simp
      | some w => rfl
    · rfl
  rw [bitAt, hword]
  split
  · rename_i h
    rw [UInt64.toNat_and, Nat.testBit_and, testBit_not _ (Nat.mod_lt _ (by decide)), bitMask_toNat,
      Nat.testBit_two_pow, bitAt]
    congr 1
    rw [Bool.eq_iff_iff, Bool.not_eq_true', decide_eq_false_iff_not, bne_iff_ne]
    simp only [wordIndex] at h
    omega
  · rename_i h
    have : (v.toNat != n) = true := by
      rw [bne_iff_ne]
      rintro rfl
      exact h rfl
    rw [this, Bool.and_true, bitAt]

/-- An intersection has the bits of both rows: the words it drops are zero in
one of them. -/
theorem bitAt_inter (s t : DenseSet) (n : Nat) :
    (s.inter t).bitAt n = (s.bitAt n && t.bitAt n) := by
  simp only [bitAt, inter, Array.getD_eq_getD_getElem?, Array.getElem?_zipWith]
  cases s.words[n / 64]? <;> cases t.words[n / 64]? <;> simp

/-- A union has the bits of either row. -/
theorem bitAt_union (s t : DenseSet) (n : Nat) :
    (s.union t).bitAt n = (s.bitAt n || t.bitAt n) := by
  have hword : (s.union t).words.getD (n / 64) 0 =
      s.words.getD (n / 64) 0 ||| t.words.getD (n / 64) 0 := by
    rw [← getD_reserve s.words t.words.size]
    simp only [union, Array.getD_eq_getD_getElem?, Array.getElem?_mapIdx]
    rcases h : (reserve s.words t.words.size)[n / 64]? with - | w
    · have : t.words.size ≤ n / 64 := by
        rw [Array.getElem?_eq_none_iff, size_reserve] at h
        omega
      simp [Array.getElem?_eq_none this]
    · rfl
  rw [bitAt, hword, UInt64.toNat_or, Nat.testBit_or]
  rfl

/-- A difference has the bits of the first row that the second lacks. -/
theorem bitAt_diff (s t : DenseSet) (n : Nat) :
    (s.diff t).bitAt n = (s.bitAt n && !t.bitAt n) := by
  have hword : (s.diff t).words.getD (n / 64) 0 =
      s.words.getD (n / 64) 0 &&& ~~~t.words.getD (n / 64) 0 := by
    simp only [diff, Array.getD_eq_getD_getElem?, Array.getElem?_mapIdx]
    cases s.words[n / 64]? with
    | none => simp
    | some w => rfl
  rw [bitAt, hword, UInt64.toNat_and, Nat.testBit_and, testBit_not _ (Nat.mod_lt _ (by decide))]
  rfl

/-- Two sets have the same row exactly if they have the same words, absent ones
being zero. -/
theorem words_eq_iff_bitAt {s t : DenseSet} :
    (∀ i, s.words.getD i 0 = t.words.getD i 0) ↔ ∀ n, s.bitAt n = t.bitAt n := by
  constructor
  · intro h n
    rw [bitAt, bitAt, h]
  · intro h i
    refine eq_of_testBit fun b hb => ?_
    have hbit := h (64 * i + b)
    rwa [bitAt, bitAt, show (64 * i + b) / 64 = i by omega,
      show (64 * i + b) % 64 = b by omega] at hbit

/-- A set of zero words has no bit, and only such a set. -/
theorem isEmpty_iff_bitAt (s : DenseSet) : s.isEmpty = true ↔ ∀ n, s.bitAt n = false := by
  have hwords : s.isEmpty = true ↔ ∀ i, s.words.getD i 0 = empty.words.getD i 0 := by
    rw [isEmpty, Array.all_eq_true]
    constructor
    · intro h i
      by_cases hi : i < s.words.size
      · rw [← Array.getElem_eq_getD 0 (h := hi), beq_iff_eq.1 (h i hi)]
        rfl
      · rw [Array.getD_eq_getD_getElem?, Array.getElem?_eq_none (Nat.le_of_not_lt hi)]
        rfl
    · intro h i hi
      rw [Array.getElem_eq_getD 0, beq_iff_eq]
      exact h i
  rw [hwords, words_eq_iff_bitAt]
  simp only [bitAt_empty]

/-- No bit lies beyond the words. -/
theorem lt_of_bitAt {s : DenseSet} {n : Nat} (h : s.bitAt n = true) : n < 64 * s.words.size := by
  by_contra hn
  rw [bitAt, Array.getD_eq_getD_getElem?, Array.getElem?_eq_none (by omega)] at h
  simp at h

/-! ## The listing -/

/-- The numbers a word stands for are its set bits, counted from the word's
first number. -/
theorem members_eq (w : UInt64) (i : Nat) :
    members w i = ((List.range 64).filter fun b => w.toNat.testBit b).map fun b =>
      (64 * i + b).toUInt32 := by
  unfold members
  split
  · rename_i h
    rw [beq_iff_eq.1 h]
    simp
  · rw [← List.filterMap_eq_map, List.filterMap_filter]
    refine List.filterMap_congr fun b hb => ?_
    rw [bitSet_eq_testBit w (List.mem_range.1 hb), Nat.mul_comm]
    simp

theorem membersBelow_eq (s : DenseSet) (n : Nat) (found : List Record) :
    membersBelow s.words n found =
      ((List.range (64 * n)).filter s.bitAt).map Nat.toUInt32 ++ found := by
  induction n generalizing found with
  | zero => rfl
  | succ n ih =>
    have hlast : ((List.range 64).map (64 * n + ·)).filter s.bitAt =
        ((List.range 64).filter fun b => (s.words.getD n 0).toNat.testBit b).map (64 * n + ·) := by
      rw [List.filter_map]
      congr 1
      refine List.filter_congr fun b hb => ?_
      have hb := List.mem_range.1 hb
      rw [Function.comp_apply, bitAt, show (64 * n + b) / 64 = n by omega,
        show (64 * n + b) % 64 = b by omega]
    rw [membersBelow, ih, Nat.mul_succ, List.range_add, List.filter_append, List.map_append, hlast,
      members_eq, List.map_map, List.append_assoc]
    rfl

/-- **The listing is the set bits of the row**, ascending. -/
theorem toList_eq (s : DenseSet) :
    s.toList = ((List.range (64 * s.words.size)).filter s.bitAt).map Nat.toUInt32 := by
  rw [toList, membersBelow_eq, List.append_nil]

/-! ## No more words than record numbers need -/

/-- The number of words that hold every record number. -/
def maxWords : Nat := 67108864

theorem wordIndex_lt (v : Record) : wordIndex v < maxWords := by
  have hv := v.toNat_lt
  rw [wordIndex, maxWords]
  omega

theorem size_insert (s : DenseSet) (v : Record) :
    (s.insert v).words.size = max s.words.size (wordIndex v + 1) := by
  rw [insert, Array.size_modify, size_reserve]

theorem size_union (s t : DenseSet) :
    (s.union t).words.size = max s.words.size t.words.size := by
  rw [union, Array.size_mapIdx, size_reserve]

variable {s : DenseSet}

/-- Within the bound every bit of the row stands for a record number of its own,
so the listing holds exactly the members. -/
theorem mem_toList_iff (h : s.words.size ≤ maxWords) {v : Record} :
    v ∈ s.toList ↔ s.contains v = true := by
  rw [toList_eq, contains_eq_bitAt, List.mem_map]
  constructor
  · rintro ⟨n, hn, rfl⟩
    rw [List.mem_filter, List.mem_range] at hn
    have hlt : n < 2 ^ 32 := by
      rw [maxWords] at h
      omega
    rw [Nat.toUInt32_eq, UInt32.toNat_ofNat_of_lt' hlt]
    exact hn.2
  · intro hv
    refine ⟨v.toNat, ?_, ?_⟩
    · rw [List.mem_filter, List.mem_range]
      exact ⟨lt_of_bitAt hv, hv⟩
    · rw [Nat.toUInt32_eq, UInt32.ofNat_toNat]

/-- And it ascends. -/
theorem pairwise_toList (h : s.words.size ≤ maxWords) : s.toList.Pairwise (· < ·) := by
  rw [toList_eq, List.pairwise_map]
  refine (List.pairwise_lt_range.filter s.bitAt).imp_of_mem fun {m n} hm hn hlt => ?_
  rw [List.mem_filter, List.mem_range] at hm hn
  have hrow : 64 * s.words.size ≤ UInt32.size := by
    rw [maxWords] at h
    rw [UInt32.size]
    omega
  rw [UInt32.lt_iff_toNat_lt, Nat.toUInt32_eq, Nat.toUInt32_eq,
    UInt32.toNat_ofNat_of_lt' (Nat.lt_of_lt_of_le hm.1 hrow),
    UInt32.toNat_ofNat_of_lt' (Nat.lt_of_lt_of_le hn.1 hrow)]
  exact hlt

end DenseSet

end WildcardIndex
