import Mathlib.Data.List.Sort
import WildcardIndex.Proofs.RecordSet.Bits
import WildcardIndex.RecordSet.Cursor
/-!
# Record sets — a walk gives the listing

What a walk has **left** is what remains of its word and all of the words behind
it. A turn takes the head of that list and leaves the tail: the lowest bit of a
word comes first, and clearing it clears nothing else. So the turns of a walk
give the listing of the set, one member each, and nothing ever after. A number
is put together from the word it lies in, and that word's number fits 32 bits as
long as there are no more words than record numbers need.
-/

namespace WildcardIndex

namespace DenseSet

variable {w : UInt64} {k : Nat}

/-! ## The lowest bit of a word -/

/-- Bit `k` of a word is set and none before it is. -/
structure IsLowest (w : UInt64) (k : Nat) : Prop where
  /-- A word has 64 bits. -/
  lt : k < 64
  /-- The bit is set. -/
  set : w.toNat.testBit k = true
  /-- The bits before it are not. -/
  below : ∀ j < k, w.toNat.testBit j = false

/-- The search finds the lowest bit of every word that has one. -/
theorem isLowest_lowestBit (h : w ≠ 0) : IsLowest w (lowestBit w) := by
  have hsome : ((List.range 64).find? (bitSet w)).isSome := by
    rw [List.find?_isSome]
    by_contra hnone
    refine h (eq_of_testBit fun j hj => ?_)
    rw [UInt64.toNat_zero, Nat.zero_testBit, ← bitSet_eq_testBit w hj, ← Bool.not_eq_true]
    exact fun hset => hnone ⟨j, List.mem_range.2 hj, hset⟩
  obtain ⟨k, hk⟩ := Option.isSome_iff_exists.1 hsome
  rw [lowestBit, hk, Option.getD_some]
  obtain ⟨hset, hmem, hbelow⟩ := List.find?_range_eq_some.1 hk
  have hlt := List.mem_range.1 hmem
  refine ⟨hlt, bitSet_eq_testBit w hlt ▸ hset, fun j hj => ?_⟩
  rw [← bitSet_eq_testBit w (Nat.lt_trans hj hlt)]
  simpa using hbelow j hj

/-- A number whose lowest bit is bit `k` is an odd multiple of `2 ^ k`. -/
theorem exists_eq_of_lowest {n : Nat} (hset : n.testBit k = true)
    (hbelow : ∀ j < k, n.testBit j = false) : ∃ m, n = 2 ^ k * (2 * m + 1) := by
  have hmod : n % 2 ^ k = 0 := by
    refine Nat.eq_of_testBit_eq fun j => ?_
    rw [Nat.testBit_mod_two_pow, Nat.zero_testBit]
    by_cases hj : j < k
    · rw [hbelow j hj, Bool.and_false]
    · rw [decide_eq_false hj, Bool.false_and]
  have hodd : n / 2 ^ k % 2 = 1 := by
    rw [Nat.testBit_eq_decide_div_mod_eq] at hset
    exact of_decide_eq_true hset
  refine ⟨n / 2 ^ k / 2, ?_⟩
  rw [show 2 * (n / 2 ^ k / 2) + 1 = n / 2 ^ k by omega,
    Nat.mul_div_cancel' (Nat.dvd_of_mod_eq_zero hmod)]

/-- Taking one from such a number borrows up to bit `k` and no further, so the
bits above stay and bit `k` goes. -/
theorem testBit_and_sub_one {n : Nat} (hset : n.testBit k = true)
    (hbelow : ∀ j < k, n.testBit j = false) (i : Nat) :
    (n &&& (n - 1)).testBit i = (n.testBit i && i != k) := by
  obtain ⟨m, hn⟩ := exists_eq_of_lowest hset hbelow
  have hpos : 0 < 2 ^ k := Nat.two_pow_pos k
  have hpred : n - 1 = 2 ^ k * (2 * m) + (2 ^ k - 1) := by
    rw [hn, Nat.mul_add, Nat.mul_one]
    omega
  rw [Nat.testBit_and]
  rcases Nat.lt_trichotomy i k with hi | rfl | hi
  · rw [hbelow i hi, Bool.false_and, Bool.false_and]
  · rw [hpred, Nat.testBit_two_pow_mul_add _ (by omega), if_neg (Nat.lt_irrefl i), Nat.sub_self]
    simp
  · obtain ⟨j, hj⟩ := Nat.exists_eq_add_of_lt hi
    have habove : (n - 1).testBit i = n.testBit i := by
      rw [hpred, Nat.testBit_two_pow_mul_add _ (by omega), if_neg (by omega), hn,
        Nat.testBit_two_pow_mul, show i - k = j + 1 by omega, Nat.testBit_succ, Nat.testBit_succ,
        decide_eq_true (by omega), Bool.true_and]
      congr 1
      omega
    rw [habove, Bool.and_self, bne_iff_ne.2 (by omega), Bool.and_true]

theorem testBit_clearLowest (h : IsLowest w k) (i : Nat) :
    (clearLowest w).toNat.testBit i = (w.toNat.testBit i && i != k) := by
  have hone : (1 : UInt64) ≤ w := by
    rw [UInt64.le_iff_toNat_le, UInt64.toNat_one, Nat.one_le_iff_ne_zero]
    intro hzero
    have hset := h.set
    rw [hzero, Nat.zero_testBit] at hset
    cases hset
  rw [clearLowest, UInt64.toNat_and, UInt64.toNat_sub_of_le _ _ hone, UInt64.toNat_one]
  exact testBit_and_sub_one h.set h.below i

/-- **The lowest bit is the first number of a word**, and without it the word
stands for the others. -/
theorem members_eq_cons (h : w ≠ 0) (i : Nat) :
    members w i = (64 * i + lowestBit w).toUInt32 :: members (clearLowest w) i := by
  have hlow := isLowest_lowestBit h
  have hbits : ((List.range 64).filter fun b => w.toNat.testBit b) =
      lowestBit w :: (List.range 64).filter fun b => (clearLowest w).toNat.testBit b := by
    refine List.Pairwise.eq_of_mem_iff (r := (· < ·)) (List.pairwise_lt_range.filter _)
      (List.pairwise_cons.2 ⟨fun b hb => ?_, List.pairwise_lt_range.filter _⟩) fun b => ?_
    · rw [List.mem_filter, testBit_clearLowest hlow, Bool.and_eq_true, bne_iff_ne] at hb
      by_contra hle
      have hbelow := hlow.below b (by omega)
      rw [hb.2.1] at hbelow
      cases hbelow
    · rw [List.mem_cons, List.mem_filter, List.mem_filter, testBit_clearLowest hlow,
        Bool.and_eq_true, bne_iff_ne, List.mem_range]
      by_cases hb : b = lowestBit w
      · subst hb
        simp [hlow.lt, hlow.set]
      · simp [hb]
  rw [members_eq, members_eq, hbits, List.map_cons]

@[simp] theorem members_zero (i : Nat) : members 0 i = [] := rfl

theorem toList_eq_flatMap (s : DenseSet) :
    s.toList = (List.range s.words.size).flatMap fun i => members (s.words.getD i 0) i := by
  have hbelow : ∀ n found, membersBelow s.words n found =
      (List.range n).flatMap (fun i => members (s.words.getD i 0) i) ++ found := by
    intro n
    induction n with
    | zero => exact fun found => rfl
    | succ n ih =>
      intro found
      rw [membersBelow, ih, List.range_succ, List.flatMap_append, List.flatMap_singleton,
        List.append_assoc]
  rw [toList, hbelow, List.append_nil]

/-! ## The turns of a walk -/

namespace Cursor

variable {c : Cursor} {v : Record}

/-- The numbers that are left: those of the word the walk is at, then those of
the words behind it. -/
def left (c : Cursor) : List Record :=
  members c.current c.index ++
    (List.range' (c.index + 1) (c.words.size - (c.index + 1))).flatMap fun i =>
      members (c.words.getD i 0) i

/-- In the beginning all is left. -/
theorem left_cursor (s : DenseSet) : s.cursor.left = s.toList := by
  rw [toList_eq_flatMap, left, cursor]
  cases h : s.words.size with
  | zero => simp [Array.eq_empty_of_size_eq_zero h]
  | succ n => simp [List.range_eq_range', List.range'_succ]

/-- The number is that of its bit in the row, as far as 32 bits go. -/
theorem number_eq (h : c.current ≠ 0) :
    c.number = (64 * c.index + lowestBit c.current).toUInt32 := by
  have hlt := (isLowest_lowestBit h).lt
  have hshift : (c.index.toUInt32 <<< 6).toNat = 2 ^ 6 * (c.index % 67108864) := by
    rw [UInt32.toNat_shiftLeft, Nat.toUInt32_eq, UInt32.toNat_ofNat', Nat.shiftLeft_eq]
    simp only [UInt32.reduceToNat, Nat.reduceMod, Nat.reducePow]
    omega
  have hbit : (lowestBit c.current).toUInt32.toNat = lowestBit c.current := by
    rw [Nat.toUInt32_eq, UInt32.toNat_ofNat']
    omega
  apply UInt32.toNat_inj.1
  rw [number, UInt32.toNat_or, hshift, hbit, ← Nat.two_pow_add_eq_or_of_lt hlt, Nat.toUInt32_eq,
    UInt32.toNat_ofNat']
  omega

/-- **A turn takes the first of what is left.** -/
theorem next_eq (c : Cursor) : c.next.1 = c.left.head? ∧ c.next.2.left = c.left.tail := by
  fun_induction next c with
  | case1 c h =>
    have hne : c.current ≠ 0 := bne_iff_ne.1 h
    rw [left, left, members_eq_cons hne, number_eq hne]
    exact ⟨rfl, rfl⟩
  | case2 c h hlt ih =>
    have hzero : c.current = 0 := by simpa using h
    have hleft : c.left =
        left { c with index := c.index + 1, current := c.words[c.index + 1] } := by
      have hsize : c.words.size - (c.index + 1) = c.words.size - (c.index + 1 + 1) + 1 := by omega
      rw [left, left, hzero, members_zero, hsize, List.range'_succ, List.flatMap_cons,
        Array.getD_eq_getD_getElem?, Array.getElem?_eq_getElem hlt]
      rfl
    rw [hleft]
    exact ih
  | case3 c h hlt =>
    have hzero : c.current = 0 := by simpa using h
    simp only [left, hzero]
    rw [Nat.sub_eq_zero_of_le (by omega), Nat.sub_eq_zero_of_le (by omega)]
    exact ⟨rfl, rfl⟩

/-- **The turns give what is left**, in order, and then nothing any more. -/
theorem next_after (c : Cursor) (n : Nat) : (c.after n).next.1 = c.left[n]? := by
  induction n generalizing c with
  | zero => rw [after, (next_eq c).1, List.head?_eq_getElem?]
  | succ n ih => rw [after, ih, (next_eq c).2, List.getElem?_tail]

/-! ## The word a number is put together from -/

/-- Where bits are left, the walk is at one of its words. -/
def Inside (c : Cursor) : Prop := c.current ≠ 0 → c.index < c.words.size

theorem inside_cursor (s : DenseSet) : s.cursor.Inside := by
  intro h
  by_contra hsize
  have hnone : s.words[0]? = none := Array.getElem?_eq_none (Nat.le_of_not_lt hsize)
  refine h ?_
  rw [cursor, Array.getD_eq_getD_getElem?, hnone, Option.getD_none]

/-- A turn stays inside, keeps the words, and puts its number together from the
word it ends at. -/
theorem Inside.next (h : c.Inside) : c.next.2.Inside ∧ c.next.2.words = c.words ∧
    ∀ v, c.next.1 = some v → c.next.2.index < c.words.size ∧
      ∃ b < 64, v = (64 * c.next.2.index + b).toUInt32 := by
  fun_induction Cursor.next c with
  | case1 c hne =>
    have hne : c.current ≠ 0 := bne_iff_ne.1 hne
    refine ⟨fun _ => h hne, rfl, fun v hv => ⟨h hne, lowestBit c.current, ?_, ?_⟩⟩
    · exact (isLowest_lowestBit hne).lt
    · rw [← number_eq hne]
      exact (Option.some.inj hv).symm
  | case2 c hzero hlt ih => exact ih fun _ => hlt
  | case3 c hzero hlt =>
    exact ⟨fun hne => absurd (bne_iff_ne.2 hne) hzero, rfl, fun v hv => nomatch hv⟩

theorem Inside.after (h : c.Inside) (n : Nat) :
    (c.after n).Inside ∧ (c.after n).words = c.words := by
  induction n generalizing c with
  | zero => exact ⟨h, rfl⟩
  | succ n ih =>
    obtain ⟨hnext, hwords, -⟩ := h.next
    rw [Cursor.after, ← hwords]
    exact ih hnext

/-- **Cutting the word's number to 32 bits loses nothing** in a set that has no
more words than record numbers need: it is the word of the number given. -/
theorem toUInt32_index {s : DenseSet} (h : s.words.size ≤ maxWords) {n : Nat}
    (hv : (s.cursor.after n).next.1 = some v) :
    (s.cursor.after n).next.2.index.toUInt32.toNat = (s.cursor.after n).next.2.index ∧
      (s.cursor.after n).next.2.index = wordIndex v := by
  obtain ⟨hinside, hwords⟩ := (inside_cursor s).after n
  obtain ⟨-, -, hnext⟩ := hinside.next
  obtain ⟨hlt, b, hb, rfl⟩ := hnext v hv
  rw [hwords] at hlt
  have hmax : (s.cursor.after n).next.2.index < maxWords := Nat.lt_of_lt_of_le hlt h
  rw [maxWords] at hmax
  have hcut : ∀ m < 4294967296, m.toUInt32.toNat = m := fun m hm => by
    rw [Nat.toUInt32_eq, UInt32.toNat_ofNat_of_lt' hm]
  refine ⟨hcut _ (by omega), ?_⟩
  rw [wordIndex, hcut _ (by omega)]
  omega

end Cursor

end DenseSet

end WildcardIndex
