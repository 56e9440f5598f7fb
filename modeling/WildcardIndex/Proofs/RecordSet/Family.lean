import Mathlib.Data.Finset.Sort
import WildcardIndex.Proofs.RecordSet.Membership
import WildcardIndex.Proofs.RecordSet.Walk
/-!
# Record sets — a family of dense sets, as finite sets

A dense set **represents** a finite set of record numbers. What is read off it
is read off the finite set, whatever zero words lie behind the last member: the
number of members, emptiness, the walk, equality. A family of dense sets that is
changed in any order, by its own members among others, goes along with a family
of finite sets.
-/

namespace WildcardIndex

namespace DenseSet

variable {s t : DenseSet} {S T : Finset Record} {v : Record}

/-! ## Comparing and counting -/

/-- The comparison of a shorter row of words with a longer one. -/
theorem zip_all_and_drop_all {short long : Array UInt64} (h : short.size ≤ long.size) :
    ((short.zip long).all (fun e => e.1 == e.2) && (long.drop short.size).all (· == 0)) = true ↔
      ∀ i, short.getD i 0 = long.getD i 0 := by
  rw [Bool.and_eq_true, Array.all_eq_true, Array.all_eq_true]
  simp only [Array.getElem_zip, Array.size_zip, Array.drop_eq_extract, Array.getElem_extract,
    Array.size_extract, beq_iff_eq, Array.getD_eq_getD_getElem?]
  constructor
  · rintro ⟨hcommon, hrest⟩ i
    by_cases hshort : i < short.size
    · have hlong : i < long.size := Nat.lt_of_lt_of_le hshort h
      rw [Array.getElem?_eq_getElem hshort, Array.getElem?_eq_getElem hlong,
        hcommon i (Nat.lt_min.2 ⟨hshort, hlong⟩)]
    · rw [Array.getElem?_eq_none (Nat.le_of_not_lt hshort)]
      by_cases hlong : i < long.size
      · obtain ⟨j, rfl⟩ := Nat.exists_eq_add_of_le (Nat.le_of_not_lt hshort)
        rw [Array.getElem?_eq_getElem hlong, Option.getD_some, hrest j (by omega)]
        rfl
      · rw [Array.getElem?_eq_none (Nat.le_of_not_lt hlong)]
  · intro hall
    refine ⟨fun i hi => ?_, fun i hi => ?_⟩
    · obtain ⟨hshort, hlong⟩ := Nat.lt_min.1 hi
      have hword := hall i
      rwa [Array.getElem?_eq_getElem hshort, Array.getElem?_eq_getElem hlong, Option.getD_some,
        Option.getD_some] at hword
    · have hword := hall (short.size + i)
      rw [Array.getElem?_eq_none (Nat.le_add_right _ _), Option.getD_none,
        Array.getElem?_eq_getElem (by omega), Option.getD_some] at hword
      exact hword.symm

theorem beq_iff_bitAt : (s == t) = true ↔ ∀ n, s.bitAt n = t.bitAt n := by
  rw [← words_eq_iff_bitAt]
  change s.beq t = true ↔ _
  by_cases h : s.words.size ≤ t.words.size
  · simp only [beq, if_pos h]
    exact zip_all_and_drop_all h
  · simp only [beq, if_neg h]
    rw [zip_all_and_drop_all (Nat.le_of_not_le h)]
    exact forall_congr' fun i => eq_comm

/-- Within the bound every set bit of the row is a record number's. -/
theorem exists_toNat_eq_of_bitAt (h : s.words.size ≤ maxWords) {n : Nat} (hn : s.bitAt n = true) :
    ∃ v : Record, v.toNat = n := by
  have hlt := lt_of_bitAt hn
  rw [maxWords] at h
  exact ⟨n.toUInt32, by rw [Nat.toUInt32_eq, UInt32.toNat_ofNat_of_lt' (by
    rw [UInt32.size]
    omega)]⟩

/-- The bits of a word, counted, are as many as the numbers it stands for. -/
theorem popCount_eq_length (w : UInt64) (i : Nat) : popCount w = (members w i).length := by
  unfold popCount members
  split
  · rfl
  · rw [List.length_filterMap_eq_countP]
    refine List.countP_congr fun b _ => ?_
    split <;> simp_all

/-- **The words are counted as the listing is long.** -/
theorem size_eq_length (s : DenseSet) : s.size = s.toList.length := by
  have hwords : s.words.toList = (List.range s.words.size).map fun i => s.words.getD i 0 := by
    refine List.ext_getElem (by simp) fun i hi _ => ?_
    have hi : i < s.words.size := hi
    simp [hi]
  have hcount : ∀ n, (List.range n).foldl (fun k i => k + popCount (s.words.getD i 0)) 0 =
      ((List.range n).flatMap fun i => members (s.words.getD i 0) i).length := by
    intro n
    induction n with
    | zero => rfl
    | succ n ih =>
      rw [List.range_succ, List.foldl_append, List.flatMap_append, List.length_append, ih,
        List.flatMap_singleton, ← popCount_eq_length]
      rfl
  rw [size, ← Array.foldl_toList, hwords, List.foldl_map, hcount, toList_eq_flatMap]

/-! ## A dense set as a finite set -/

/-- A dense set with the members of a finite set, and no word too many. -/
structure Represents (s : DenseSet) (S : Finset Record) : Prop where
  /-- Every bit stands for a record number. -/
  valid : (RecordSet.dense s).Valid .dense
  /-- The members. -/
  mem_iff : ∀ v, v ∈ RecordSet.dense s ↔ v ∈ S

theorem represents_empty : empty.Represents ∅ where
  valid := RecordSet.valid_empty .dense
  mem_iff _ := iff_of_false (RecordSet.not_mem_empty (b := .dense)) (Finset.notMem_empty _)

theorem Represents.insert (h : s.Represents S) (v : Record) :
    (s.insert v).Represents (Insert.insert v S) where
  valid := h.valid.insert v
  mem_iff u := by rw [Finset.mem_insert, ← h.mem_iff, ← RecordSet.mem_insert]; rfl

theorem Represents.erase (h : s.Represents S) (v : Record) :
    (s.erase v).Represents (S.erase v) where
  valid := h.valid.erase v
  mem_iff u := by rw [Finset.mem_erase, ← h.mem_iff, ← RecordSet.mem_erase]; rfl

theorem Represents.inter (hs : s.Represents S) (ht : t.Represents T) :
    (s.inter t).Represents (S ∩ T) where
  valid := hs.valid.inter (.dense t)
  mem_iff u := by
    rw [Finset.mem_inter, ← hs.mem_iff, ← ht.mem_iff]
    exact RecordSet.mem_inter (s := .dense s) (t := .dense t) rfl

theorem Represents.union (hs : s.Represents S) (ht : t.Represents T) :
    (s.union t).Represents (S ∪ T) where
  valid := hs.valid.union ht.valid
  mem_iff u := by
    rw [Finset.mem_union, ← hs.mem_iff, ← ht.mem_iff]
    exact RecordSet.mem_union (s := .dense s) (t := .dense t) rfl

theorem Represents.diff (hs : s.Represents S) (ht : t.Represents T) :
    (s.diff t).Represents (S \ T) where
  valid := hs.valid.diff (.dense t)
  mem_iff u := by
    rw [Finset.mem_sdiff, ← hs.mem_iff, ← ht.mem_iff]
    exact RecordSet.mem_diff (s := .dense s) (t := .dense t) rfl

/-! ## What is read off -/

namespace Represents

theorem size_le (h : s.Represents S) : s.words.size ≤ maxWords := by
  cases h.valid
  assumption

theorem contains_eq (h : s.Represents S) (v : Record) : s.contains v = decide (v ∈ S) := by
  rw [Bool.eq_iff_iff, decide_eq_true_iff, ← h.mem_iff]
  rfl

theorem nodup_toList (h : s.Represents S) : s.toList.Nodup := RecordSet.nodup_toList h.valid

theorem toFinset_toList (h : s.Represents S) : s.toList.toFinset = S := by
  ext v
  rw [List.mem_toFinset, ← h.mem_iff]
  exact RecordSet.mem_toList h.valid

/-- The listing is the finite set in order. -/
theorem toList_eq_sort (h : s.Represents S) : s.toList = S.sort (· ≤ ·) := by
  have hascending : s.toList.Pairwise (· ≤ ·) :=
    (pairwise_toList h.size_le).imp UInt32.le_of_lt
  rw [← h.toFinset_toList]
  exact ((List.toFinset_sort _ h.nodup_toList).2 hascending).symm

theorem size_eq_card (h : s.Represents S) : s.size = S.card := by
  rw [size_eq_length, ← List.toFinset_card_of_nodup h.nodup_toList, h.toFinset_toList]

/-- Sets with the same members have the same row, since every bit of a row is a
record number's. -/
theorem bitAt_eq_iff (hs : s.Represents S) (ht : t.Represents T) :
    (∀ n, s.bitAt n = t.bitAt n) ↔ S = T := by
  have hbit : ∀ v : Record, s.bitAt v.toNat = t.bitAt v.toNat ↔ (v ∈ S ↔ v ∈ T) := by
    intro v
    rw [← contains_eq_bitAt, ← contains_eq_bitAt, hs.contains_eq, ht.contains_eq, decide_eq_decide]
  rw [Finset.ext_iff]
  constructor
  · exact fun h v => (hbit v).1 (h v.toNat)
  · intro h n
    by_cases hn : s.bitAt n = true ∨ t.bitAt n = true
    · obtain ⟨v, rfl⟩ : ∃ v : Record, v.toNat = n := by
        rcases hn with hn | hn
        · exact exists_toNat_eq_of_bitAt hs.size_le hn
        · exact exists_toNat_eq_of_bitAt ht.size_le hn
      exact (hbit v).2 (h v)
    · rw [not_or, Bool.not_eq_true, Bool.not_eq_true] at hn
      rw [hn.1, hn.2]

theorem beq_eq (hs : s.Represents S) (ht : t.Represents T) : (s == t) = decide (S = T) := by
  rw [Bool.eq_iff_iff, decide_eq_true_iff, beq_iff_bitAt, hs.bitAt_eq_iff ht]

theorem isEmpty_eq (h : s.Represents S) : s.isEmpty = decide (S = ∅) := by
  rw [Bool.eq_iff_iff, decide_eq_true_iff, isEmpty_iff_bitAt, ← h.bitAt_eq_iff represents_empty]
  simp only [bitAt_empty]

end Represents

/-- All that can be read off a dense set is as the finite set has it. -/
structure Reads (s : DenseSet) (S : Finset Record) : Prop where
  /-- Membership. -/
  contains_eq : ∀ v, s.contains v = decide (v ∈ S)
  /-- The number of members. -/
  size_eq : s.size = S.card
  /-- Emptiness. -/
  isEmpty_eq : s.isEmpty = decide (S = ∅)
  /-- The listing names each member once, ascending. -/
  toList_eq : s.toList = S.sort (· ≤ ·)
  /-- So does a walk, turn by turn, and ends there for good. -/
  next_eq : ∀ n, (s.cursor.after n).next.1 = (S.sort (· ≤ ·))[n]?
  /-- The words do not go beyond the record numbers. -/
  words_le : s.words.size ≤ 2 ^ 26
  /-- So a turn cuts the number of a word to 32 bits without a loss. -/
  index_eq : ∀ n v, (s.cursor.after n).next.1 = some v →
    (s.cursor.after n).next.2.index.toUInt32.toNat = (s.cursor.after n).next.2.index ∧
      (s.cursor.after n).next.2.index = v.toNat / 64

/-- **A dense set reads as what it represents.** -/
theorem Represents.reads (h : s.Represents S) : s.Reads S where
  contains_eq := h.contains_eq
  size_eq := h.size_eq_card
  isEmpty_eq := h.isEmpty_eq
  toList_eq := h.toList_eq_sort
  next_eq n := by rw [Cursor.next_after, Cursor.left_cursor, h.toList_eq_sort]
  words_le := h.size_le
  index_eq _ _ hv := Cursor.toUInt32_index h.size_le hv

/-! ## A family of sets -/

/-- A change to a family of sets that go by names. -/
inductive Edit (N : Type) where
  /-- Add a number to a set. -/
  | insert (a : N) (v : Record)
  /-- Remove a number from a set. -/
  | erase (a : N) (v : Record)
  /-- Remove everything from a set. -/
  | clear (a : N)
  /-- Make the second set a copy of the first. -/
  | clone (a b : N)
  /-- Keep of the first set what is in the second. -/
  | inter (a b : N)
  /-- Add the second set to the first. -/
  | union (a b : N)
  /-- Remove from the first set what is in the second. -/
  | diff (a b : N)

variable {N : Type} [DecidableEq N]

/-- One change to a family of dense sets, and what it says: whether it changed a
membership, where a single number is added or removed. -/
def edit (f : N → DenseSet) : Edit N → Option Bool × (N → DenseSet)
  | .insert a v => (some ((f a).insertNew v).1, Function.update f a ((f a).insertNew v).2)
  | .erase a v => (some ((f a).eraseFound v).1, Function.update f a ((f a).eraseFound v).2)
  | .clear a => (none, Function.update f a .empty)
  | .clone a b => (none, Function.update f b (f a))
  | .inter a b => (none, Function.update f a ((f a).inter (f b)))
  | .union a b => (none, Function.update f a ((f a).union (f b)))
  | .diff a b => (none, Function.update f a ((f a).diff (f b)))

/-- The same change to a family of finite sets. -/
def editFinset (F : N → Finset Record) : Edit N → Option Bool × (N → Finset Record)
  | .insert a v => (some (v ∉ F a), Function.update F a (Insert.insert v (F a)))
  | .erase a v => (some (v ∈ F a), Function.update F a ((F a).erase v))
  | .clear a => (none, Function.update F a ∅)
  | .clone a b => (none, Function.update F b (F a))
  | .inter a b => (none, Function.update F a (F a ∩ F b))
  | .union a b => (none, Function.update F a (F a ∪ F b))
  | .diff a b => (none, Function.update F a (F a \ F b))

/-- Changes one after another: what each of them says, and the family they leave
behind. -/
def editAll {F : Type} (change : F → Edit N → Option Bool × F) (f : F) :
    List (Edit N) → List (Option Bool) × F
  | [] => ([], f)
  | e :: es =>
    let told := editAll change (change f e).2 es
    ((change f e).1 :: told.1, told.2)

theorem represents_update {f : N → DenseSet} {F : N → Finset Record}
    (h : ∀ a, (f a).Represents (F a)) (hs : s.Represents S) (b a : N) :
    (Function.update f b s a).Represents (Function.update F b S a) := by
  by_cases hab : a = b
  · subst hab
    rwa [Function.update_self, Function.update_self]
  · rw [Function.update_of_ne hab, Function.update_of_ne hab]
    exact h a

/-- **A change goes along**: it says the same, and every set still represents
its finite set. -/
theorem represents_edit {f : N → DenseSet} {F : N → Finset Record}
    (h : ∀ a, (f a).Represents (F a)) (e : Edit N) :
    (edit f e).1 = (editFinset F e).1 ∧
      ∀ a, ((edit f e).2 a).Represents ((editFinset F e).2 a) := by
  cases e with
  | insert a v =>
    refine ⟨?_, represents_update h ((h a).insert v) a⟩
    simp only [edit, editFinset, insertNew, (h a).contains_eq, decide_not]
  | erase a v =>
    refine ⟨?_, represents_update h ((h a).erase v) a⟩
    simp only [edit, editFinset, eraseFound, (h a).contains_eq]
  | clear a => exact ⟨rfl, represents_update h represents_empty a⟩
  | clone a b => exact ⟨rfl, represents_update h (h a) b⟩
  | inter a b => exact ⟨rfl, represents_update h ((h a).inter (h b)) a⟩
  | union a b => exact ⟨rfl, represents_update h ((h a).union (h b)) a⟩
  | diff a b => exact ⟨rfl, represents_update h ((h a).diff (h b)) a⟩

theorem represents_editAll {f : N → DenseSet} {F : N → Finset Record}
    (h : ∀ a, (f a).Represents (F a)) (es : List (Edit N)) :
    (editAll edit f es).1 = (editAll editFinset F es).1 ∧
      ∀ a, ((editAll edit f es).2 a).Represents ((editAll editFinset F es).2 a) := by
  induction es generalizing f F with
  | nil => exact ⟨rfl, h⟩
  | cons e es ih =>
    obtain ⟨hsaid, hrep⟩ := represents_edit h e
    obtain ⟨hrest, hreps⟩ := ih hrep
    refine ⟨?_, hreps⟩
    rw [editAll, editAll, hsaid, hrest]

/-- **Dense sets are finite sets.** Whatever is done to a family of empty ones,
each change says whether it changed a membership, each set reads as the finite
set the same changes make, and two of them compare equal exactly if these are
the same. -/
theorem family_reads (es : List (Edit N)) :
    let f := editAll edit (fun _ => empty) es
    let F := editAll editFinset (fun _ => ∅) es
    f.1 = F.1 ∧ (∀ a, (f.2 a).Reads (F.2 a)) ∧
      ∀ a b, (f.2 a == f.2 b) = decide (F.2 a = F.2 b) := by
  intro f F
  obtain ⟨hsaid, hrep⟩ : f.1 = F.1 ∧ ∀ a, (f.2 a).Represents (F.2 a) :=
    represents_editAll (fun _ => represents_empty) es
  exact ⟨hsaid, fun a => (hrep a).reads, fun a b => (hrep a).beq_eq (hrep b)⟩

/-- A set that was larger before keeps its words, and still compares equal to
one that was not. -/
example :
    let f := (editAll edit (fun _ => empty)
      [.insert 0 3, .insert 0 100, .clone 0 1, .erase 0 100, .diff 1 0, .insert 2 3]).2
    (f 0 == f 2) = true ∧ (f 0).words.size = 2 ∧ (f 2).words.size = 1 ∧
      (f 1).cursor.next.1 = some 100 := by
  cbv

end DenseSet

end WildcardIndex
