import Mathlib.Data.List.Basic
import WildcardIndex.Proofs.RecordSet.Bits
import WildcardIndex.RecordSet.Basic
/-!
# Record sets — members, and one representation throughout

What a set is comes down to its members: each operation is one `mem_` equation,
the same for both representations. Two operands have to share their backend,
which is what `Valid` tracks; it also bounds the words of a dense set, so that
every bit of it stands for a record number. Of the ordered representation only
the laws assumed of it are used.
-/

namespace WildcardIndex

namespace RecordSet

variable {b c : Backend} {s t : RecordSet} {v w : Record}

/-- A set in the representation of a backend, with no word beyond the record
numbers. -/
inductive Valid : Backend → RecordSet → Prop where
  /-- An ordered set always is one. -/
  | roaring (s : RoaringSet) : Valid .roaring (.roaring s)
  /-- A set of bits, if it has no word too many. -/
  | dense {s : DenseSet} : s.words.size ≤ DenseSet.maxWords → Valid .dense (.dense s)

/-! ## Members -/

theorem mem_roaring {s : RoaringSet} : v ∈ roaring s ↔ v ∈ s := RoaringSet.laws.contains_iff s v

theorem mem_dense {s : DenseSet} : v ∈ dense s ↔ s.bitAt v.toNat = true := by
  rw [← DenseSet.contains_eq_bitAt]
  rfl

@[simp] theorem not_mem_empty : v ∉ empty b := by
  cases b with
  | roaring =>
    rw [empty, mem_roaring]
    exact RoaringSet.laws.not_mem_empty v
  | dense =>
    rw [empty, mem_dense, DenseSet.bitAt_empty]
    exact Bool.false_ne_true

@[simp] theorem not_mem_clear : v ∉ s.clear := not_mem_empty

theorem mem_insert : v ∈ s.insert w ↔ v = w ∨ v ∈ s := by
  cases s with
  | roaring s =>
    rw [insert, mem_roaring, mem_roaring]
    exact RoaringSet.laws.mem_insert s v w
  | dense s =>
    rw [insert, mem_dense, mem_dense, DenseSet.bitAt_insert, Bool.or_eq_true, beq_iff_eq,
      UInt32.toNat_inj, or_comm, eq_comm]

theorem mem_erase : v ∈ s.erase w ↔ v ≠ w ∧ v ∈ s := by
  cases s with
  | roaring s =>
    rw [erase, mem_roaring, mem_roaring]
    exact RoaringSet.laws.mem_erase s v w
  | dense s =>
    rw [erase, mem_dense, mem_dense, DenseSet.bitAt_erase, Bool.and_eq_true, bne_iff_ne, ne_eq,
      UInt32.toNat_inj, and_comm, eq_comm]

/-- Operands of one backend combine as their members do. -/
theorem mem_inter (h : s.backend = t.backend) : v ∈ s.inter t ↔ v ∈ s ∧ v ∈ t := by
  rcases s with s | s <;> rcases t with t | t <;> try cases h
  · rw [inter, mem_roaring, mem_roaring, mem_roaring]
    exact RoaringSet.laws.mem_inter s t v
  · rw [inter, mem_dense, mem_dense, mem_dense, DenseSet.bitAt_inter, Bool.and_eq_true]

theorem mem_union (h : s.backend = t.backend) : v ∈ s.union t ↔ v ∈ s ∨ v ∈ t := by
  rcases s with s | s <;> rcases t with t | t <;> try cases h
  · rw [union, mem_roaring, mem_roaring, mem_roaring]
    exact RoaringSet.laws.mem_union s t v
  · rw [union, mem_dense, mem_dense, mem_dense, DenseSet.bitAt_union, Bool.or_eq_true]

theorem mem_diff (h : s.backend = t.backend) : v ∈ s.diff t ↔ v ∈ s ∧ v ∉ t := by
  rcases s with s | s <;> rcases t with t | t <;> try cases h
  · rw [diff, mem_roaring, mem_roaring, mem_roaring]
    exact RoaringSet.laws.mem_diff s t v
  · rw [diff, mem_dense, mem_dense, mem_dense, DenseSet.bitAt_diff, Bool.and_eq_true,
      Bool.not_eq_true', Bool.not_eq_true]

/-- A set that says it is empty has no member. -/
theorem not_mem_of_isEmpty (h : s.isEmpty = true) : v ∉ s := by
  cases s with
  | roaring s =>
    rw [mem_roaring]
    exact RoaringSet.laws.not_mem_of_isEmpty s h v
  | dense s =>
    rw [mem_dense, (DenseSet.isEmpty_iff_bitAt s).1 h]
    exact Bool.false_ne_true

/-! ## The representation stays -/

@[simp] theorem backend_empty (b : Backend) : (empty b).backend = b := by cases b <;> rfl

@[simp] theorem backend_clear (s : RecordSet) : s.clear.backend = s.backend := backend_empty _

/-- Combining sets gives one of the kind of the first, whatever the second is. -/
@[simp] theorem backend_inter (s t : RecordSet) : (s.inter t).backend = s.backend := by
  cases s <;> cases t <;> rfl

@[simp] theorem backend_union (s t : RecordSet) : (s.union t).backend = s.backend := by
  cases s <;> cases t <;> rfl

theorem Valid.backend_eq (h : s.Valid b) : s.backend = b := by
  cases h <;> rfl

/-- So two sets that are valid for one backend combine. -/
theorem Valid.backend_eq_backend (hs : s.Valid b) (ht : t.Valid b) : s.backend = t.backend :=
  hs.backend_eq.trans ht.backend_eq.symm

@[simp] theorem valid_empty (b : Backend) : (empty b).Valid b := by
  cases b with
  | roaring => exact .roaring _
  | dense => exact .dense (Nat.zero_le _)

theorem Valid.clear (h : s.Valid b) : s.clear.Valid b := by
  rw [RecordSet.clear, h.backend_eq]
  exact valid_empty b

theorem Valid.insert (h : s.Valid b) (v : Record) : (s.insert v).Valid b := by
  cases h with
  | roaring => exact .roaring _
  | dense h =>
    refine .dense ?_
    rw [DenseSet.size_insert]
    exact Nat.max_le.2 ⟨h, DenseSet.wordIndex_lt v⟩

theorem Valid.erase (h : s.Valid b) (v : Record) : (s.erase v).Valid b := by
  cases h with
  | roaring => exact .roaring _
  | dense h =>
    refine .dense ?_
    rw [DenseSet.erase, Array.size_modify]
    exact h

/-- An intersection has no more words than its first operand, whatever the
second is. -/
theorem Valid.inter (h : s.Valid b) (t : RecordSet) : (s.inter t).Valid b := by
  cases h with
  | roaring s => cases t <;> exact .roaring _
  | dense h =>
    cases t with
    | roaring t => exact .dense h
    | dense t =>
      refine .dense ?_
      rw [DenseSet.inter, Array.size_zipWith]
      exact Nat.le_trans (Nat.min_le_left _ _) h

theorem Valid.union (hs : s.Valid b) (ht : t.Valid b) : (s.union t).Valid b := by
  cases hs with
  | roaring s =>
    cases ht
    exact .roaring _
  | dense hs =>
    cases ht with
    | dense ht =>
      refine .dense ?_
      rw [DenseSet.size_union]
      exact Nat.max_le.2 ⟨hs, ht⟩

theorem Valid.diff (h : s.Valid b) (t : RecordSet) : (s.diff t).Valid b := by
  cases h with
  | roaring s => cases t <;> exact .roaring _
  | dense h =>
    cases t with
    | roaring t => exact .dense h
    | dense t =>
      refine .dense ?_
      rw [DenseSet.diff, Array.size_mapIdx]
      exact h

/-! ## The listing -/

theorem mem_toList (h : s.Valid b) : v ∈ s.toList ↔ v ∈ s := by
  cases h with
  | roaring s =>
    rw [mem_roaring]
    exact RoaringSet.laws.mem_toList s v
  | dense h => exact DenseSet.mem_toList_iff h

/-- The listing ascends strictly, so it names each member once. -/
theorem pairwise_toList (h : s.Valid b) : s.toList.Pairwise (· < ·) := by
  cases h with
  | roaring s => exact RoaringSet.laws.pairwise_toList s
  | dense h => exact DenseSet.pairwise_toList h

theorem nodup_toList (h : s.Valid b) : s.toList.Nodup :=
  (pairwise_toList h).imp fun h => UInt32.ne_of_lt h

/-- A list that ascends strictly by record is determined by its members. -/
theorem eq_of_pairwise_lt {α : Type} (record : α → Record) {as bs : List α}
    (ha : as.Pairwise fun x y => record x < record y)
    (hb : bs.Pairwise fun x y => record x < record y) (h : ∀ x, x ∈ as ↔ x ∈ bs) : as = bs := by
  have hasymm : ∀ x y : α, x ∈ as → y ∈ bs → record x < record y → record y < record x → x = y :=
    fun x y _ _ h₁ h₂ => absurd h₂ (UInt32.lt_asymm h₁)
  have hne : ∀ {x y : α}, record x < record y → x ≠ y :=
    fun hlt heq => UInt32.ne_of_lt hlt (congrArg record heq)
  refine List.Perm.eq_of_pairwise hasymm ha hb ?_
  exact (List.perm_ext_iff_of_nodup (ha.imp hne) (hb.imp hne)).2 h

/-- **Sets with the same members list the same**, whatever their
representations. -/
theorem toList_eq_of_mem_iff (hs : s.Valid b) (ht : t.Valid c) (h : ∀ v, v ∈ s ↔ v ∈ t) :
    s.toList = t.toList :=
  eq_of_pairwise_lt id (pairwise_toList hs) (pairwise_toList ht) fun v => by
    rw [mem_toList hs, mem_toList ht, h]

/-- A new member makes the listing longer by one. -/
theorem length_toList_insert (h : s.Valid b) (hr : v ∉ s) :
    (s.insert v).toList.length = s.toList.length + 1 := by
  have hperm : (s.insert v).toList.Perm (v :: s.toList) := by
    refine (List.perm_ext_iff_of_nodup (nodup_toList (h.insert v)) ?_).2 fun u => ?_
    · exact List.nodup_cons.2 ⟨fun hmem => hr ((mem_toList h).1 hmem), nodup_toList h⟩
    · rw [mem_toList (h.insert v), mem_insert, List.mem_cons, mem_toList h]
  rw [hperm.length_eq, List.length_cons]

theorem length_toList_erase (h : s.Valid b) (hr : v ∈ s) :
    (s.erase v).toList.length + 1 = s.toList.length := by
  have hperm : s.toList.Perm (v :: (s.erase v).toList) := by
    refine (List.perm_ext_iff_of_nodup (nodup_toList h) ?_).2 fun u => ?_
    · refine List.nodup_cons.2 ⟨fun hmem => ?_, nodup_toList (h.erase v)⟩
      rw [mem_toList (h.erase v), mem_erase] at hmem
      exact hmem.1 rfl
    · rw [List.mem_cons, mem_toList h, mem_toList (h.erase v), mem_erase]
      by_cases hu : u = v
      · subst hu
        simp [hr]
      · simp [hu]
  rw [hperm.length_eq, List.length_cons]

theorem toList_erase_of_not_mem (h : s.Valid b) (hr : v ∉ s) : (s.erase v).toList = s.toList := by
  refine toList_eq_of_mem_iff (h.erase v) h fun u => ?_
  rw [mem_erase]
  exact and_iff_right_of_imp fun hu heq => hr (heq ▸ hu)

theorem toList_empty (b : Backend) : (empty b).toList = [] := by
  refine List.eq_nil_iff_forall_not_mem.2 fun u hu => ?_
  rw [mem_toList (valid_empty b)] at hu
  exact not_mem_empty hu

end RecordSet

end WildcardIndex
