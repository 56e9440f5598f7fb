import Mathlib.Data.List.Basic
import WildcardIndex.Proofs.Store.Deletion
/-!
# The store — the live records

What a store shows of itself is what its live records have, the free list and
the number of slots. Stores that are **alike** in these list the same live
records, hand out the same records next and take the same changes, whatever they
still hold of deleted ones.
-/

namespace WildcardIndex

namespace Store

variable {I : Type} {b c : Backend} {s s' t t' : Store I} {r : Record} {i : I} {v : Bytes}

/-! ## The listing -/

/-- The live records are listed with their identifiers. -/
theorem Valid.mem_live (h : s.Valid b) : (r, i) ∈ s.live ↔ ∃ v, s.content? r = some (i, v) := by
  have hsize := h.size_le
  unfold live
  simp only [List.mem_filterMap, Prod.exists, List.mem_zipIdx_iff_getElem?, Array.getElem?_toList]
  constructor
  · rintro ⟨slot, k, hk, hslot⟩
    split at hslot
    · rename_i hlive
      simp only [Option.some.injEq, Prod.mk.injEq] at hslot
      obtain ⟨rfl, rfl⟩ := hslot
      rw [Bool.and_eq_true, Bool.not_eq_true', Option.isSome_iff_exists] at hlive
      obtain ⟨⟨v, hv⟩, hnot⟩ := hlive
      have hlt : k < UInt32.size := Nat.lt_of_lt_of_le (Array.getElem?_eq_some_iff.1 hk).1 hsize
      refine ⟨v, ?_⟩
      rw [content?_of_not_mem fun hmem => Bool.false_ne_true (hnot.symm.trans hmem),
        toNat_toUInt32 hlt, hk, Option.bind_some, hv]
      rfl
    · cases hslot
  · rintro ⟨v, hcontent⟩
    obtain ⟨hnot, hid, hv⟩ := content?_eq_some.1 hcontent
    unfold identifier? at hid
    unfold value? at hv
    cases hslot : s.slots[r.toNat]? with
    | none =>
      rw [hslot] at hid
      cases hid
    | some slot =>
      rw [hslot, Option.map_some, Option.some.injEq] at hid
      rw [hslot, Option.bind_some] at hv
      have hcontains : s.tombstones.contains r = false := Bool.not_eq_true _ ▸ hnot
      have hr : r.toNat.toUInt32 = r := UInt32.ofNat_toNat
      refine ⟨slot, r.toNat, hslot, ?_⟩
      rw [hr, hv, hcontains, hid]
      rfl

/-- Each live record is listed, and nothing else. -/
theorem Valid.mem_live_iff (h : s.Valid b) :
    (r, i) ∈ s.live ↔ s.state? r = some .live ∧ s.identifier? r = some i := by
  rw [h.mem_live, state?_eq_live_iff, Option.isSome_iff_exists]
  simp only [content?_eq_some, Prod.exists]
  constructor
  · rintro ⟨v, hnot, hi, hv⟩
    exact ⟨⟨i, v, hnot, hi, hv⟩, hi⟩
  · rintro ⟨⟨_, v, hnot, -, hv⟩, hi⟩
    exact ⟨v, hnot, hi, hv⟩

/-- Numbers that fit a record ascend as records do. -/
theorem pairwise_zipIdx {α : Type} {as : List α} (h : as.length ≤ UInt32.size) :
    as.zipIdx.Pairwise fun x y => x.2.toUInt32 < y.2.toUInt32 := by
  have hidx : as.zipIdx.Pairwise fun x y => x.2 < y.2 := by
    rw [← List.pairwise_map (f := Prod.snd), List.zipIdx_map_snd]
    exact List.pairwise_lt_range'
  refine hidx.imp_of_mem fun {x y} _ hy hlt => ?_
  have hmem := List.mem_zipIdx_iff_getElem?.1 hy
  have hsize : y.2 < UInt32.size :=
    Nat.lt_of_lt_of_le (List.getElem?_eq_some_iff.1 hmem).1 h
  rw [UInt32.lt_iff_toNat_lt, toNat_toUInt32 hsize, toNat_toUInt32 (Nat.lt_trans hlt hsize)]
  exact hlt

/-- They are listed by ascending record. -/
theorem Valid.pairwise_live (h : s.Valid b) : s.live.Pairwise fun x y => x.1 < y.1 := by
  have hsize : s.slots.toList.length ≤ UInt32.size := h.size_le
  refine List.Pairwise.filterMap _ ?_ (pairwise_zipIdx hsize)
  rintro ⟨slot, k⟩ ⟨slot', k'⟩ hlt x hx y hy
  simp only [Option.ite_none_right_eq_some, Option.some.injEq] at hx hy
  obtain ⟨-, rfl⟩ := hx
  obtain ⟨-, rfl⟩ := hy
  exact hlt

theorem Valid.nodup_live (h : s.Valid b) : (s.live.map Prod.fst).Nodup := by
  rw [List.Nodup, List.pairwise_map]
  exact h.pairwise_live.imp fun hlt => UInt32.ne_of_lt hlt

/-- The identifier of a live record is found. -/
theorem resolveOne_of_content? (h : s.content? r = some (i, v)) : s.resolveOne r = .ok i := by
  have hstate : s.state? r = some .live := by
    rw [state?_eq_live_iff, h]
    rfl
  have hid := (content?_eq_some.1 h).2.1
  unfold identifier? at hid
  unfold resolveOne
  cases hslot : s.slots[r.toNat]? with
  | none =>
    rw [hslot] at hid
    cases hid
  | some slot =>
    rw [hslot, Option.map_some, Option.some.injEq] at hid
    rw [hstate, ← hid]

/-- **An answer of live records resolves**, to their identifiers. -/
theorem resolve_of_live {records : RecordSet} (hlive : ∀ r ∈ records.toList, (s.content? r).isSome) :
    s.resolve records = .ok (records.toList.filterMap fun r => (s.content? r).map Prod.fst) := by
  unfold resolve
  generalize records.toList = rs at hlive ⊢
  induction rs with
  | nil => rfl
  | cons r rs ih =>
    obtain ⟨⟨i, v⟩, hcontent⟩ := Option.isSome_iff_exists.1 (hlive r List.mem_cons_self)
    rw [List.mapM_cons, resolveOne_of_content? hcontent,
      ih fun u hu => hlive u (List.mem_cons_of_mem r hu), List.filterMap_cons, hcontent]
    rfl

/-! ## Alike stores -/

/-- Two stores show the same: live records, free list, number of slots. -/
structure Alike (s t : Store I) : Prop where
  /-- The same records are live, with the same identifiers and values. -/
  content?_eq : s.content? = t.content?
  /-- The same slots wait, in the same order. -/
  free_eq : s.free = t.free
  /-- There are as many slots. -/
  totalSlots_eq : s.totalSlots = t.totalSlots

theorem Alike.refl (s : Store I) : Alike s s := ⟨rfl, rfl, rfl⟩

theorem Alike.symm (h : Alike s t) : Alike t s :=
  ⟨h.content?_eq.symm, h.free_eq.symm, h.totalSlots_eq.symm⟩

theorem Alike.trans {u : Store I} (h : Alike s t) (h' : Alike t u) : Alike s u :=
  ⟨h.content?_eq.trans h'.content?_eq, h.free_eq.trans h'.free_eq,
    h.totalSlots_eq.trans h'.totalSlots_eq⟩

theorem Alike.next?_eq (h : Alike s t) : s.next? = t.next? := by
  rw [next?, next?, h.free_eq, h.totalSlots_eq]

theorem Alike.live_eq (h : Alike s t) (hs : s.Valid b) (ht : t.Valid c) : s.live = t.live := by
  refine RecordSet.eq_of_pairwise_lt Prod.fst hs.pairwise_live ht.pairwise_live ?_
  rintro ⟨r, i⟩
  rw [hs.mem_live, ht.mem_live, h.content?_eq]

theorem Alike.took (h : Alike s t) (hs : Took b i v r s s') (ht : Took c i v r t t') :
    Alike s' t' where
  content?_eq := by rw [hs.content?_eq, ht.content?_eq, h.content?_eq]
  free_eq := by rw [hs.free_eq, ht.free_eq, h.free_eq]
  totalSlots_eq := by rw [hs.totalSlots_eq, ht.totalSlots_eq, h.totalSlots_eq]

theorem Alike.marked (h : Alike s t) {rs : List Record} (hs : Marked b rs s s')
    (ht : Marked c rs t t') : Alike s' t' where
  content?_eq := by
    funext u
    rw [hs.content?_eq, ht.content?_eq, h.content?_eq]
  free_eq := by rw [hs.free_eq, ht.free_eq, h.free_eq]
  totalSlots_eq := by rw [hs.totalSlots_eq, ht.totalSlots_eq, h.totalSlots_eq]

/-- **A purge does not show.** -/
theorem Drained.alike (h : Drained b s s') : Alike s' s := ⟨h.content?_eq, h.free_eq, h.totalSlots_eq⟩

end Store

end WildcardIndex
