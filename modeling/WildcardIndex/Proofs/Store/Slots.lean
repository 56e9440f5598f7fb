import Mathlib.Data.List.Basic
import WildcardIndex.Proofs.Contents
import WildcardIndex.Proofs.RecordSet.Membership
import WildcardIndex.Store.Basic
/-!
# The store — its three accounts agree

A store is seen through two maps: the value a slot still holds, live or not
(`value?`), and the identifier and value of a live record (`content?`). It is
**valid** if the free list names exactly the slots that are not live, each once,
and the tombstones are deleted records that still hold a value. Each operation
is one change of the two maps and of the free list, and keeps the store valid.
-/

namespace WildcardIndex

namespace Store

/-- The slots have a record each. -/
theorem toNat_toUInt32 {n : Nat} (h : n < UInt32.size) : n.toUInt32.toNat = n :=
  UInt32.toNat_ofNat_of_lt' h

variable {I : Type} {b : Backend} {s : Store I} {r u : Record} {identifier : I} {v : Bytes}

/-- The identifier and the value of a live record. -/
def content? (s : Store I) : Contents (I × Bytes) := fun r =>
  if r ∈ s.tombstones then none
  else s.slots[r.toNat]?.bind fun slot => slot.value.map fun v => (slot.identifier, v)

/-- The slots, the tombstones and the free list agree. -/
structure Valid (b : Backend) (s : Store I) : Prop where
  /-- The tombstones are in the backend's representation. -/
  tombstones : s.tombstones.Valid b
  /-- Every slot has a record. -/
  size_le : s.totalSlots ≤ UInt32.size
  /-- No slot waits twice. -/
  free_nodup : s.free.Nodup
  /-- The waiting slots are those that are not live. -/
  mem_free : ∀ r, r ∈ s.free ↔ r.toNat < s.totalSlots ∧ s.content? r = none
  /-- A tombstoned slot still holds its value. -/
  cached : ∀ r ∈ s.tombstones, (s.value? r).isSome
  /-- The tombstones are counted. -/
  count : s.tombstoneCount = s.tombstones.toList.length

/-! ## Reading -/

theorem content?_of_mem (h : r ∈ s.tombstones) : s.content? r = none := if_pos h

theorem content?_of_not_mem (h : r ∉ s.tombstones) :
    s.content? r = s.slots[r.toNat]?.bind fun slot => slot.value.map fun v => (slot.identifier, v) :=
  if_neg h

/-- What a live record has is its identifier and the value of its slot. -/
theorem content?_eq_some {i : I} :
    s.content? r = some (i, v) ↔
      r ∉ s.tombstones ∧ s.identifier? r = some i ∧ s.value? r = some v := by
  unfold content? identifier? value?
  by_cases hr : r ∈ s.tombstones
  · simp [hr]
  · rw [if_neg hr]
    cases hslot : s.slots[r.toNat]? with
    | none => simp
    | some slot =>
      simp only [Option.bind_some, Option.map_some, Option.some.injEq, Option.map_eq_some_iff,
        Prod.mk.injEq]
      constructor
      · rintro ⟨w, hw, rfl, rfl⟩
        exact ⟨hr, rfl, hw⟩
      · rintro ⟨-, rfl, hw⟩
        exact ⟨v, hw, rfl, rfl⟩

theorem lt_of_value? (h : (s.value? r).isSome) : r.toNat < s.totalSlots := by
  unfold value? at h
  by_contra hge
  rw [Array.getElem?_eq_none (by unfold totalSlots at hge; omega)] at h
  cases h

theorem value?_isSome_of_content? (h : (s.content? r).isSome) : (s.value? r).isSome := by
  obtain ⟨⟨i, v⟩, hcontent⟩ := Option.isSome_iff_exists.1 h
  rw [(content?_eq_some.1 hcontent).2.2]
  rfl

/-- A record is live exactly if it has content. -/
theorem state?_eq_live_iff : s.state? r = some .live ↔ (s.content? r).isSome := by
  unfold state? content?
  by_cases hr : r ∈ s.tombstones
  · have hcontains : s.tombstones.contains r = true := hr
    cases s.slots[r.toNat]? with
    | none => simp
    | some slot => cases hv : slot.value <;> simp [hr, hcontains, hv]
  · have hcontains : ¬ s.tombstones.contains r = true := hr
    cases s.slots[r.toNat]? with
    | none => simp
    | some slot => cases hv : slot.value <;> simp [hr, hcontains, hv]

theorem content?_isSome_or_mem (h : (s.value? r).isSome) : (s.content? r).isSome ∨ r ∈ s.tombstones := by
  by_cases hr : r ∈ s.tombstones
  · exact .inr hr
  · left
    unfold value? at h
    rw [content?_of_not_mem hr]
    cases hslot : s.slots[r.toNat]? with
    | none =>
      rw [hslot] at h
      cases h
    | some slot =>
      rw [hslot, Option.bind_some] at h
      rw [Option.bind_some, Option.isSome_map]
      exact h

/-- A slot still holds a value while its record is live or tombstoned. -/
theorem isSome_value?_iff :
    (s.value? r).isSome ↔ s.state? r = some .live ∨ s.state? r = some .tombstoned := by
  unfold value? state?
  cases s.slots[r.toNat]? with
  | none => simp
  | some slot =>
    cases hv : slot.value with
    | none => simp [hv]
    | some v => cases s.tombstones.contains r <;> simp [hv]

theorem valid_empty (b : Backend) : (empty b : Store I).Valid b where
  tombstones := RecordSet.valid_empty b
  size_le := Nat.zero_le _
  free_nodup := List.nodup_nil
  mem_free r := by simp [empty, totalSlots]
  cached r hr := absurd hr RecordSet.not_mem_empty
  count := by
    rw [empty, RecordSet.toList_empty]
    rfl

theorem Valid.clear (h : s.Valid b) : s.clear.Valid b := by
  rw [Store.clear, h.tombstones.backend_eq]
  exact valid_empty b

/-- With no tombstone counted there is none. -/
theorem Valid.not_mem_of_count (h : s.Valid b) (hcount : s.tombstoneCount = 0) :
    r ∉ s.tombstones := by
  have hnil : s.tombstones.toList = [] := List.length_eq_zero_iff.1 (h.count ▸ hcount)
  rw [← RecordSet.mem_toList h.tombstones, hnil]
  exact List.not_mem_nil

/-! ## Giving a value a slot -/

/-- The record the next value gets, if there is one left. -/
def next? (s : Store I) : Option Record :=
  match s.free with
  | r :: _ => some r
  | [] => if s.totalSlots < UInt32.size then some s.totalSlots.toUInt32 else none

/-- The next record is that of a new slot when none waits, and else the first
that does. -/
theorem next?_cases (hr : s.next? = some r) :
    (s.free = [] ∧ r.toNat = s.totalSlots) ∨ ∃ free, s.free = r :: free := by
  unfold next? at hr
  cases hfree : s.free with
  | nil =>
    rw [hfree] at hr
    simp only at hr
    split at hr
    · rename_i hlt
      rw [Option.some.injEq] at hr
      refine .inl ⟨rfl, ?_⟩
      rw [← hr, toNat_toUInt32 hlt]
    · cases hr
  | cons u free =>
    rw [hfree, Option.some.injEq] at hr
    exact .inr ⟨free, by rw [hr]⟩

/-- A store that took in a value: the record is fresh, has its content from now
on, and no longer waits. -/
structure Took (b : Backend) (identifier : I) (v : Bytes) (r : Record) (s s' : Store I) : Prop where
  /-- The store stays valid. -/
  valid : s'.Valid b
  /-- The record was not live. -/
  fresh : s.content? r = none
  /-- It is live now. -/
  content?_eq : s'.content? = Contents.set s.content? r (some (identifier, v))
  /-- Its slot holds the value. -/
  value?_eq : s'.value? = Contents.set s.value? r (some v)
  /-- It is not tombstoned any more. -/
  mem_tombstones : ∀ u, u ∈ s'.tombstones ↔ u ≠ r ∧ u ∈ s.tombstones
  /-- The first waiting slot was used. -/
  free_eq : s'.free = s.free.tail
  /-- The record has a slot. -/
  totalSlots_eq : s'.totalSlots = max s.totalSlots (r.toNat + 1)
  /-- Its slot is changed, and no other. -/
  getElem?_slots : ∀ u : Record, s'.slots[u.toNat]? =
    if u = r then some ⟨identifier, some v⟩ else s.slots[u.toNat]?

theorem content?_eq_none_of_not_lt (hr : ¬ r.toNat < s.totalSlots) :
    s.content? r = none := by
  cases hcontent : s.content? r with
  | none => rfl
  | some e =>
    have hvalue := value?_isSome_of_content? (s := s) (r := r) (by rw [hcontent]; rfl)
    exact absurd (lt_of_value? hvalue) hr

/-- The next record is not live, and its slot exists or comes right behind the
others. -/
theorem Valid.next?_spec (h : s.Valid b) (hr : s.next? = some r) :
    s.content? r = none ∧ r.toNat ≤ s.totalSlots ∧
      ∀ u, u ∈ s.free.tail ↔ u ≠ r ∧ u ∈ s.free := by
  obtain ⟨hfree, hnat⟩ | ⟨free, hfree⟩ := next?_cases hr
  · rw [hfree]
    refine ⟨content?_eq_none_of_not_lt (by omega), by omega, fun u => by simp⟩
  · have hnodup := h.free_nodup
    rw [hfree, List.nodup_cons] at hnodup
    have hmem : r ∈ s.free := by
      rw [hfree]
      exact List.mem_cons_self
    obtain ⟨hlt, hcontent⟩ := (h.mem_free r).1 hmem
    refine ⟨hcontent, Nat.le_of_lt hlt, fun u => ?_⟩
    rw [hfree, List.tail_cons, List.mem_cons]
    constructor
    · exact fun hu => ⟨fun heq => hnodup.1 (heq ▸ hu), .inr hu⟩
    · exact fun ⟨hne, hu⟩ => hu.resolve_left hne

/-- One slot with a new value, everything else as before: that is taking it in. -/
theorem Valid.took (h : s.Valid b) {s' : Store I} (hr : s.next? = some r)
    (hslots : ∀ u : Record, s'.slots[u.toNat]? =
      if u = r then some ⟨identifier, some v⟩ else s.slots[u.toNat]?)
    (hvalid : s'.tombstones.Valid b) (htombstones : ∀ u, u ∈ s'.tombstones ↔ u ≠ r ∧ u ∈ s.tombstones)
    (hcount : s'.tombstoneCount = s'.tombstones.toList.length) (hfree : s'.free = s.free.tail)
    (htotal : s'.totalSlots = max s.totalSlots (r.toNat + 1)) :
    Took b identifier v r s s' := by
  obtain ⟨hfresh, hle, htail⟩ := h.next?_spec hr
  have hcontent : s'.content? = Contents.set s.content? r (some (identifier, v)) := by
    funext u
    by_cases hu : u = r
    · subst hu
      rw [content?_of_not_mem fun hmem => ((htombstones u).1 hmem).1 rfl, hslots, if_pos rfl,
        Contents.set_self]
      rfl
    · rw [Contents.set_of_ne hu]
      by_cases hmem : u ∈ s.tombstones
      · rw [content?_of_mem hmem, content?_of_mem ((htombstones u).2 ⟨hu, hmem⟩)]
      · rw [content?_of_not_mem hmem, content?_of_not_mem fun hu' => hmem ((htombstones u).1 hu').2,
          hslots, if_neg hu]
  have hvalue : s'.value? = Contents.set s.value? r (some v) := by
    funext u
    by_cases hu : u = r
    · subst hu
      rw [value?, hslots, if_pos rfl, Contents.set_self]
      rfl
    · rw [value?, hslots, if_neg hu, Contents.set_of_ne hu, value?]
  -- the record is a number of 32 bits, so its slot is never one too many
  refine ⟨⟨hvalid, ?_, ?_, ?_, ?_, hcount⟩, hfresh, hcontent, hvalue, htombstones, hfree, htotal,
    hslots⟩
  · have := h.size_le
    have := r.toNat_lt
    rw [htotal]
    simp only [UInt32.size] at *
    omega
  · rw [hfree]
    exact h.free_nodup.sublist (List.tail_sublist s.free)
  · intro u
    rw [hfree, htail, h.mem_free, hcontent, htotal]
    by_cases hu : u = r
    · subst hu
      simp [Contents.set_self]
    · have hne : u.toNat ≠ r.toNat := fun heq => hu (UInt32.toNat_inj.1 heq)
      rw [Contents.set_of_ne hu, and_iff_right hu]
      exact and_congr_left fun _ => by omega
  · intro u hu
    obtain ⟨hne, hmem⟩ := (htombstones u).1 hu
    rw [hvalue, Contents.set_of_ne hne]
    exact h.cached u hmem

theorem acquire_of_full (hfree : s.free = []) (hfull : ¬ s.totalSlots < UInt32.size) :
    s.acquire identifier v = (.error (.capacityExceeded s.totalSlots), s) := by
  obtain ⟨slots, tombstones, count, free⟩ := s
  subst hfree
  exact if_neg hfull

theorem acquire_of_free_nil (identifier : I) (v : Bytes) (hfree : s.free = [])
    (hr : r.toNat = s.totalSlots) :
    s.acquire identifier v =
      (.ok ⟨r, none, false⟩,
        ⟨s.slots.push ⟨identifier, some v⟩, s.tombstones, s.tombstoneCount, []⟩) := by
  have hlt : s.totalSlots < UInt32.size := hr ▸ r.toNat_lt
  have hnew : s.totalSlots.toUInt32 = r := UInt32.toNat_inj.1 ((toNat_toUInt32 hlt).trans hr.symm)
  rw [← hnew]
  obtain ⟨slots, tombstones, count, free⟩ := s
  subst hfree
  exact if_pos hlt

theorem acquire_of_free_cons (identifier : I) (v : Bytes) {free : List Record}
    (hfree : s.free = r :: free) {slot : Slot I} (hslot : s.slots[r.toNat]? = some slot) :
    s.acquire identifier v =
      (.ok ⟨r, slot.value, true⟩,
        ⟨s.slots.modify r.toNat fun _ => ⟨identifier, some v⟩, s.tombstones.erase r,
          if r ∈ s.tombstones then s.tombstoneCount - 1 else s.tombstoneCount, free⟩) := by
  obtain ⟨slots, tombstones, count, rest⟩ := s
  simp only at hfree hslot
  subst hfree
  simp only [acquire, hslot]
  rfl

/-- With no record waiting, a value gets a new slot. -/
theorem Valid.acquire_of_free_nil (h : s.Valid b) (hr : s.next? = some r) (hfree : s.free = [])
    (hnat : r.toNat = s.totalSlots) (identifier : I) (v : Bytes) :
    ∃ s', s.acquire identifier v = (.ok ⟨r, s.value? r, !s.free.isEmpty⟩, s') ∧
      Took b identifier v r s s' := by
  have hvalue : s.value? r = none := by
    rw [value?, Array.getElem?_eq_none (Nat.le_of_eq hnat.symm)]
    rfl
  -- the slot is new, so its record was never tombstoned
  have hnotmem : r ∉ s.tombstones := by
    intro hmem
    have := h.cached r hmem
    rw [hvalue] at this
    cases this
  rw [hvalue, hfree]
  refine ⟨_, Store.acquire_of_free_nil identifier v hfree hnat,
    h.took hr ?_ h.tombstones ?_ h.count ?_ ?_⟩
  · intro u
    rw [Array.getElem?_push]
    by_cases hu : u = r
    · subst hu
      rw [if_pos (show u.toNat = s.slots.size from hnat), if_pos rfl]
    · have hne : u.toNat ≠ s.slots.size := fun heq => hu (UInt32.toNat_inj.1 (heq.trans hnat.symm))
      rw [if_neg hne, if_neg hu]
  · intro u
    refine (and_iff_right_of_imp fun hu => ?_).symm
    rintro rfl
    exact hnotmem hu
  · rw [hfree]
    rfl
  · rw [totalSlots, Array.size_push, hnat, totalSlots]
    omega

/-- Otherwise it gets that of the first record that waits, and with it what the
slot still held. -/
theorem Valid.acquire_of_free_cons (h : s.Valid b) (hr : s.next? = some r) {free : List Record}
    (hfree : s.free = r :: free) (identifier : I) (v : Bytes) :
    ∃ s', s.acquire identifier v = (.ok ⟨r, s.value? r, !s.free.isEmpty⟩, s') ∧
      Took b identifier v r s s' := by
  have hwaits : r ∈ s.free := by
    rw [hfree]
    exact List.mem_cons_self
  have hlt : r.toNat < s.slots.size := ((h.mem_free r).1 hwaits).1
  obtain ⟨slot, hslot⟩ : ∃ slot, s.slots[r.toNat]? = some slot := ⟨_, Array.getElem?_eq_getElem hlt⟩
  have hvalue : s.value? r = slot.value := by
    rw [value?, hslot]
    rfl
  rw [hvalue, hfree]
  refine ⟨_, Store.acquire_of_free_cons identifier v hfree hslot,
    h.took hr ?_ (h.tombstones.erase r) (fun u => RecordSet.mem_erase) ?_ ?_ ?_⟩
  · intro u
    rw [Array.getElem?_modify]
    by_cases hu : u = r
    · subst hu
      rw [if_pos rfl, if_pos rfl, hslot]
      rfl
    · have hne : r.toNat ≠ u.toNat := fun heq => hu (UInt32.toNat_inj.1 heq.symm)
      rw [if_neg hne, if_neg hu]
  · by_cases hmem : r ∈ s.tombstones
    · have := RecordSet.length_toList_erase h.tombstones hmem
      simp only [if_pos hmem, h.count]
      omega
    · simp only [if_neg hmem, RecordSet.toList_erase_of_not_mem h.tombstones hmem, h.count]
  · rw [hfree]
    rfl
  · rw [totalSlots, Array.size_modify, totalSlots]
    omega

/-- **A value gets the next record**, and is told what its slot still held. -/
theorem Valid.acquire_of_next? (h : s.Valid b) (hr : s.next? = some r) (identifier : I) (v : Bytes) :
    ∃ s', s.acquire identifier v = (.ok ⟨r, s.value? r, !s.free.isEmpty⟩, s') ∧
      Took b identifier v r s s' := by
  obtain ⟨hfree, hnat⟩ | ⟨free, hfree⟩ := next?_cases hr
  · exact h.acquire_of_free_nil hr hfree hnat identifier v
  · exact h.acquire_of_free_cons hr hfree identifier v

/-- Without a next record nothing waits and every slot there can be is made. -/
theorem full_of_next?_eq_none (hr : s.next? = none) : s.free = [] ∧ UInt32.size ≤ s.totalSlots := by
  unfold next? at hr
  cases hfree : s.free with
  | nil =>
    rw [hfree] at hr
    simp only at hr
    split at hr
    · cases hr
    · exact ⟨rfl, by omega⟩
  | cons r' free =>
    rw [hfree] at hr
    cases hr

/-- **Only a full store turns a value away**, and stays as it was. -/
theorem Valid.acquire_of_next?_eq_none (h : s.Valid b) (hr : s.next? = none) (identifier : I)
    (v : Bytes) : s.acquire identifier v = (.error (.capacityExceeded UInt32.size), s) := by
  obtain ⟨hfree, hfull⟩ := full_of_next?_eq_none hr
  have htotal : s.totalSlots = UInt32.size := Nat.le_antisymm h.size_le hfull
  rw [acquire_of_full hfree (by omega), htotal]

/-- Then every record is live. -/
theorem Valid.isSome_content?_of_full (h : s.Valid b) (hr : s.next? = none) (r : Record) :
    (s.content? r).isSome := by
  obtain ⟨hfree, hfull⟩ := full_of_next?_eq_none hr
  have hlt := r.toNat_lt
  cases hcontent : s.content? r with
  | some e => rfl
  | none =>
    have hmem := (h.mem_free r).2 ⟨Nat.lt_of_lt_of_le hlt hfull, hcontent⟩
    rw [hfree] at hmem
    cases hmem

end Store

end WildcardIndex
