import WildcardIndex.Proofs.Counting
import WildcardIndex.Proofs.Store.History
/-!
# The store — the life of a record

After any calls on a store its free list, its tombstones with their count, and
its live records account for every slot once, and each of them is what the
history says. So a value always finds a slot while there is one left: the one
freed last, or a new one. It is told of an older value exactly if that one was
never purged, and no other slot changes.
-/

namespace WildcardIndex

variable {I : Type} {b : Backend} {r : Record}

namespace Store

variable {s s' : Store I} {past : History I} {identifier : I} {v : Bytes} {a : Acquired}

/-! ## Counting slots -/

theorem Valid.mem_map_live (h : s.Valid b) :
    r ∈ s.live.map Prod.fst ↔ s.state? r = some .live := by
  rw [state?_eq_live_iff, Option.isSome_iff_exists, List.mem_map]
  constructor
  · rintro ⟨⟨r, i⟩, hmem, rfl⟩
    obtain ⟨v, hv⟩ := h.mem_live.1 hmem
    exact ⟨(i, v), hv⟩
  · rintro ⟨⟨i, v⟩, hv⟩
    exact ⟨(r, i), h.mem_live.2 ⟨v, hv⟩, rfl⟩

/-- **Every slot is live or waits**, and none does both. -/
theorem Valid.length_live_add (h : s.Valid b) : s.live.length + s.freeSlots = s.totalSlots := by
  have hsize := h.size_le
  have hnodup : (s.live.map Prod.fst ++ s.free).Nodup := by
    refine List.nodup_append'.2 ⟨h.nodup_live, h.free_nodup, fun r hlive hfree => ?_⟩
    rw [h.mem_map_live] at hlive
    rw [h.mem_free_iff, hlive] at hfree
    rcases hfree with hfree | hfree <;> cases hfree
  have hrange : ((List.range s.totalSlots).map Nat.toUInt32).Nodup := by
    refine (List.nodup_map_iff_inj_on List.nodup_range).2 fun m hm n hn heq => ?_
    rw [List.mem_range] at hm hn
    rw [← toNat_toUInt32 (by omega : m < UInt32.size), heq, toNat_toUInt32 (by omega)]
  have hperm : (s.live.map Prod.fst ++ s.free).Perm ((List.range s.totalSlots).map Nat.toUInt32) := by
    refine (List.perm_ext_iff_of_nodup hnodup hrange).2 fun r => ?_
    have hslot : r ∈ (List.range s.totalSlots).map Nat.toUInt32 ↔ r.toNat < s.totalSlots := by
      rw [List.mem_map]
      constructor
      · rintro ⟨n, hn, rfl⟩
        rw [List.mem_range] at hn
        rw [toNat_toUInt32 (by omega)]
        exact hn
      · exact fun hr => ⟨r.toNat, List.mem_range.2 hr, UInt32.ofNat_toNat⟩
    rw [List.mem_append, h.mem_map_live, h.mem_free_iff, hslot, ← isSome_state?_iff]
    cases s.state? r with
    | none => simp
    | some state => cases state <;> simp
  have hlength := hperm.length_eq
  rw [List.length_append, List.length_map, List.length_map, List.length_range] at hlength
  exact hlength

theorem Valid.length_live (h : s.Valid b) : s.live.length = s.activeRecords := by
  rw [activeRecords, ← h.length_live_add, Nat.add_sub_cancel]

/-- A tombstoned record was counted. -/
theorem Valid.tombstoneCount_pos (h : s.Valid b) (hr : r ∈ s.tombstones) : 0 < s.tombstoneCount := by
  rw [h.count]
  exact List.length_pos_of_mem ((RecordSet.mem_toList h.tombstones).2 hr)

/-- What was not purged yet waits already. -/
theorem Valid.tombstoneCount_le (h : s.Valid b) : s.tombstoneCount ≤ s.freeSlots := by
  have hsub : s.tombstones.toList ⊆ s.free := by
    intro r hr
    rw [RecordSet.mem_toList h.tombstones] at hr
    exact (h.mem_free r).2 ⟨lt_of_value? (h.cached r hr), content?_of_mem hr⟩
  rw [h.count]
  exact ((RecordSet.nodup_toList h.tombstones).subperm hsub).length_le

/-- **A slot is made only for one live record more than there are slots.** -/
theorem Valid.totalSlots_of_took (h : s.Valid b) (hr : s.next? = some r)
    (htook : Took b identifier v r s s') :
    s'.totalSlots = max s.totalSlots (s.live.length + 1) := by
  have hcount := h.length_live_add
  rw [htook.totalSlots_eq]
  obtain ⟨hfree, hnat⟩ | ⟨free, hfree⟩ := next?_cases hr
  · rw [freeSlots, hfree, List.length_nil] at hcount
    omega
  · -- a slot waits, so there is one for the record and one for each live one
    have hlt := ((h.mem_free r).1 (hfree ▸ List.mem_cons_self)).1
    rw [freeSlots, hfree, List.length_cons] at hcount
    omega

/-! ## The accounts -/

/-- Every account of a store is right, and is what the history tells. -/
structure Accounts (past : History I) (s : Store I) : Prop where
  /-- Every record is in the state it came to. -/
  state?_eq : ∀ r, s.state? r = past.state? r
  /-- While a slot holds a value, it is the one its record was last given to. -/
  cached : ∀ r, s.state? r = some .live ∨ s.state? r = some .tombstoned →
    ∃ i v, past.acquired? r = some (i, v) ∧ s.identifier? r = some i ∧ s.value? r = some v
  /-- The free list is the records deleted and not given out since. -/
  free_eq : s.free = past.waiting
  /-- No slot waits twice. -/
  free_nodup : s.free.Nodup
  /-- Only slots there are wait. -/
  free_lt : ∀ r ∈ s.free, r.toNat < s.totalSlots
  /-- The slots that wait are those deleted, purged or not. -/
  mem_free : ∀ r, r ∈ s.free ↔ s.state? r = some .tombstoned ∨ s.state? r = some .vacant
  /-- The tombstones are the records deleted and not purged. -/
  mem_tombstones : ∀ r, r ∈ s.tombstones ↔ s.state? r = some .tombstoned
  /-- They are counted. -/
  tombstoneCount_eq : s.tombstoneCount = {r | r ∈ s.tombstones}.ncard
  /-- Taking one off its count does not run below zero. -/
  tombstoneCount_pos : ∀ r ∈ s.tombstones, 0 < s.tombstoneCount
  /-- Nor does taking the waiting slots off all slots. -/
  freeSlots_le : s.freeSlots ≤ s.totalSlots
  /-- The live records are counted. -/
  activeRecords_eq : s.activeRecords = {r | s.state? r = some .live}.ncard
  /-- As many are listed. -/
  length_live : s.live.length = s.activeRecords
  /-- The listing ascends. -/
  live_ascending : s.live.Pairwise fun x y => x.1 < y.1
  /-- It has the live records with their identifiers, and nothing else. -/
  mem_live : ∀ r i, (r, i) ∈ s.live ↔ s.state? r = some .live ∧ s.identifier? r = some i

theorem Recalls.cached (h : Recalls b past s)
    (hr : s.state? r = some .live ∨ s.state? r = some .tombstoned) :
    ∃ i v, past.acquired? r = some (i, v) ∧ s.identifier? r = some i ∧ s.value? r = some v := by
  obtain ⟨v, hv⟩ := Option.isSome_iff_exists.1 (isSome_value?_iff.2 hr)
  obtain ⟨⟨i, w⟩, hpast, rfl⟩ := Option.map_eq_some_iff.1 (h.value?_eq r v hv)
  refine ⟨i, w, hpast, ?_, hv⟩
  rw [h.identifier?_eq, hpast]
  rfl

/-- **A store that recalls its history keeps its accounts.** -/
theorem Recalls.accounts (h : Recalls b past s) : Accounts past s := by
  have hcount := h.valid.length_live_add
  have hactive := h.valid.length_live
  have htombstones : s.tombstoneCount = {r | r ∈ s.tombstones}.ncard := by
    rw [h.valid.count, RecordSet.ncard_eq h.valid.tombstones]
  refine ⟨h.state?_eq, fun r hr => h.cached hr, h.free_eq, h.valid.free_nodup,
    fun r hr => ((h.valid.mem_free r).1 hr).1, fun r => h.valid.mem_free_iff,
    fun r => h.valid.state?_eq_tombstoned_iff.symm, htombstones,
    fun r hr => h.valid.tombstoneCount_pos hr, by omega, ?_, hactive, h.valid.pairwise_live, fun r i => ?_⟩
  · rw [← hactive, ← List.length_map Prod.fst, ← ncard_setOf_mem h.valid.nodup_live]
    simp only [h.valid.mem_map_live]
  · rw [h.valid.mem_live, state?_eq_live_iff]
    simp only [content?_eq_some]
    constructor
    · rintro ⟨v, hr, hi, hv⟩
      refine ⟨?_, hi⟩
      rw [content?_eq_some.2 ⟨hr, hi, hv⟩]
      rfl
    · rintro ⟨hlive, hi⟩
      obtain ⟨⟨j, v⟩, hcontent⟩ := Option.isSome_iff_exists.1 hlive
      obtain ⟨hr, -, hv⟩ := content?_eq_some.1 hcontent
      exact ⟨v, hr, hi, hv⟩

/-! ## Giving out records -/

/-- A value was given the record that is due, and nothing else happened. -/
structure GivenNext (past : History I) (identifier : I) (v : Bytes) (a : Acquired) (s s' : Store I) :
    Prop where
  /-- The record freed last is due, and a new one if none waits. -/
  due : past.waiting.head? = some a.record ∨ past.waiting = [] ∧ a.record.toNat = s.totalSlots
  /-- A slot is reused if one waits. -/
  reused : a.reused = true ↔ past.waiting ≠ []
  /-- The record was not live. -/
  not_live : s.state? a.record ≠ some .live
  /-- It is told of the value it was last given to if that was not purged. -/
  stale : ∀ w, a.stale = some w ↔
    s.state? a.record = some .tombstoned ∧ ∃ i, past.acquired? a.record = some (i, w)
  /-- The record is live. -/
  live : s'.state? a.record = some .live
  /-- Its slot holds the value. -/
  slot : s'.slots[a.record.toNat]? = some ⟨identifier, some v⟩
  /-- Every other slot is as it was, in the state it was in. -/
  others : ∀ u, u ≠ a.record → s'.slots[u.toNat]? = s.slots[u.toNat]? ∧ s'.state? u = s.state? u

theorem Recalls.givenNext (h : Recalls b past s) (hr : s.next? = some r)
    (htook : Took b identifier v r s s') :
    GivenNext past identifier v ⟨r, s.value? r, !s.free.isEmpty⟩ s s' where
  due := by
    rw [← h.free_eq]
    obtain ⟨hfree, hnat⟩ | ⟨free, hfree⟩ := next?_cases hr
    · exact .inr ⟨hfree, hnat⟩
    · rw [hfree]
      exact .inl rfl
  reused := by simp [h.free_eq]
  not_live := by
    rw [Ne, state?_eq_live_iff, htook.fresh]
    exact Bool.false_ne_true
  stale w := by
    have hlive : s.state? r ≠ some .live := by
      rw [Ne, state?_eq_live_iff, htook.fresh]
      exact Bool.false_ne_true
    constructor
    · intro hw
      have hstate := (isSome_value?_iff.1 (Option.isSome_of_mem hw)).resolve_left hlive
      obtain ⟨i, w', hpast, -, hw'⟩ := h.cached (.inr hstate)
      cases hw.symm.trans hw'
      exact ⟨hstate, i, hpast⟩
    · rintro ⟨hstate, i, hpast⟩
      obtain ⟨j, w', hpast', -, hw'⟩ := h.cached (.inr hstate)
      cases hpast.symm.trans hpast'
      exact hw'
  live := by
    rw [state?_eq_live_iff, htook.content?_eq, Contents.set_self]
    rfl
  slot := by rw [htook.getElem?_slots, if_pos rfl]
  others u hu := by
    have hslot : s'.slots[u.toNat]? = s.slots[u.toNat]? := by rw [htook.getElem?_slots, if_neg hu]
    refine ⟨hslot, state?_congr hslot ?_⟩
    rw [htook.mem_tombstones]
    exact and_iff_right hu

/-- **After any calls, the accounts of a store are what its history tells.** The
next value is given the record that is due, and turned away only if every record
there can be is live. A live record is deleted when that is asked for, and one
that is not live is left alone. A live record keeps its identifier and its value
until it is deleted itself or all slots are dropped. -/
theorem accounts_after_calls (b : Backend) (actions : List (Action I)) :
    let told := (empty b : Store I).actAll [] actions
    let past := told.1
    let s := told.2
    Accounts past s ∧
      (∀ identifier v, match s.acquire identifier v with
        | (.ok a, s') => GivenNext past identifier v a s s'
        | (.error e, s') => e = .capacityExceeded UInt32.size ∧ s.totalSlots = UInt32.size ∧
          past.waiting = [] ∧ s' = s) ∧
      (∀ r, if s.state? r = some .live then ∃ s', s.tombstone r = (true, s') ∧ Deleted r s s'
        else s.tombstone r = (false, s)) ∧
      ∀ r later, s.state? r = some .live → .clear ∉ later → .tombstone r ∉ later →
        let s' := (s.actAll past later).2
        s'.state? r = some .live ∧ s'.identifier? r = s.identifier? r ∧
          s'.value? r = s.value? r := by
  intro told past s
  have h : Recalls b past s := (recalls_empty b).actAll actions
  refine ⟨h.accounts, fun identifier v => ?_, fun r => ?_, fun r later hr hclear hdelete => ?_⟩
  · cases hr : s.next? with
    | none =>
      obtain ⟨hfree, hfull⟩ := full_of_next?_eq_none hr
      have htotal := Nat.le_antisymm h.valid.size_le hfull
      rw [h.valid.acquire_of_next?_eq_none hr]
      exact ⟨rfl, htotal, h.free_eq ▸ hfree, rfl⟩
    | some r =>
      obtain ⟨s', hacquire, htook⟩ := h.valid.acquire_of_next? hr identifier v
      rw [hacquire]
      exact h.givenNext hr htook
  · split
    · rename_i hr
      obtain ⟨s', hmark, -, hdeleted⟩ := h.valid.tombstone_spec hr
      exact ⟨s', hmark, hdeleted⟩
    · rename_i hr
      exact if_neg hr
  · obtain ⟨⟨i, v⟩, hcontent⟩ := Option.isSome_iff_exists.1 (state?_eq_live_iff.1 hr)
    obtain ⟨-, hi, hv⟩ := content?_eq_some.1 hcontent
    have hlater := h.content?_actAll hcontent hclear hdelete
    obtain ⟨-, hi', hv'⟩ := content?_eq_some.1 hlater
    refine ⟨?_, hi'.trans hi.symm, hv'.trans hv.symm⟩
    rw [state?_eq_live_iff, hlater]
    rfl

/-- Two records wait, the first of them purged: the one deleted last is due, and
only it is told of its value. -/
example :
    let s := ((empty .dense : Store Nat).actAll [] [.acquire 1 [97], .acquire 2 [98],
      .tombstone 0, .drain, .tombstone 1]).2
    (s.acquire 3 [99]).1 = .ok ⟨1, some [98], true⟩ ∧
      ((s.acquire 3 [99]).2.acquire 4 []).1 = .ok ⟨0, none, true⟩ := ⟨rfl, rfl⟩

end Store

end WildcardIndex
