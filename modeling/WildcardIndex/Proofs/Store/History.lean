import Mathlib.Data.Set.Card
import WildcardIndex.Proofs.Store.Live
/-!
# The store — what its history tells

Calls on a store leave a **history** behind: which record was given to which
value, which records were deleted, when they were purged, the last event first.
A store remembers little of it — a cached value, a set with its size, a stack of
records — and the history says what all of that has to be. Every call keeps it
so. The free list is the records deleted and not given out since, so a record is
never handed to two values, and no count runs below zero.
-/

namespace WildcardIndex

namespace Store

/-- A call on a store. -/
inductive Action (I : Type) where
  /-- Give a value a slot. -/
  | acquire (identifier : I) (v : Bytes)
  /-- Mark a record deleted, whatever it is. -/
  | tombstone (r : Record)
  /-- Purge the tombstoned records. -/
  | drain
  /-- Drop every slot. -/
  | clear

/-- What came of a call that changed something. -/
inductive Fact (I : Type) where
  /-- A record was given to a value. -/
  | acquired (r : Record) (identifier : I) (v : Bytes)
  /-- A live record was deleted. -/
  | deleted (r : Record)
  /-- The deleted records were purged. -/
  | purged
  /-- Every slot was dropped. -/
  | cleared

/-- What came of the calls so far, the last one first. -/
abbrev History (I : Type) := List (Fact I)

namespace History

variable {I : Type}

/-- The identifier and the value a record was last given to. -/
def acquired? : History I → Record → Option (I × Bytes)
  | [], _ => none
  | .acquired u identifier v :: past, r =>
    if r = u then some (identifier, v) else acquired? past r
  | .deleted _ :: past, r => acquired? past r
  | .purged :: past, r => acquired? past r
  | .cleared :: _, _ => none

/-- What became of a record since. -/
def state? : History I → Record → Option SlotState
  | [], _ => none
  | .acquired u _ _ :: past, r => if r = u then some .live else state? past r
  | .deleted u :: past, r => if r = u then some .tombstoned else state? past r
  | .purged :: past, r =>
    (state? past r).map fun state => if state = .tombstoned then .vacant else state
  | .cleared :: _, _ => none

/-- The records deleted and not given out since, the last one deleted first. -/
def waiting : History I → List Record
  | [] => []
  | .acquired u _ _ :: past => (waiting past).filter (· != u)
  | .deleted u :: past => u :: waiting past
  | .purged :: past => waiting past
  | .cleared :: _ => []

end History

variable {I : Type} {b : Backend} {s s' t : Store I} {past : History I} {r u : Record}
variable {identifier : I} {v : Bytes} {e : I × Bytes}

/-- Makes one call: what came of it, and the store after. -/
def act (s : Store I) : Action I → History I × Store I
  | .acquire identifier v =>
    match s.acquire identifier v with
    | (.ok a, s) => ([.acquired a.record identifier v], s)
    | (.error _, s) => ([], s)
  | .tombstone r =>
    let (marked, s) := s.tombstone r
    (if marked then [.deleted r] else [], s)
  | .drain => ([.purged], s.drain.2)
  | .clear => ([.cleared], s.clear)

/-- Makes calls one after the other, which adds to the history. -/
def actAll (s : Store I) (past : History I) : List (Action I) → History I × Store I
  | [] => (past, s)
  | action :: actions =>
    let (facts, s) := s.act action
    s.actAll (facts ++ past) actions

/-! ## States of slots -/

/-- The state of a record is read off its slot and the tombstones. -/
theorem state?_congr (hslot : s.slots[r.toNat]? = t.slots[r.toNat]?)
    (hmem : r ∈ s.tombstones ↔ r ∈ t.tombstones) : s.state? r = t.state? r := by
  have hcontains : s.tombstones.contains r = t.tombstones.contains r := Bool.eq_iff_iff.2 hmem
  rw [state?, state?, hslot, hcontains]

theorem isSome_state?_iff : (s.state? r).isSome ↔ r.toNat < s.totalSlots := by
  simp [state?, totalSlots]

theorem Valid.state?_eq_tombstoned_iff (h : s.Valid b) :
    s.state? r = some .tombstoned ↔ r ∈ s.tombstones := by
  constructor
  · intro hstate
    by_contra hr
    have hcontains : s.tombstones.contains r = false := Bool.not_eq_true _ ▸ hr
    simp only [state?, hcontains, Option.map_eq_some_iff] at hstate
    obtain ⟨slot, -, hslot⟩ := hstate
    cases hv : slot.value <;> simp [hv] at hslot
  · intro hr
    -- a tombstone still holds a value, so its slot is not vacant
    have hvalue := h.cached r hr
    have hlive : s.state? r ≠ some .live := by
      rw [Ne, state?_eq_live_iff, content?_of_mem hr]
      exact Bool.false_ne_true
    exact (isSome_value?_iff.1 hvalue).resolve_left hlive

/-- What is not live has been deleted, and was purged or not. -/
theorem Valid.mem_free_iff (h : s.Valid b) :
    r ∈ s.free ↔ s.state? r = some .tombstoned ∨ s.state? r = some .vacant := by
  have hlive := state?_eq_live_iff (s := s) (r := r)
  have hsome := isSome_state?_iff (s := s) (r := r)
  rw [h.mem_free, ← hsome, ← Option.not_isSome_iff_eq_none, ← hlive]
  cases hstate : s.state? r with
  | none => simp
  | some state => cases state <;> simp

/-! ## The history tells the store -/

/-- The store is as its history tells. -/
structure Recalls (b : Backend) (past : History I) (s : Store I) : Prop where
  /-- The store is valid. -/
  valid : s.Valid b
  /-- Every record is in the state it came to. -/
  state?_eq : ∀ r, s.state? r = past.state? r
  /-- A slot has the identifier its record was last given to. -/
  identifier?_eq : ∀ r, s.identifier? r = (past.acquired? r).map Prod.fst
  /-- What a slot still holds is the value its record was last given to. -/
  value?_eq : ∀ r v, s.value? r = some v → (past.acquired? r).map Prod.snd = some v
  /-- The free list is the records that wait. -/
  free_eq : s.free = past.waiting

theorem recalls_empty (b : Backend) : Recalls b [] (empty b : Store I) where
  valid := valid_empty b
  state?_eq r := by simp [state?, empty, History.state?]
  identifier?_eq r := by simp [identifier?, empty, History.acquired?]
  value?_eq r v hv := by simp [value?, empty] at hv
  free_eq := rfl

/-- Giving out the next record takes it, and only it, off those that wait. -/
theorem Valid.tail_free (h : s.Valid b) (hr : s.next? = some r) :
    s.free.tail = s.free.filter (· != r) := by
  obtain ⟨hfree, -⟩ | ⟨free, hfree⟩ := next?_cases hr
  · rw [hfree]
    rfl
  · have hnodup := h.free_nodup
    rw [hfree, List.nodup_cons] at hnodup
    rw [hfree, List.tail_cons, List.filter_cons_of_neg (by simp), eq_comm, List.filter_eq_self]
    intro u hu
    rw [bne_iff_ne]
    rintro rfl
    exact hnodup.1 hu

theorem Recalls.took (h : Recalls b past s) (hr : s.next? = some r)
    (htook : Took b identifier v r s s') :
    Recalls b (.acquired r identifier v :: past) s' where
  valid := htook.valid
  state?_eq u := by
    rw [History.state?]
    split
    · rename_i hu
      rw [hu, state?_eq_live_iff, htook.content?_eq, Contents.set_self]
      rfl
    · rename_i hu
      rw [← h.state?_eq u]
      refine state?_congr ?_ ?_
      · rw [htook.getElem?_slots, if_neg hu]
      · rw [htook.mem_tombstones]
        exact and_iff_right hu
  identifier?_eq u := by
    rw [identifier?, htook.getElem?_slots, History.acquired?]
    split
    · rfl
    · exact h.identifier?_eq u
  value?_eq u w hw := by
    rw [value?, htook.getElem?_slots] at hw
    rw [History.acquired?]
    split
    · rename_i hu
      rw [if_pos hu] at hw
      exact hw
    · rename_i hu
      rw [if_neg hu] at hw
      exact h.value?_eq u w hw
  free_eq := by
    rw [htook.free_eq, h.valid.tail_free hr, h.free_eq]
    rfl

/-- Marking changes no slot. -/
theorem slots_tombstone (s : Store I) (r : Record) : (s.tombstone r).2.slots = s.slots := by
  unfold tombstone
  split <;> rfl

/-- A live record was deleted, and nothing else happened. -/
structure Deleted (r : Record) (s s' : Store I) : Prop where
  /-- The record is tombstoned. -/
  tombstoned : s'.state? r = some .tombstoned
  /-- It is due next. -/
  free_eq : s'.free = r :: s.free
  /-- Every slot holds what it held, its own among them. -/
  slots_eq : s'.slots = s.slots
  /-- Every other record is in the state it was in. -/
  others : ∀ u, u ≠ r → s'.state? u = s.state? u

/-- **A live record can always be deleted.** -/
theorem Valid.tombstone_spec (h : s.Valid b) (hr : s.state? r = some .live) :
    ∃ s', s.tombstone r = (true, s') ∧ s'.Valid b ∧ Deleted r s s' := by
  obtain ⟨s', hmark, hmarked⟩ := h.tombstone_of_live (state?_eq_live_iff.1 hr)
  have hslots : s'.slots = s.slots := by rw [← slots_tombstone s r, hmark]
  refine ⟨s', hmark, hmarked.valid, ?_, hmarked.free_eq, hslots, fun u hu => ?_⟩
  · rw [hmarked.valid.state?_eq_tombstoned_iff, hmarked.mem_tombstones]
    exact .inl (List.mem_singleton_self r)
  · refine state?_congr (by rw [hslots]) ?_
    rw [hmarked.mem_tombstones, List.mem_singleton]
    exact or_iff_right hu

theorem Recalls.deleted (h : Recalls b past s) (hvalid : s'.Valid b) (hdeleted : Deleted r s s') :
    Recalls b (.deleted r :: past) s' where
  valid := hvalid
  state?_eq u := by
    rw [History.state?]
    split
    · rename_i hu
      rw [hu, hdeleted.tombstoned]
    · rename_i hu
      rw [hdeleted.others u hu, h.state?_eq]
  identifier?_eq u := by
    rw [identifier?, hdeleted.slots_eq]
    exact h.identifier?_eq u
  value?_eq u w hw := by
    rw [value?, hdeleted.slots_eq] at hw
    exact h.value?_eq u w hw
  free_eq := by
    rw [hdeleted.free_eq, h.free_eq]
    rfl

/-- Purging leaves every slot its identifier. -/
theorem identifier?_drain (s : Store I) (r : Record) :
    s.drain.2.identifier? r = s.identifier? r := by
  have hslots := getElem?_foldl_modify (f := fun slot : Slot I => { slot with value := none })
    (fun _ => rfl) s.tombstones.toList s.slots r
  simp only [identifier?, drain, hslots, Option.map_map]
  refine congrArg (Option.map · _) (funext fun slot => ?_)
  simp only [Function.comp_apply]
  split <;> rfl

theorem Recalls.purged (h : Recalls b past s) (hdrained : Drained b s s')
    (hidentifier : ∀ r, s'.identifier? r = s.identifier? r) : Recalls b (.purged :: past) s' where
  valid := hdrained.valid
  state?_eq u := by
    have hlive : s'.state? u = some .live ↔ s.state? u = some .live := by
      rw [state?_eq_live_iff, state?_eq_live_iff, hdrained.content?_eq]
    have htombstoned : s'.state? u ≠ some .tombstoned := by
      rw [Ne, hdrained.valid.state?_eq_tombstoned_iff]
      exact hdrained.not_mem_tombstones u
    have hsome : (s'.state? u).isSome ↔ (s.state? u).isSome := by
      rw [isSome_state?_iff, isSome_state?_iff, hdrained.totalSlots_eq]
    rw [History.state?, ← h.state?_eq u]
    -- live stays live, and of the others none is tombstoned any more
    cases hstate : s.state? u with
    | none =>
      rw [hstate] at hsome
      simpa using hsome
    | some state =>
      rw [hstate] at hsome hlive
      obtain ⟨state', hstate'⟩ := Option.isSome_iff_exists.1 (hsome.2 rfl)
      rw [hstate'] at hlive htombstoned ⊢
      cases state <;> cases state' <;> simp_all
  identifier?_eq u := by
    rw [hidentifier]
    exact h.identifier?_eq u
  value?_eq u w hw := by
    rw [hdrained.value?_eq, Contents.without_eq_some] at hw
    exact h.value?_eq u w hw.2
  free_eq := by
    rw [hdrained.free_eq, h.free_eq]
    rfl

theorem Recalls.cleared (h : Recalls b past s) : Recalls b (.cleared :: past) s.clear := by
  rw [clear, h.valid.tombstones.backend_eq]
  exact { recalls_empty b with }

/-! ## Runs -/

/-- **Every call adds to the history what the store then recalls.** -/
theorem Recalls.act (h : Recalls b past s) (action : Action I) :
    Recalls b ((s.act action).1 ++ past) (s.act action).2 := by
  cases action with
  | acquire identifier v =>
    cases hr : s.next? with
    | none =>
      simp only [Store.act, h.valid.acquire_of_next?_eq_none hr]
      exact h
    | some r =>
      obtain ⟨s', hacquire, htook⟩ := h.valid.acquire_of_next? hr identifier v
      simp only [Store.act, hacquire]
      exact h.took hr htook
  | tombstone r =>
    by_cases hr : s.state? r = some .live
    · obtain ⟨s', hmark, hvalid, hdeleted⟩ := h.valid.tombstone_spec hr
      simp only [Store.act, hmark, if_true]
      exact h.deleted hvalid hdeleted
    · have hmark : s.tombstone r = (false, s) := if_neg hr
      simp only [Store.act, hmark]
      exact h
  | drain =>
    obtain ⟨s', hdrain, -, hdrained⟩ := h.valid.drain_spec
    have hidentifier := identifier?_drain s
    rw [hdrain] at hidentifier
    simp only [Store.act, hdrain]
    exact h.purged hdrained hidentifier
  | clear => exact h.cleared

/-- **So a store recalls the history of any run.** -/
theorem Recalls.actAll (h : Recalls b past s) (actions : List (Action I)) :
    Recalls b (s.actAll past actions).1 (s.actAll past actions).2 := by
  induction actions generalizing past s with
  | nil => exact h
  | cons action actions ih => exact ih (h.act action)

/-- **A live record stays what it is** through every call but its own deletion
and a clearing. -/
theorem Recalls.content?_act (h : Recalls b past s) (hr : s.content? r = some e)
    {action : Action I} (hclear : action ≠ .clear) (hdelete : action ≠ .tombstone r) :
    (s.act action).2.content? r = some e := by
  cases action with
  | acquire identifier v =>
    cases hu : s.next? with
    | none =>
      simp only [Store.act, h.valid.acquire_of_next?_eq_none hu]
      exact hr
    | some u =>
      obtain ⟨s', hacquire, htook⟩ := h.valid.acquire_of_next? hu identifier v
      -- the record given out was not live
      have hne : r ≠ u := by
        rintro rfl
        rw [htook.fresh] at hr
        cases hr
      simp only [Store.act, hacquire, htook.content?_eq, Contents.set_of_ne hne]
      exact hr
  | tombstone u =>
    have hne : r ∉ [u] := fun hmem => hdelete (congrArg _ (List.mem_singleton.1 hmem).symm)
    cases hcontent : s.content? u with
    | none =>
      simp only [Store.act, tombstone_of_not_live hcontent]
      exact hr
    | some f =>
      obtain ⟨s', hmark, hmarked⟩ := h.valid.tombstone_of_live (by rw [hcontent]; rfl)
      simp only [Store.act, hmark, hmarked.content?_eq, if_neg hne]
      exact hr
  | drain =>
    obtain ⟨s', hdrain, -, hdrained⟩ := h.valid.drain_spec
    simp only [Store.act, hdrain, hdrained.content?_eq]
    exact hr
  | clear => exact absurd rfl hclear

theorem Recalls.content?_actAll (h : Recalls b past s) (hr : s.content? r = some e)
    {actions : List (Action I)} (hclear : .clear ∉ actions) (hdelete : .tombstone r ∉ actions) :
    (s.actAll past actions).2.content? r = some e := by
  induction actions generalizing past s with
  | nil => exact hr
  | cons action actions ih =>
    rw [List.mem_cons, not_or] at hclear hdelete
    refine ih (h.act action) ?_ hclear.2 hdelete.2
    exact h.content?_act hr (Ne.symm hclear.1) (Ne.symm hdelete.1)

end Store

end WildcardIndex
