import Mathlib.Data.List.Basic
import WildcardIndex.Proofs.Store.Slots
/-!
# The store — deleting and purging

Marking records takes their contents away and puts them on the free list, the
last one first; it touches no value. Purging takes the values of the marked
ones away and touches no live record, so a purge cannot be told from the live records
or from the slots handed out next.
-/

namespace WildcardIndex

namespace Store

variable {I : Type} {b : Backend} {s s' s'' : Store I} {r u : Record} {rs rs' : List Record}

/-! ## Marking -/

/-- A store in which some records were marked deleted. -/
structure Marked (b : Backend) (rs : List Record) (s s' : Store I) : Prop where
  /-- The store stays valid. -/
  valid : s'.Valid b
  /-- The marked records have no content any more. -/
  content?_eq : ∀ u, s'.content? u = if u ∈ rs then none else s.content? u
  /-- Every slot holds what it held. -/
  value?_eq : s'.value? = s.value?
  /-- The marked records are tombstoned. -/
  mem_tombstones : ∀ u, u ∈ s'.tombstones ↔ u ∈ rs ∨ u ∈ s.tombstones
  /-- They wait for a value, the last one first. -/
  free_eq : s'.free = rs.reverse ++ s.free
  /-- No slot is made. -/
  totalSlots_eq : s'.totalSlots = s.totalSlots

theorem Valid.marked_nil (h : s.Valid b) : Marked b [] s s where
  valid := h
  content?_eq u := rfl
  value?_eq := rfl
  mem_tombstones u := by simp
  free_eq := rfl
  totalSlots_eq := rfl

theorem Marked.append (h : Marked b rs s s') (h' : Marked b rs' s' s'') :
    Marked b (rs ++ rs') s s'' where
  valid := h'.valid
  content?_eq u := by
    rw [h'.content?_eq, h.content?_eq]
    by_cases hu : u ∈ rs
    · simp [hu]
    · simp [hu]
  value?_eq := h'.value?_eq.trans h.value?_eq
  mem_tombstones u := by
    rw [h'.mem_tombstones, h.mem_tombstones, List.mem_append]
    tauto
  free_eq := by rw [h'.free_eq, h.free_eq, List.reverse_append, List.append_assoc]
  totalSlots_eq := h'.totalSlots_eq.trans h.totalSlots_eq

/-- Marking a record that is not live does nothing. -/
theorem tombstone_of_not_live (hr : s.content? r = none) : s.tombstone r = (false, s) := by
  refine if_neg fun hlive => ?_
  rw [state?_eq_live_iff, hr] at hlive
  cases hlive

/-- **Marking a live record** takes its content away and puts it on the free list. -/
theorem Valid.tombstone_of_live (h : s.Valid b) (hr : (s.content? r).isSome) :
    ∃ s', s.tombstone r = (true, s') ∧ Marked b [r] s s' := by
  have hvalue := value?_isSome_of_content? hr
  have hnotmem : r ∉ s.tombstones := by
    intro hmem
    rw [content?_of_mem hmem] at hr
    cases hr
  have hnotfree : r ∉ s.free := by
    intro hmem
    rw [((h.mem_free r).1 hmem).2] at hr
    cases hr
  have hcontent : ∀ u, (⟨s.slots, s.tombstones.insert r, s.tombstoneCount + 1, r :: s.free⟩ :
      Store I).content? u = if u ∈ [r] then none else s.content? u := by
    intro u
    simp only [List.mem_singleton]
    by_cases hu : u = r
    · subst hu
      rw [if_pos rfl]
      exact if_pos (RecordSet.mem_insert.2 (.inl rfl))
    · rw [if_neg hu, content?, content?]
      simp only [RecordSet.mem_insert, hu, false_or]
  -- it neither waits nor is tombstoned, so neither list gets it twice
  refine ⟨_, if_pos (state?_eq_live_iff.2 hr), ?_, hcontent, rfl, fun u => ?_, rfl, rfl⟩
  · refine ⟨h.tombstones.insert r, h.size_le, List.nodup_cons.2 ⟨hnotfree, h.free_nodup⟩, ?_, ?_, ?_⟩
    · intro u
      rw [hcontent, List.mem_cons, h.mem_free u]
      simp only [List.mem_singleton]
      by_cases hu : u = r
      · subst hu
        exact iff_of_true (.inl rfl) ⟨lt_of_value? hvalue, if_pos rfl⟩
      · simp only [hu, false_or, if_false]
        rfl
    · intro u hu
      rcases RecordSet.mem_insert.1 hu with rfl | hu
      · exact hvalue
      · exact h.cached u hu
    · simp only [RecordSet.length_toList_insert h.tombstones hnotmem, h.count]
  · rw [List.mem_singleton]
    exact RecordSet.mem_insert

/-- **Marking live records one after the other** counts all of them. -/
theorem Valid.tombstoneAll_of_live (h : s.Valid b) (hnodup : rs.Nodup)
    (hlive : ∀ r ∈ rs, (s.content? r).isSome) :
    ∃ s', s.tombstoneAll rs = (rs.length, s') ∧ Marked b rs s s' := by
  have hfold : ∀ n, ∃ s', rs.foldl (fun e r =>
      (if (e.2.tombstone r).1 then e.1 + 1 else e.1, (e.2.tombstone r).2)) (n, s) =
        (n + rs.length, s') ∧ Marked b rs s s' := by
    induction rs generalizing s with
    | nil => exact fun n => ⟨s, rfl, h.marked_nil⟩
    | cons r rs ih =>
      intro n
      obtain ⟨hr, hnodup⟩ := List.nodup_cons.1 hnodup
      obtain ⟨s₁, hmark, hmarked⟩ := h.tombstone_of_live (hlive r List.mem_cons_self)
      -- the others differ from `r`, so marking `r` leaves them live
      have hrest : ∀ u ∈ rs, (s₁.content? u).isSome := by
        intro u hu
        have hne : u ∉ [r] := fun heq => hr (List.mem_singleton.1 heq ▸ hu)
        rw [hmarked.content?_eq, if_neg hne]
        exact hlive u (List.mem_cons_of_mem r hu)
      obtain ⟨s₂, hmarks, hmarked'⟩ := ih hmarked.valid hnodup hrest (n + 1)
      refine ⟨s₂, ?_, hmarked.append hmarked'⟩
      simp only [List.foldl_cons, hmark, if_true]
      rw [hmarks, List.length_cons, Nat.add_assoc, Nat.add_comm 1]
  obtain ⟨s', hmarks, hmarked⟩ := hfold 0
  rw [Nat.zero_add] at hmarks
  exact ⟨s', hmarks, hmarked⟩

/-! ## Purging -/

/-- A store whose tombstones were handed out. -/
structure Drained (b : Backend) (s s' : Store I) : Prop where
  /-- The store stays valid. -/
  valid : s'.Valid b
  /-- Every live record keeps its content. -/
  content?_eq : s'.content? = s.content?
  /-- The tombstoned slots hold nothing any more. -/
  value?_eq : s'.value? = Contents.without s.value? s.tombstones
  /-- No record is tombstoned. -/
  not_mem_tombstones : ∀ u, u ∉ s'.tombstones
  /-- The same slots wait, in the same order. -/
  free_eq : s'.free = s.free
  /-- No slot is dropped. -/
  totalSlots_eq : s'.totalSlots = s.totalSlots

/-- Changing the cells of some records. A change made twice is a change made
once. -/
theorem getElem?_foldl_modify {α : Type} {f : α → α} (hf : ∀ a, f (f a) = f a) (rs : List Record)
    (cells : Array α) (u : Record) :
    (rs.foldl (fun cells r => cells.modify r.toNat f) cells)[u.toNat]? =
      cells[u.toNat]?.map fun a => if u ∈ rs then f a else a := by
  induction rs generalizing cells with
  | nil => simp
  | cons r rs ih =>
    rw [List.foldl_cons, ih, Array.getElem?_modify]
    by_cases hu : u = r
    · subst hu
      rw [if_pos rfl, Option.map_map]
      simp [Function.comp_def, hf]
    · have hne : r.toNat ≠ u.toNat := fun heq => hu (UInt32.toNat_inj.1 heq.symm)
      rw [if_neg hne]
      simp [hu]

theorem size_foldl_modify {α : Type} (f : α → α) (rs : List Record) (cells : Array α) :
    (rs.foldl (fun cells r => cells.modify r.toNat f) cells).size = cells.size := by
  induction rs generalizing cells with
  | nil => rfl
  | cons r rs ih => rw [List.foldl_cons, ih, Array.size_modify]

/-- **Purging empties the tombstoned slots** and hands out their records. -/
theorem Valid.drain_spec (h : s.Valid b) :
    ∃ s', s.drain = (s.tombstones, s') ∧ s'.tombstoneCount = 0 ∧ Drained b s s' := by
  obtain ⟨slots, tombstones, count, free⟩ := s
  have hslots := getElem?_foldl_modify (f := fun slot : Slot I => { slot with value := none })
    (fun _ => rfl) tombstones.toList slots
  have hmem : ∀ u, u ∈ tombstones.toList ↔ u ∈ tombstones := fun u =>
    RecordSet.mem_toList h.tombstones
  have hempty : ∀ u : Record, u ∉ RecordSet.empty tombstones.backend := fun u =>
    RecordSet.not_mem_empty
  -- a slot that was emptied was tombstoned, so it had no content before either
  have hcontent : (⟨tombstones.toList.foldl (fun slots r => slots.modify r.toNat fun slot =>
      { slot with value := none }) slots, .empty tombstones.backend, 0, free⟩ : Store I).content? =
      (⟨slots, tombstones, count, free⟩ : Store I).content? := by
    funext u
    rw [content?_of_not_mem (hempty u)]
    simp only [hslots, hmem]
    by_cases hu : u ∈ tombstones
    · rw [content?_of_mem hu]
      cases slots[u.toNat]? <;> simp [hu]
    · rw [content?_of_not_mem hu]
      cases slots[u.toNat]? <;> simp [hu]
  refine ⟨_, rfl, rfl, ?_, hcontent, ?_, hempty, rfl, size_foldl_modify _ _ _⟩
  · refine ⟨?_, ?_, h.free_nodup, fun u => ?_, fun u hu => absurd hu (hempty u), ?_⟩
    · rw [h.tombstones.backend_eq]
      exact RecordSet.valid_empty b
    · rw [totalSlots, size_foldl_modify]
      exact h.size_le
    · rw [hcontent, totalSlots, size_foldl_modify]
      exact h.mem_free u
    · rw [RecordSet.toList_empty]
      rfl
  · funext u
    rw [value?, hslots]
    simp only [hmem]
    by_cases hu : u ∈ tombstones
    · rw [Contents.without_of_mem hu]
      cases slots[u.toNat]? <;> simp [hu]
    · rw [Contents.without_of_not_mem hu, value?]
      cases slots[u.toNat]? <;> simp [hu]

end Store

end WildcardIndex
