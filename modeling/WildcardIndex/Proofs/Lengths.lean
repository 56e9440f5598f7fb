import Mathlib.Data.List.Basic
import WildcardIndex.Length
import WildcardIndex.Proofs.Contents
import WildcardIndex.Proofs.RecordSet.Membership
/-!
# Lengths — representing what is filed

A length index **represents** a map from records to lengths if a record is in
the set of exactly its length and in the sets of at least that length and every
smaller one. Growing keeps that without filling anything in: a length beyond
the last slot has no record, and its new set is empty.
-/

namespace WildcardIndex

namespace LengthIndex

variable {b : Backend} {x : LengthIndex} {r u : Record} {k n : Nat}

/-! ## Cells -/

theorem size_modifyFirst {α : Type} (f : α → α) (n : Nat) (cells : Array α) :
    (modifyFirst f n cells).size = cells.size := by
  induction n generalizing cells with
  | zero => rfl
  | succ n ih => rw [modifyFirst, ih, Array.size_modify]

/-- The first `n` cells are changed, each once. -/
theorem getElem?_modifyFirst {α : Type} (f : α → α) (n : Nat) (cells : Array α) (k : Nat) :
    (modifyFirst f n cells)[k]? = cells[k]?.map fun a => if k < n then f a else a := by
  induction n generalizing cells with
  | zero => simp [modifyFirst]
  | succ n ih =>
    rw [modifyFirst, ih, Array.getElem?_modify]
    rcases Nat.lt_trichotomy k n with hk | rfl | hk
    · rw [if_neg (by omega)]
      simp [hk, Nat.lt_succ_of_lt hk]
    · rw [if_pos rfl, Option.map_map]
      simp
      rfl
    · rw [if_neg (by omega)]
      simp [show ¬ k < n by omega, show ¬ k < n + 1 by omega]

/-! ## One backend, one number of slots -/

/-- Both arrays have a cell for every slot, and every set is one of the
backend. -/
structure Valid (b : Backend) (x : LengthIndex) : Prop where
  /-- New sets are made in the backend. -/
  backend : x.backend = b
  /-- The two arrays have the same number of cells. -/
  size_eq : x.cumulative.size = x.exact.size
  /-- The sets of exactly a length. -/
  exactly : ∀ n s, x.exactly? n = some s → s.Valid b
  /-- The sets of at least a length. -/
  atLeast : ∀ n s, x.atLeast? n = some s → s.Valid b

theorem valid_empty (b : Backend) : (empty b).Valid b where
  backend := rfl
  size_eq := rfl
  exactly n s hs := by
    simp [empty, exactly?] at hs
  atLeast n s hs := by
    simp [empty, atLeast?] at hs

/-- A length has a set of the second kind exactly if it has a slot. -/
theorem Valid.isSome_atLeast? (h : x.Valid b) : (x.atLeast? n).isSome ↔ n < x.slots := by
  rw [atLeast?, slots, ← h.size_eq]
  simp

/-- The sets handed out for lengths without a slot are of the backend too. -/
theorem Valid.valid_atLeast (h : x.Valid b) (n : Nat) : (x.atLeast n).Valid b := by
  rw [LengthIndex.atLeast]
  cases hs : x.atLeast? n with
  | none =>
    rw [h.backend]
    exact RecordSet.valid_empty b
  | some s => exact h.atLeast n s hs

/-- A record is among those of at least a length if it is in that length's
slot. -/
theorem mem_atLeast_iff : r ∈ x.atLeast n ↔ ∃ s, x.atLeast? n = some s ∧ r ∈ s := by
  rw [atLeast]
  cases x.atLeast? n <;> simp

/-! ## Growing -/

theorem slots_grow (x : LengthIndex) (n : Nat) : (x.grow n).slots = max x.slots (n + 1) := by
  unfold grow
  split
  · omega
  · simp [slots] at *
    omega

/-- No set of exactly a length is made by growing. -/
theorem exactly?_grow (x : LengthIndex) (n k : Nat) : (x.grow n).exactly? k = x.exactly? k := by
  unfold grow
  split
  · rfl
  · simp only [exactly?, Array.getElem?_append]
    grind

/-- The new slots hold empty sets. -/
theorem atLeast?_grow (h : x.Valid b) (n k : Nat) :
    (x.grow n).atLeast? k =
      if k < x.slots then x.atLeast? k else if k ≤ n then some (.empty b) else none := by
  have hsize := h.size_eq
  have hb := h.backend
  unfold grow
  split
  · rename_i hn
    simp only [atLeast?, slots] at *
    grind
  · rename_i hn
    simp only [atLeast?, slots, Array.getElem?_append] at *
    grind

theorem Valid.grow (h : x.Valid b) (n : Nat) : (x.grow n).Valid b where
  backend := by
    unfold LengthIndex.grow
    split <;> exact h.backend
  size_eq := by
    have := h.size_eq
    unfold LengthIndex.grow
    split
    · exact this
    · simp
      omega
  exactly k s hs := h.exactly k s (by rwa [exactly?_grow] at hs)
  atLeast k s hs := by
    rw [atLeast?_grow h] at hs
    split at hs
    · exact h.atLeast k s hs
    · split at hs
      · rw [Option.some.injEq] at hs
        subst hs
        exact RecordSet.valid_empty b
      · cases hs

/-- **Growing moves no record.** -/
theorem mem_atLeast_grow (h : x.Valid b) : r ∈ (x.grow n).atLeast k ↔ r ∈ x.atLeast k := by
  rw [mem_atLeast_iff, mem_atLeast_iff, atLeast?_grow h]
  by_cases hk : k < x.slots
  · rw [if_pos hk]
  · have hnone : x.atLeast? k = none := by
      rw [← Option.isNone_iff_eq_none, ← Option.not_isSome, Bool.not_eq_true', ← Bool.not_eq_true,
        h.isSome_atLeast?]
      exact hk
    rw [if_neg hk, hnone]
    split <;> simp

/-! ## Adding, removing, subtracting -/

theorem exactly?_add (h : x.Valid b) (r : Record) (n k : Nat) :
    (x.add r n).exactly? k =
      if k = n then some (((x.exactly? n).getD (.empty b)).insert r) else x.exactly? k := by
  have hb : (x.grow n).backend = b := (h.grow n).backend
  have hn : n < (x.grow n).exact.size := by
    have := slots_grow x n
    unfold slots at this
    omega
  rw [← exactly?_grow x n k, ← exactly?_grow x n n]
  simp only [add, exactly?, Array.getElem?_modify, hb]
  by_cases hk : k = n
  · subst hk
    rw [if_pos rfl, if_pos rfl, Array.getElem?_eq_getElem hn]
    rfl
  · rw [if_neg (Ne.symm hk), if_neg hk]

theorem atLeast?_add (x : LengthIndex) (r : Record) (n k : Nat) :
    (x.add r n).atLeast? k =
      ((x.grow n).atLeast? k).map fun s => if k < n + 1 then s.insert r else s :=
  getElem?_modifyFirst _ _ _ k

theorem slots_add (x : LengthIndex) (r : Record) (n : Nat) :
    (x.add r n).slots = max x.slots (n + 1) := by
  rw [← slots_grow, add, slots, Array.size_modify]
  rfl

theorem exactly?_remove (x : LengthIndex) (r : Record) (n k : Nat) :
    (x.remove r n).exactly? k =
      if k = n then (x.exactly? n).map (·.erase r) else x.exactly? k := by
  simp only [remove, exactly?, Array.getElem?_modify]
  by_cases hk : k = n
  · subst hk
    rw [if_pos rfl, if_pos rfl]
    rcases x.exact[k]? with _ | _ | s <;> rfl
  · rw [if_neg (Ne.symm hk), if_neg hk]

/-- There is no set beyond the slots, so cutting the range short at the last one
leaves nothing out. -/
theorem atLeast?_remove (x : LengthIndex) (r : Record) (n k : Nat) :
    (x.remove r n).atLeast? k =
      (x.atLeast? k).map fun s => if k < n + 1 then s.erase r else s := by
  rw [remove, atLeast?, getElem?_modifyFirst, atLeast?]
  by_cases hk : k < x.cumulative.size
  · have hcut : k < min (n + 1) x.cumulative.size ↔ k < n + 1 := by omega
    rw [Array.getElem?_eq_getElem hk]
    simp only [Option.map_some, hcut]
  · rw [Array.getElem?_eq_none (by omega)]
    rfl

theorem slots_remove (x : LengthIndex) (r : Record) (n : Nat) : (x.remove r n).slots = x.slots :=
  Array.size_modify

theorem exactly?_subtract (x : LengthIndex) (gone : RecordSet) (k : Nat) :
    (x.subtract gone).exactly? k = (x.exactly? k).map (·.diff gone) := by
  rw [subtract, exactly?, Array.getElem?_map, exactly?]
  rcases x.exact[k]? with _ | _ | s <;> rfl

theorem atLeast?_subtract (x : LengthIndex) (gone : RecordSet) (k : Nat) :
    (x.subtract gone).atLeast? k = (x.atLeast? k).map (·.diff gone) :=
  Array.getElem?_map

theorem slots_subtract (x : LengthIndex) (gone : RecordSet) : (x.subtract gone).slots = x.slots :=
  Array.size_map

theorem Valid.add (h : x.Valid b) (r : Record) (n : Nat) : (x.add r n).Valid b where
  backend := (h.grow n).backend
  size_eq := by
    rw [LengthIndex.add, size_modifyFirst, Array.size_modify]
    exact (h.grow n).size_eq
  exactly k s hs := by
    rw [exactly?_add h] at hs
    split at hs
    · rw [Option.some.injEq] at hs
      subst hs
      cases hold : x.exactly? n with
      | none => exact (RecordSet.valid_empty b).insert r
      | some s => exact (h.exactly n s hold).insert r
    · exact h.exactly k s hs
  atLeast k s hs := by
    rw [atLeast?_add] at hs
    obtain ⟨t, ht, rfl⟩ := Option.map_eq_some_iff.1 hs
    have hvalid := (h.grow n).atLeast k t ht
    split
    · exact hvalid.insert r
    · exact hvalid

theorem Valid.remove (h : x.Valid b) (r : Record) (n : Nat) : (x.remove r n).Valid b where
  backend := h.backend
  size_eq := by
    rw [LengthIndex.remove, size_modifyFirst, Array.size_modify]
    exact h.size_eq
  exactly k s hs := by
    rw [exactly?_remove] at hs
    split at hs
    · obtain ⟨t, ht, rfl⟩ := Option.map_eq_some_iff.1 hs
      exact (h.exactly n t ht).erase r
    · exact h.exactly k s hs
  atLeast k s hs := by
    rw [atLeast?_remove] at hs
    obtain ⟨t, ht, rfl⟩ := Option.map_eq_some_iff.1 hs
    have hvalid := h.atLeast k t ht
    split
    · exact hvalid.erase r
    · exact hvalid

theorem Valid.subtract (h : x.Valid b) (gone : RecordSet) : (x.subtract gone).Valid b where
  backend := h.backend
  size_eq := by
    rw [LengthIndex.subtract, Array.size_map, Array.size_map]
    exact h.size_eq
  exactly k s hs := by
    rw [exactly?_subtract] at hs
    obtain ⟨t, ht, rfl⟩ := Option.map_eq_some_iff.1 hs
    exact (h.exactly k t ht).diff gone
  atLeast k s hs := by
    rw [atLeast?_subtract] at hs
    obtain ⟨t, ht, rfl⟩ := Option.map_eq_some_iff.1 hs
    exact (h.atLeast k t ht).diff gone

/-! ## Slots made ahead -/

theorem grow_of_lt (h : n < x.slots) : x.grow n = x := if_pos h

theorem backend_grow (x : LengthIndex) (n : Nat) : (x.grow n).backend = x.backend := by
  unfold grow
  split <;> rfl

/-- Two length indexes with the same cells are the same. -/
theorem eq_of_getElem? {y : LengthIndex} (hbackend : x.backend = y.backend)
    (hexact : ∀ k : Nat, x.exact[k]? = y.exact[k]?) (hatLeast : ∀ k, x.atLeast? k = y.atLeast? k) :
    x = y := by
  obtain ⟨b, exact, cumulative⟩ := x
  obtain ⟨b', exact', cumulative'⟩ := y
  simp only [atLeast?] at hbackend hexact hatLeast
  rw [hbackend, Array.ext_getElem? hexact, Array.ext_getElem? hatLeast]

theorem getElem?_exact_grow (x : LengthIndex) (n k : Nat) :
    (x.grow n).exact[k]? =
      if k < x.slots then x.exact[k]? else if k ≤ n then some none else none := by
  unfold grow
  split
  · simp only [slots] at *
    grind
  · simp only [slots, Array.getElem?_append] at *
    grind

theorem getElem?_exact_add (x : LengthIndex) (r : Record) (n k : Nat) :
    (x.add r n).exact[k]? = ((x.grow n).exact[k]?).map fun s =>
      if k = n then some ((s.getD (.empty x.backend)).insert r) else s := by
  rw [add, ← backend_grow x n, Array.getElem?_modify]
  by_cases hk : k = n
  · simp [hk]
  · simp [hk, Ne.symm hk]

/-- **A slot made ahead makes no difference**: it may as well come after. -/
theorem Valid.add_grow (h : x.Valid b) (r : Record) (n k : Nat) :
    (x.grow n).add r k = (x.add r k).grow n := by
  have hslots := slots_grow x n
  have hslots' := slots_add x r k
  refine eq_of_getElem? ?_ (fun j => ?_) fun j => ?_
  · rw [backend_grow, (h.add r k).backend, ((h.grow n).add r k).backend]
  · rw [getElem?_exact_add, getElem?_exact_grow, getElem?_exact_grow, getElem?_exact_grow,
      getElem?_exact_add, getElem?_exact_grow, backend_grow]
    grind
  · rw [atLeast?_add, atLeast?_grow (h.grow n), atLeast?_grow h, atLeast?_grow (h.add r k),
      atLeast?_add, atLeast?_grow h]
    grind

/-! ## Representing contents -/

/-- Each record is in exactly the sets of its length: the one of the first kind,
and those of the second kind up to it. -/
structure Represents (b : Backend) (m : Contents Nat) (x : LengthIndex) : Prop
    extends x.Valid b where
  /-- The records of exactly a length. -/
  mem_exactly : ∀ n r, (∃ s, x.exactly? n = some s ∧ r ∈ s) ↔ m r = some n
  /-- The records of at least a length. -/
  mem_atLeast : ∀ n r, r ∈ x.atLeast n ↔ ∃ k, m r = some k ∧ n ≤ k

variable {m : Contents Nat}

/-- The length of a filed record has a slot. -/
theorem Represents.lt_slots (h : x.Represents b m) (hr : m r = some n) : n < x.slots := by
  obtain ⟨s, hs, -⟩ := mem_atLeast_iff.1 ((h.mem_atLeast n r).2 ⟨n, hr, Nat.le_refl n⟩)
  rw [← h.toValid.isSome_atLeast?, hs]
  rfl

theorem Represents.le_maxLength (h : x.Represents b m) (hr : m r = some n) : n ≤ x.maxLength := by
  have := h.lt_slots hr
  rw [maxLength]
  omega

theorem represents_empty (b : Backend) : (empty b).Represents b .none where
  toValid := valid_empty b
  mem_exactly n r := by simp [empty, exactly?, Contents.none]
  mem_atLeast n r := by simp [empty, LengthIndex.atLeast, atLeast?, Contents.none]

theorem Represents.grow (h : x.Represents b m) (n : Nat) : (x.grow n).Represents b m where
  toValid := h.toValid.grow n
  mem_exactly k u := by
    rw [exactly?_grow]
    exact h.mem_exactly k u
  mem_atLeast k u := by
    rw [mem_atLeast_grow h.toValid]
    exact h.mem_atLeast k u

theorem mem_exactly_add (h : x.Valid b) :
    (∃ s, (x.add r n).exactly? k = some s ∧ u ∈ s) ↔
      (u = r ∧ k = n) ∨ ∃ s, x.exactly? k = some s ∧ u ∈ s := by
  rw [exactly?_add h]
  by_cases hk : k = n
  · subst hk
    cases x.exactly? k <;> simp [RecordSet.mem_insert]
  · simp [hk]

theorem mem_exactly_remove :
    (∃ s, (x.remove r n).exactly? k = some s ∧ u ∈ s) ↔
      ¬ (u = r ∧ k = n) ∧ ∃ s, x.exactly? k = some s ∧ u ∈ s := by
  rw [exactly?_remove]
  by_cases hk : k = n
  · subst hk
    cases x.exactly? k <;> simp [RecordSet.mem_erase]
  · simp [hk]

theorem mem_atLeast_add (h : x.Valid b) :
    u ∈ (x.add r n).atLeast k ↔ (u = r ∧ k ≤ n) ∨ u ∈ x.atLeast k := by
  rw [← mem_atLeast_grow h (n := n), mem_atLeast_iff, mem_atLeast_iff, atLeast?_add]
  cases hs : (x.grow n).atLeast? k with
  | none =>
    have : ¬ k < (x.grow n).slots := by
      rw [← (h.grow n).isSome_atLeast?, hs]
      simp
    rw [slots_grow] at this
    simp
    omega
  | some s =>
    by_cases hk : k < n + 1
    · simp [hk, RecordSet.mem_insert, Nat.le_of_lt_succ hk]
    · simp [hk, show ¬ k ≤ n by omega]

theorem mem_atLeast_remove :
    u ∈ (x.remove r n).atLeast k ↔ ¬ (u = r ∧ k ≤ n) ∧ u ∈ x.atLeast k := by
  rw [mem_atLeast_iff, mem_atLeast_iff, atLeast?_remove]
  cases x.atLeast? k with
  | none => simp
  | some s =>
    by_cases hk : k < n + 1
    · simp [hk, RecordSet.mem_erase, Nat.le_of_lt_succ hk]
    · simp [hk, show ¬ k ≤ n by omega]

/-- A record that is not filed yet can be added with any length. -/
theorem Represents.add (h : x.Represents b m) (hr : m r = none) (n : Nat) :
    (x.add r n).Represents b (m.set r (some n)) where
  toValid := h.toValid.add r n
  mem_exactly k u := by
    rw [mem_exactly_add h.toValid, h.mem_exactly k u]
    by_cases hu : u = r
    · subst hu
      rw [Contents.set_self, hr]
      simp [eq_comm]
    · rw [Contents.set_of_ne hu]
      simp [hu]
  mem_atLeast k u := by
    rw [mem_atLeast_add h.toValid, h.mem_atLeast k u]
    by_cases hu : u = r
    · subst hu
      rw [Contents.set_self, hr]
      simp
    · rw [Contents.set_of_ne hu]
      simp [hu]

/-- Removing a record with the length it is filed under leaves no trace. -/
theorem Represents.remove (h : x.Represents b m) (hr : m r = some n) :
    (x.remove r n).Represents b (m.set r none) where
  toValid := h.toValid.remove r n
  mem_exactly k u := by
    rw [mem_exactly_remove, h.mem_exactly k u]
    by_cases hu : u = r
    · subst hu
      rw [Contents.set_self, hr]
      simp [eq_comm]
    · rw [Contents.set_of_ne hu]
      simp [hu]
  mem_atLeast k u := by
    rw [mem_atLeast_remove, h.mem_atLeast k u]
    by_cases hu : u = r
    · subst hu
      rw [Contents.set_self, hr]
      simp
    · rw [Contents.set_of_ne hu]
      simp [hu]

theorem Represents.subtract (h : x.Represents b m) {gone : RecordSet} (hg : gone.backend = b) :
    (x.subtract gone).Represents b (m.without gone) where
  toValid := h.toValid.subtract gone
  mem_exactly k u := by
    rw [exactly?_subtract, Contents.without_eq_some, ← h.mem_exactly k u]
    cases hs : x.exactly? k with
    | none => simp
    | some s =>
      have hb : s.backend = gone.backend := (h.exactly k s hs).backend_eq.trans hg.symm
      simp [RecordSet.mem_diff hb, and_comm]
  mem_atLeast k u := by
    simp only [Contents.without_eq_some, and_assoc, exists_and_left]
    rw [← h.mem_atLeast k u, LengthIndex.mem_atLeast_iff, LengthIndex.mem_atLeast_iff,
      atLeast?_subtract]
    cases hs : x.atLeast? k with
    | none => simp
    | some s =>
      have hb : s.backend = gone.backend := (h.atLeast k s hs).backend_eq.trans hg.symm
      simp [RecordSet.mem_diff hb, and_comm]

end LengthIndex

end WildcardIndex
