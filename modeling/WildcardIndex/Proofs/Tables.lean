import Mathlib.Data.List.Basic
import WildcardIndex.Proofs.Lengths
import WildcardIndex.Proofs.Positional.Places
import WildcardIndex.Query.Part
/-!
# Tables — representing values, and filling by hand

The positions and the lengths of one backend **represent** the same values. The
slots of the lengths stay below the number of positions, so that no offset a
query looks up is cut to another one.

The two halves may also be filled apart from each other, each in an order of
its own, with records that come and go on the way. What they represent depends
on what is left in the end.
-/

namespace WildcardIndex

variable {b : Backend} {r : Record}

namespace Tables

variable {m : Contents Bytes} {t : Tables} {v : Bytes} {gone : RecordSet}

/-- The length of each value that is filed. -/
def lengths (m : Contents Bytes) : Contents Nat := fun r => (m r).map List.length

/-- Both halves represent the values, and every offset in a value is a
position. -/
structure Represents (b : Backend) (m : Contents Bytes) (t : Tables) : Prop where
  /-- The positions do. -/
  positional : t.positional.Represents b m
  /-- The lengths do. -/
  length : t.length.Represents b (lengths m)
  /-- No slot stands for a length beyond the positions. -/
  slots_le : t.length.slots ≤ positionLimit

theorem lengths_eq_some {n : Nat} : lengths m r = some n ↔ ∃ v, m r = some v ∧ v.length = n :=
  Option.map_eq_some_iff

theorem lengths_set (m : Contents Bytes) (r : Record) (o : Option Bytes) :
    lengths (m.set r o) = (lengths m).set r (o.map List.length) := by
  funext u
  by_cases hu : u = r
  · subst hu
    rw [lengths, Contents.set_self, Contents.set_self]
  · rw [lengths, Contents.set_of_ne hu, Contents.set_of_ne hu, lengths]

theorem lengths_without (m : Contents Bytes) (gone : RecordSet) :
    lengths (m.without gone) = (lengths m).without gone := by
  funext u
  by_cases hu : u ∈ gone
  · rw [lengths, Contents.without_of_mem hu, Contents.without_of_mem hu, Option.map_none]
  · rw [lengths, Contents.without_of_not_mem hu, Contents.without_of_not_mem hu, lengths]

theorem Represents.length_le (h : t.Represents b m) (hr : m r = some v) :
    v.length ≤ t.length.maxLength :=
  h.length.le_maxLength (lengths_eq_some.2 ⟨v, hr, rfl⟩)

/-- A filed value ends before the positions do. -/
theorem Represents.length_lt (h : t.Represents b m) (hr : m r = some v) :
    v.length < positionLimit := by
  have := h.length.lt_slots (lengths_eq_some.2 ⟨v, hr, rfl⟩)
  have := h.slots_le
  omega

theorem represents_empty (b : Backend) : (empty b).Represents b .none where
  positional := PositionalIndex.represents_empty b
  length := LengthIndex.represents_empty b
  slots_le := Nat.zero_le _

theorem Represents.clear (h : t.Represents b m) : t.clear.Represents b .none := by
  rw [Tables.clear, PositionalIndex.clear, LengthIndex.clear, h.positional.backend, h.length.backend]
  exact represents_empty b

theorem Represents.add (h : t.Represents b m) (hr : m r = none) (hv : v.length < positionLimit) :
    (t.add r v).Represents b (m.set r (some v)) where
  positional := h.positional.add hr v
  length := by
    rw [lengths_set]
    exact h.length.add (by rw [lengths, hr, Option.map_none]) v.length
  slots_le := by
    have := h.slots_le
    rw [Tables.add, LengthIndex.slots_add]
    omega

theorem Represents.remove (h : t.Represents b m) (hr : m r = some v) :
    (t.remove r v).Represents b (m.set r none) where
  positional := h.positional.remove hr
  length := by
    rw [lengths_set]
    exact h.length.remove (lengths_eq_some.2 ⟨v, hr, rfl⟩)
  slots_le := by
    rw [Tables.remove, LengthIndex.slots_remove]
    exact h.slots_le

theorem Represents.subtract (h : t.Represents b m) (hg : gone.backend = b) :
    (t.subtract gone).Represents b (m.without gone) where
  positional := h.positional.subtract hg
  length := by
    rw [lengths_without]
    exact h.length.subtract hg
  slots_le := by
    rw [Tables.subtract, LengthIndex.slots_subtract]
    exact h.slots_le

/-- Gives a record a value, after taking out the one it may still be filed
under. -/
def refile (t : Tables) (r : Record) (stale : Option Bytes) (v : Bytes) : Tables :=
  (match stale with
    | some w => t.remove r w
    | none => t).add r v

/-- **Refiling changes one record**, whatever it was filed under. -/
theorem Represents.refile (h : t.Represents b m) (hv : v.length < positionLimit) :
    (t.refile r (m r) v).Represents b (m.set r (some v)) := by
  cases hr : m r with
  | none => exact h.add hr hv
  | some w =>
    have hset := (h.remove hr).add Contents.set_self hv
    rwa [Contents.set_set] at hset

/-- The sets and slots there are afterwards do not depend on what the record
was filed under. -/
theorem Represents.slots_refile (h : t.Represents b m) (stale : Option Bytes) :
    (t.refile r stale v).length.slots = max t.length.slots (v.length + 1) ∧
      ∀ k, ((t.refile r stale v).positional.at? k).isSome ↔
        k ∈ PositionalIndex.places v ∨ (t.positional.at? k).isSome := by
  cases stale with
  | none => exact ⟨LengthIndex.slots_add .., fun k => PositionalIndex.isSome_at?_add h.positional.toValid⟩
  | some w =>
    refine ⟨?_, fun k => ?_⟩
    · rw [Tables.refile, Tables.add, LengthIndex.slots_add, Tables.remove, LengthIndex.slots_remove]
    · rw [← PositionalIndex.isSome_at?_remove h.positional.toValid (r := r) (v := w)]
      exact PositionalIndex.isSome_at?_add (h.positional.toValid.remove r w)

end Tables

/-! ## Filling the halves apart -/

/-- The positional indexes of a backend that come about by adding records,
removing them with the values they were added with, and subtracting sets; with
what is left in them. -/
inductive PositionalIndex.Filled (b : Backend) : Contents Bytes → PositionalIndex → Prop where
  /-- Nothing was added yet. -/
  | empty : Filled b .none (.empty b)
  /-- A record that is not there is added. -/
  | add {m : Contents Bytes} {x : PositionalIndex} {r : Record} (v : Bytes) :
      Filled b m x → m r = none → Filled b (m.set r (some v)) (x.add r v)
  /-- A record that is there is removed. -/
  | remove {m : Contents Bytes} {x : PositionalIndex} {r : Record} {v : Bytes} :
      Filled b m x → m r = some v → Filled b (m.set r none) (x.remove r v)
  /-- The records of a set of the backend are taken out. -/
  | subtract {m : Contents Bytes} {x : PositionalIndex} {gone : RecordSet} :
      Filled b m x → gone.backend = b → Filled b (m.without gone) (x.subtract gone)

/-- The length indexes of a backend that come about in the same way. Lengths
are those of values whose offsets are positions. -/
inductive LengthIndex.Filled (b : Backend) : Contents Nat → LengthIndex → Prop where
  /-- Nothing was added yet. -/
  | empty : Filled b .none (.empty b)
  /-- Slots are made ahead. -/
  | grow {m : Contents Nat} {x : LengthIndex} {n : Nat} :
      Filled b m x → n < Tables.positionLimit → Filled b m (x.grow n)
  /-- A record that is not there is added. -/
  | add {m : Contents Nat} {x : LengthIndex} {r : Record} {n : Nat} :
      Filled b m x → m r = none → n < Tables.positionLimit → Filled b (m.set r (some n)) (x.add r n)
  /-- A record that is there is removed. -/
  | remove {m : Contents Nat} {x : LengthIndex} {r : Record} {n : Nat} :
      Filled b m x → m r = some n → Filled b (m.set r none) (x.remove r n)
  /-- The records of a set of the backend are taken out. -/
  | subtract {m : Contents Nat} {x : LengthIndex} {gone : RecordSet} :
      Filled b m x → gone.backend = b → Filled b (m.without gone) (x.subtract gone)

/-- **What is left is what is represented**, however it came about. -/
theorem PositionalIndex.Filled.represents {m : Contents Bytes} {x : PositionalIndex}
    (h : Filled b m x) : x.Represents b m := by
  induction h with
  | empty => exact represents_empty b
  | add v _ hr ih => exact ih.add hr v
  | remove _ hr ih => exact ih.remove hr
  | subtract _ hg ih => exact ih.subtract hg

theorem LengthIndex.Filled.represents {m : Contents Nat} {x : LengthIndex} (h : Filled b m x) :
    x.Represents b m := by
  induction h with
  | empty => exact represents_empty b
  | grow _ _ ih => exact ih.grow _
  | add _ hr _ ih => exact ih.add hr _
  | remove _ hr ih => exact ih.remove hr
  | subtract _ hg ih => exact ih.subtract hg

theorem LengthIndex.Filled.slots_le {m : Contents Nat} {x : LengthIndex} (h : Filled b m x) :
    x.slots ≤ Tables.positionLimit := by
  induction h with
  | empty => exact Nat.zero_le _
  | grow _ hn ih =>
    rw [slots_grow]
    omega
  | add _ _ hn ih =>
    rw [slots_add]
    omega
  | remove _ _ ih =>
    rw [slots_remove]
    exact ih
  | subtract _ _ ih =>
    rw [slots_subtract]
    exact ih

/-- Two halves that were left with the same values represent them together. -/
theorem Tables.represents_of_filled {m : Contents Bytes} {x : PositionalIndex} {y : LengthIndex}
    (hx : x.Filled b m) (hy : y.Filled b (lengths m)) : Represents b m ⟨x, y⟩ :=
  ⟨hx.represents, hy.represents, hy.slots_le⟩

end WildcardIndex
