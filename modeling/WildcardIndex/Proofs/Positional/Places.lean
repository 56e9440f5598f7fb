import Mathlib.Data.List.Basic
import WildcardIndex.Positional.Basic
import WildcardIndex.Proofs.Contents
import WildcardIndex.Proofs.Positional.Entries
/-!
# Positions — the places of a value

A value puts its record into one set for each of its places: every byte by its
offset, by its distance from the end, and by merely occurring. Every operation
is one equation on the set stored for a place (`at?`). An index **represents** a
map from records to values if it has each record at exactly the places of its
value; adding, removing and subtracting keep that.
-/

namespace WildcardIndex

namespace PositionalIndex

/-- A place a byte can be looked up at. -/
inductive Place where
  /-- The byte at a position counted from the start. -/
  | fromStart (c : UInt8) (p : Position)
  /-- The byte at a position counted from the end. -/
  | fromEnd (c : UInt8) (p : Position)
  /-- The byte anywhere. -/
  | anywhere (c : UInt8)
  deriving DecidableEq

/-- The places of one byte, `before` bytes standing before it and `remaining`
from it on. -/
def bytePlaces (c : UInt8) (before remaining : Nat) : List Place :=
  [.fromStart c (positionOf before), .fromEnd c (-positionOf remaining), .anywhere c]

/-- The places of a value. -/
def places (v : Bytes) : List Place :=
  v.zipIdx.flatMap fun (c, i) => bytePlaces c i (v.length - i)

section Places

variable {v : Bytes} {c : UInt8} {p : Position} {k : Place}

theorem mem_places_iff :
    k ∈ places v ↔ ∃ c i, v[i]? = some c ∧ k ∈ bytePlaces c i (v.length - i) := by
  simp only [places, List.mem_flatMap, Prod.exists, List.mem_zipIdx_iff_getElem?]

theorem fromStart_mem_places :
    .fromStart c p ∈ places v ↔ ∃ i, v[i]? = some c ∧ p = positionOf i := by
  rw [mem_places_iff]
  simp [bytePlaces]

theorem fromEnd_mem_places :
    .fromEnd c p ∈ places v ↔ ∃ i, v[i]? = some c ∧ p = -positionOf (v.length - i) := by
  rw [mem_places_iff]
  simp [bytePlaces]

theorem anywhere_mem_places : .anywhere c ∈ places v ↔ c ∈ v := by
  rw [mem_places_iff, List.mem_iff_getElem?]
  simp [bytePlaces]

end Places

variable {b : Backend} {x : PositionalIndex} {r u : Record} {c : UInt8} {k : Place}

/-- The set stored for exactly a place. -/
def at? (x : PositionalIndex) : Place → Option RecordSet
  | .fromStart c p => (x.forward.get c).get? p
  | .fromEnd c p => (x.backward.get c).get? p
  | .anywhere c => x.presence.get c

/-- Every list ascends, and every set is one of the backend. -/
structure Valid (b : Backend) (x : PositionalIndex) : Prop where
  /-- New sets are made in the backend. -/
  backend : x.backend = b
  /-- The lists by offset ascend. -/
  forward : ∀ c, (x.forward.get c).Ascending
  /-- The lists by distance from the end ascend. -/
  backward : ∀ c, (x.backward.get c).Ascending
  /-- The sets are in the backend's representation. -/
  sets : ∀ k s, x.at? k = some s → s.Valid b

/-! ## One byte -/

/-- Changing one cell of a table keeps what every cell satisfies. -/
theorem get_update_of_forall {α : Type} {t : ByteTable α} {P : α → Prop} {f : α → α}
    (h : ∀ c, P (t.get c)) (hf : P (f (t.get c))) (d : UInt8) : P ((t.update c f).get d) := by
  by_cases hd : c = d
  · subst hd
    rw [ByteTable.get_update_self]
    exact hf
  · rw [ByteTable.get_update_of_ne _ _ hd]
    exact h d

theorem at?_empty : (empty b).at? k = none := by
  cases k <;> simp [at?, empty, PositionList.get?]

theorem valid_empty (b : Backend) : (empty b).Valid b where
  backend := rfl
  forward c := by
    rw [empty, ByteTable.get_uniform]
    exact PositionList.ascending_nil
  backward c := by
    rw [empty, ByteTable.get_uniform]
    exact PositionList.ascending_nil
  sets k s hs := by
    rw [at?_empty] at hs
    cases hs

/-- **Adding a byte** adds the record at the byte's three places, and nowhere
else. -/
theorem at?_addByte (h : x.Valid b) (r : Record) (c : UInt8) (before remaining : Nat) (k : Place) :
    (addByte r x c before remaining).at? k =
      if k ∈ bytePlaces c before remaining then some (((x.at? k).getD (.empty b)).insert r)
      else x.at? k := by
  obtain ⟨kind, forward, backward, presence⟩ := x
  obtain ⟨rfl, hf, hb, -⟩ := h
  cases k with
  | fromStart d p =>
    by_cases hd : c = d
    · subst hd
      simp only [at?, addByte, ByteTable.get_update_self, PositionList.get?_insert (hf c)]
      grind [bytePlaces]
    · simp [at?, addByte, ByteTable.get_update_of_ne _ _ hd, bytePlaces, Ne.symm hd]
  | fromEnd d p =>
    by_cases hd : c = d
    · subst hd
      simp only [at?, addByte, ByteTable.get_update_self, PositionList.get?_insert (hb c)]
      grind [bytePlaces]
    · simp [at?, addByte, ByteTable.get_update_of_ne _ _ hd, bytePlaces, Ne.symm hd]
  | anywhere d =>
    by_cases hd : c = d
    · subst hd
      simp [at?, addByte, bytePlaces]
    · simp [at?, addByte, ByteTable.get_update_of_ne _ _ hd, bytePlaces, Ne.symm hd]

/-- **Removing a byte** removes the record at the byte's three places, and
nowhere else. -/
theorem at?_removeByte (h : x.Valid b) (r : Record) (c : UInt8) (before remaining : Nat)
    (k : Place) :
    (removeByte r x c before remaining).at? k =
      if k ∈ bytePlaces c before remaining then (x.at? k).map (·.erase r) else x.at? k := by
  obtain ⟨kind, forward, backward, presence⟩ := x
  obtain ⟨-, hf, hb, -⟩ := h
  cases k with
  | fromStart d p =>
    by_cases hd : c = d
    · subst hd
      simp only [at?, removeByte, ByteTable.get_update_self, PositionList.get?_erase (hf c)]
      grind [bytePlaces]
    · simp [at?, removeByte, ByteTable.get_update_of_ne _ _ hd, bytePlaces, Ne.symm hd]
  | fromEnd d p =>
    by_cases hd : c = d
    · subst hd
      simp only [at?, removeByte, ByteTable.get_update_self, PositionList.get?_erase (hb c)]
      grind [bytePlaces]
    · simp [at?, removeByte, ByteTable.get_update_of_ne _ _ hd, bytePlaces, Ne.symm hd]
  | anywhere d =>
    by_cases hd : c = d
    · subst hd
      simp [at?, removeByte, bytePlaces]
    · simp [at?, removeByte, ByteTable.get_update_of_ne _ _ hd, bytePlaces, Ne.symm hd]

theorem Valid.addByte (h : x.Valid b) (r : Record) (c : UInt8) (before remaining : Nat) :
    (addByte r x c before remaining).Valid b where
  backend := h.backend
  forward := get_update_of_forall h.forward ((h.forward c).insert _ _ r)
  backward := get_update_of_forall h.backward ((h.backward c).insert _ _ r)
  sets k s hs := by
    rw [at?_addByte h] at hs
    split at hs
    · rw [Option.some.injEq] at hs
      subst hs
      cases hold : x.at? k with
      | none => exact (RecordSet.valid_empty b).insert r
      | some s => exact (h.sets k s hold).insert r
    · exact h.sets k s hs

theorem Valid.removeByte (h : x.Valid b) (r : Record) (c : UInt8) (before remaining : Nat) :
    (removeByte r x c before remaining).Valid b where
  backend := h.backend
  forward := get_update_of_forall h.forward ((h.forward c).erase _ r)
  backward := get_update_of_forall h.backward ((h.backward c).erase _ r)
  sets k s hs := by
    rw [at?_removeByte h] at hs
    split at hs
    · obtain ⟨t, ht, rfl⟩ := Option.map_eq_some_iff.1 hs
      exact (h.sets k t ht).erase r
    · exact h.sets k s hs

/-! ## Whole values -/

/-- The record is in the set stored for exactly this place. -/
def Holds (x : PositionalIndex) (k : Place) (r : Record) : Prop := ∃ s, x.at? k = some s ∧ r ∈ s

theorem not_holds_of_eq (h : x.at? k = none) : ¬ x.Holds k r := by
  rintro ⟨s, hs, -⟩
  rw [h] at hs
  cases hs

theorem holds_addByte (h : x.Valid b) {before remaining : Nat} :
    (addByte r x c before remaining).Holds k u ↔
      (u = r ∧ k ∈ bytePlaces c before remaining) ∨ x.Holds k u := by
  unfold Holds
  rw [at?_addByte h]
  by_cases hk : k ∈ bytePlaces c before remaining
  · cases hold : x.at? k <;> simp [hk, RecordSet.mem_insert]
  · simp [hk]

theorem holds_removeByte (h : x.Valid b) {before remaining : Nat} :
    (removeByte r x c before remaining).Holds k u ↔
      ¬ (u = r ∧ k ∈ bytePlaces c before remaining) ∧ x.Holds k u := by
  unfold Holds
  rw [at?_removeByte h]
  by_cases hk : k ∈ bytePlaces c before remaining
  · cases hold : x.at? k <;> simp [hk, RecordSet.mem_erase]
  · simp [hk]

/-- The places of some bytes of a value of length `n`, each with its offset. -/
def placesAmong (n : Nat) (cs : List (UInt8 × Nat)) : List Place :=
  cs.flatMap fun (c, i) => bytePlaces c i (n - i)

/-- Adding bytes one after the other adds the record at all their places. -/
theorem foldl_addByte (h : x.Valid b) (r : Record) (n : Nat) (cs : List (UInt8 × Nat)) :
    let y := cs.foldl (fun x (c, i) => addByte r x c i (n - i)) x
    y.Valid b ∧ (∀ k u, y.Holds k u ↔ (u = r ∧ k ∈ placesAmong n cs) ∨ x.Holds k u) ∧
      ∀ k, (y.at? k).isSome ↔ k ∈ placesAmong n cs ∨ (x.at? k).isSome := by
  induction cs generalizing x with
  | nil => exact ⟨h, fun k u => by simp [placesAmong], fun k => by simp [placesAmong]⟩
  | cons e cs ih =>
    obtain ⟨c, i⟩ := e
    obtain ⟨hv, hh, hp⟩ := ih (h.addByte r c i (n - i))
    refine ⟨hv, fun k u => ?_, fun k => ?_⟩
    · rw [List.foldl_cons, hh, holds_addByte h, placesAmong, placesAmong, List.flatMap_cons,
        List.mem_append]
      tauto
    · rw [List.foldl_cons, hp, at?_addByte h, placesAmong, placesAmong, List.flatMap_cons,
        List.mem_append]
      by_cases hk : k ∈ bytePlaces c i (n - i) <;> simp [hk]

/-- And removing them removes it at all their places. -/
theorem foldl_removeByte (h : x.Valid b) (r : Record) (n : Nat) (cs : List (UInt8 × Nat)) :
    let y := cs.foldl (fun x (c, i) => removeByte r x c i (n - i)) x
    y.Valid b ∧ (∀ k u, y.Holds k u ↔ ¬ (u = r ∧ k ∈ placesAmong n cs) ∧ x.Holds k u) ∧
      ∀ k, (y.at? k).isSome = (x.at? k).isSome := by
  induction cs generalizing x with
  | nil => exact ⟨h, fun k u => by simp [placesAmong], fun k => rfl⟩
  | cons e cs ih =>
    obtain ⟨c, i⟩ := e
    obtain ⟨hv, hh, hp⟩ := ih (h.removeByte r c i (n - i))
    refine ⟨hv, fun k u => ?_, fun k => ?_⟩
    · rw [List.foldl_cons, hh, holds_removeByte h, placesAmong, placesAmong, List.flatMap_cons,
        List.mem_append]
      tauto
    · rw [List.foldl_cons, hp, at?_removeByte h]
      split <;> simp

theorem Valid.add (h : x.Valid b) (r : Record) (v : Bytes) : (x.add r v).Valid b :=
  (foldl_addByte h r v.length v.zipIdx).1

/-- **Adding a value** adds its record at the places of the value. -/
theorem holds_add (h : x.Valid b) {v : Bytes} :
    (x.add r v).Holds k u ↔ (u = r ∧ k ∈ places v) ∨ x.Holds k u :=
  (foldl_addByte h r v.length v.zipIdx).2.1 k u

theorem isSome_at?_add (h : x.Valid b) {v : Bytes} :
    ((x.add r v).at? k).isSome ↔ k ∈ places v ∨ (x.at? k).isSome :=
  (foldl_addByte h r v.length v.zipIdx).2.2 k

theorem Valid.remove (h : x.Valid b) (r : Record) (v : Bytes) : (x.remove r v).Valid b :=
  (foldl_removeByte h r v.length v.zipIdx).1

/-- **Removing a value** removes its record at the places of the value. -/
theorem holds_remove (h : x.Valid b) {v : Bytes} :
    (x.remove r v).Holds k u ↔ ¬ (u = r ∧ k ∈ places v) ∧ x.Holds k u :=
  (foldl_removeByte h r v.length v.zipIdx).2.1 k u

theorem isSome_at?_remove (h : x.Valid b) {v : Bytes} :
    ((x.remove r v).at? k).isSome = (x.at? k).isSome :=
  (foldl_removeByte h r v.length v.zipIdx).2.2 k

/-! ## Whole sets of records -/

theorem at?_subtract (h : x.Valid b) (gone : RecordSet) (k : Place) :
    (x.subtract gone).at? k = (x.at? k).map (·.diff gone) := by
  cases k with
  | fromStart c p =>
    rw [at?, subtract, ByteTable.get_map, PositionList.get?_subtract (h.forward c)]
    rfl
  | fromEnd c p =>
    rw [at?, subtract, ByteTable.get_map, PositionList.get?_subtract (h.backward c)]
    rfl
  | anywhere c =>
    rw [at?, subtract, ByteTable.get_map]
    rfl

theorem Valid.subtract (h : x.Valid b) (gone : RecordSet) : (x.subtract gone).Valid b where
  backend := h.backend
  forward c := by
    rw [PositionalIndex.subtract, ByteTable.get_map]
    exact (h.forward c).subtract gone
  backward c := by
    rw [PositionalIndex.subtract, ByteTable.get_map]
    exact (h.backward c).subtract gone
  sets k s hs := by
    rw [at?_subtract h] at hs
    obtain ⟨t, ht, rfl⟩ := Option.map_eq_some_iff.1 hs
    exact (h.sets k t ht).diff gone

/-- **Subtracting a set** removes its records at every place. -/
theorem holds_subtract (h : x.Valid b) {gone : RecordSet} (hg : gone.backend = b) :
    (x.subtract gone).Holds k u ↔ u ∉ gone ∧ x.Holds k u := by
  unfold Holds
  rw [at?_subtract h]
  cases hs : x.at? k with
  | none => simp
  | some s =>
    have hb : s.backend = gone.backend := (h.sets k s hs).backend_eq.trans hg.symm
    simp [RecordSet.mem_diff hb, and_comm]

/-! ## Representing contents -/

/-- Each record is at exactly the places of its value. -/
structure Represents (b : Backend) (m : Contents Bytes) (x : PositionalIndex) : Prop
    extends x.Valid b where
  /-- The records at a place are those whose value has it. -/
  holds_iff : ∀ k r, x.Holds k r ↔ ∃ v, m r = some v ∧ k ∈ places v

variable {m : Contents Bytes} {v : Bytes}

theorem represents_empty (b : Backend) : (empty b).Represents b .none where
  toValid := valid_empty b
  holds_iff k r := by
    constructor
    · exact fun h => absurd h (not_holds_of_eq at?_empty)
    · rintro ⟨v, hv, -⟩
      cases hv

/-- A record that is not filed yet can be added under any value. -/
theorem Represents.add (h : x.Represents b m) (hr : m r = none) (v : Bytes) :
    (x.add r v).Represents b (m.set r (some v)) where
  toValid := h.toValid.add r v
  holds_iff k u := by
    rw [holds_add h.toValid, h.holds_iff]
    by_cases hu : u = r
    · subst hu
      rw [Contents.set_self, hr]
      simp
    · rw [Contents.set_of_ne hu]
      simp [hu]

/-- Removing a record with the value it is filed under leaves no trace. -/
theorem Represents.remove (h : x.Represents b m) (hr : m r = some v) :
    (x.remove r v).Represents b (m.set r none) where
  toValid := h.toValid.remove r v
  holds_iff k u := by
    rw [holds_remove h.toValid, h.holds_iff]
    by_cases hu : u = r
    · subst hu
      rw [Contents.set_self, hr]
      simp
    · rw [Contents.set_of_ne hu]
      simp [hu]

theorem Represents.subtract (h : x.Represents b m) {gone : RecordSet} (hg : gone.backend = b) :
    (x.subtract gone).Represents b (m.without gone) where
  toValid := h.toValid.subtract gone
  holds_iff k u := by
    rw [holds_subtract h.toValid hg, h.holds_iff]
    simp only [Contents.without_eq_some, and_assoc, exists_and_left]

end PositionalIndex

end WildcardIndex
