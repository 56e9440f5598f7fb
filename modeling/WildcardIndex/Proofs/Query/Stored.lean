import Mathlib.Data.List.Basic
import WildcardIndex.Proofs.Query.Part
/-!
# Queries — the sets that are stored

Tables are sets, each stored for a place or for a length. Whatever a query looks
up is one of them, and to subtract from the tables is to subtract from each.
-/

namespace WildcardIndex

variable {b : Backend} {gone s : RecordSet}

/-- The sets of all positions, those of the bytes by offset first. -/
def PositionalIndex.sets (x : PositionalIndex) : List RecordSet :=
  (x.forward.toList ++ x.backward.toList).flatMap (fun l => l.toList.map Prod.snd)
    ++ x.presence.toList.filterMap id

/-- The sets of all lengths, those of exactly a length first. -/
def LengthIndex.sets (x : LengthIndex) : List RecordSet :=
  x.exact.toList.filterMap id ++ x.cumulative.toList

/-- Every set of the tables. -/
def Tables.sets (t : Tables) : List RecordSet := t.positional.sets ++ t.length.sets

/-! ## Where they are stored -/

/-- A set of the positions is stored for a place. -/
theorem PositionalIndex.Valid.mem_sets_iff {x : PositionalIndex} (h : x.Valid b) :
    s ∈ x.sets ↔ ∃ k, x.at? k = some s := by
  have hforward : ∀ c q, (q, s) ∈ (x.forward.get c).toList ↔ x.at? (.fromStart c q) = some s :=
    fun c q => PositionList.mem_entries_iff (h.forward c)
  have hbackward : ∀ c q, (q, s) ∈ (x.backward.get c).toList ↔ x.at? (.fromEnd c q) = some s :=
    fun c q => PositionList.mem_entries_iff (h.backward c)
  simp only [PositionalIndex.sets, ByteTable.toList_eq, List.mem_append, List.mem_flatMap,
    List.mem_map, List.mem_filterMap, Prod.exists, exists_eq_right]
  constructor
  · rintro (⟨l, ⟨c, -, rfl⟩ | ⟨c, -, rfl⟩, q, hq⟩ | ⟨o, ⟨c, -, rfl⟩, hc⟩)
    · exact ⟨_, (hforward c q).1 hq⟩
    · exact ⟨_, (hbackward c q).1 hq⟩
    · exact ⟨.anywhere c, hc⟩
  · rintro ⟨⟨c, q⟩ | ⟨c, q⟩ | c, hk⟩
    · exact .inl ⟨_, .inl ⟨c, ByteTable.mem_bytes c, rfl⟩, q, (hforward c q).2 hk⟩
    · exact .inl ⟨_, .inr ⟨c, ByteTable.mem_bytes c, rfl⟩, q, (hbackward c q).2 hk⟩
    · exact .inr ⟨_, ⟨c, ByteTable.mem_bytes c, rfl⟩, hk⟩

/-- A set of the lengths is stored for a length, in one of two ways. -/
theorem LengthIndex.mem_sets_iff {x : LengthIndex} :
    s ∈ x.sets ↔ (∃ n, x.exactly? n = some s) ∨ ∃ n, x.atLeast? n = some s := by
  simp only [sets, List.mem_append, List.mem_filterMap, id_eq, exists_eq_right]
  simp only [exactly?, atLeast?, List.mem_iff_getElem?, Array.getElem?_toList,
    Option.join_eq_some_iff]

namespace Tables

variable {t : Tables}

theorem Valid.mem_sets_of_at? (h : t.Valid b) {k : PositionalIndex.Place}
    (hs : t.positional.at? k = some s) : s ∈ t.sets :=
  List.mem_append_left _ (h.positional.mem_sets_iff.2 ⟨k, hs⟩)

theorem mem_sets_of_exactly? {n : Nat} (hs : t.length.exactly? n = some s) : s ∈ t.sets :=
  List.mem_append_right _ (LengthIndex.mem_sets_iff.2 (.inl ⟨n, hs⟩))

theorem mem_sets_of_atLeast? {n : Nat} (hs : t.length.atLeast? n = some s) : s ∈ t.sets :=
  List.mem_append_right _ (LengthIndex.mem_sets_iff.2 (.inr ⟨n, hs⟩))

theorem Valid.valid_of_mem_sets (h : t.Valid b) (hs : s ∈ t.sets) : s.Valid b := by
  rcases List.mem_append.1 hs with hs | hs
  · obtain ⟨k, hk⟩ := h.positional.mem_sets_iff.1 hs
    exact h.positional.sets k s hk
  · obtain ⟨n, hn⟩ | ⟨n, hn⟩ := LengthIndex.mem_sets_iff.1 hs
    · exact h.length.exactly n s hn
    · exact h.length.atLeast n s hn

end Tables

/-! ## Subtracting from them -/

theorem ByteTable.toList_map {α β : Type} (f : α → β) (t : ByteTable α) :
    (t.map f).toList = t.toList.map f := Vector.toList_map

theorem PositionList.toList_subtract (l : PositionList) (gone : RecordSet) :
    (l.subtract gone).toList = l.toList.map fun (q, s) => (q, s.diff gone) := by
  rw [toList, subtract, Array.toList_map]
  rfl

theorem filterMap_id_map {α : Type} (f : α → α) (os : List (Option α)) :
    (os.map (·.map f)).filterMap id = (os.filterMap id).map f := by
  rw [List.filterMap_map, List.map_filterMap]
  rfl

/-- **Subtracting a set takes it from every set of the tables**, and does nothing
else to them. -/
theorem Tables.sets_subtract (t : Tables) (gone : RecordSet) :
    (t.subtract gone).sets = t.sets.map (·.diff gone) := by
  have hlists : ∀ ls : List PositionList,
      (ls.map (·.subtract gone)).flatMap (fun l => l.toList.map Prod.snd) =
        (ls.flatMap fun l => l.toList.map Prod.snd).map (·.diff gone) := by
    intro ls
    rw [List.flatMap_map, List.map_flatMap]
    refine congrArg (List.flatMap · ls) (funext fun l => ?_)
    rw [PositionList.toList_subtract, List.map_map, List.map_map]
    rfl
  simp only [sets, PositionalIndex.sets, LengthIndex.sets, subtract, PositionalIndex.subtract,
    LengthIndex.subtract, ByteTable.toList_map, Array.toList_map, ← List.map_append, hlists,
    filterMap_id_map]

end WildcardIndex
