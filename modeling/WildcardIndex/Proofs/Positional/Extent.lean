import Mathlib.Data.List.Basic
import WildcardIndex.Proofs.Positional.Lookup
/-!
# Positions — how far they reach

A set stays once it is there, also when it has become empty. So what bounds the
positions in use is not what is filed now, but every value there ever was: an
index is **within** a length if each of its sets was made for a value that is no
longer.
-/

namespace WildcardIndex

namespace PositionalIndex

/-- Every set was made for a value up to a length. -/
def Within (n : Nat) (x : PositionalIndex) : Prop :=
  ∀ k, (x.at? k).isSome → ∃ v : Bytes, v.length ≤ n ∧ k ∈ places v

variable {b : Backend} {x : PositionalIndex} {n : Nat} {c : UInt8} {q : Position} {s : RecordSet}

theorem within_empty (b : Backend) (n : Nat) : (empty b).Within n := by
  intro k hk
  rw [at?_empty] at hk
  cases hk

/-- Only adding makes sets. -/
theorem Within.add (h : x.Within n) (hx : x.Valid b) {v : Bytes} (hv : v.length ≤ n) (r : Record) :
    (x.add r v).Within n := by
  intro k hk
  rcases (isSome_at?_add hx).1 hk with hmem | hold
  · exact ⟨v, hv, hmem⟩
  · exact h k hold

theorem Within.remove (h : x.Within n) (hx : x.Valid b) (r : Record) (v : Bytes) :
    (x.remove r v).Within n := by
  intro k hk
  rw [isSome_at?_remove hx] at hk
  exact h k hk

theorem Within.subtract (h : x.Within n) (hx : x.Valid b) (gone : RecordSet) :
    (x.subtract gone).Within n := by
  intro k hk
  rw [at?_subtract hx, Option.isSome_map] at hk
  exact h k hk

/-- **Positions from the start are offsets into values of that length.** -/
theorem Within.forward (h : x.Within n) (hx : x.Valid b) (hn : n < Tables.positionLimit)
    (hq : (q, s) ∈ (x.forward.get c).toList) : 0 ≤ q.toInt ∧ q.toInt < n := by
  have hsome : (x.at? (.fromStart c q)).isSome := by
    rw [at?, (PositionList.mem_entries_iff (hx.forward c)).1 hq]
    rfl
  obtain ⟨v, hv, hplace⟩ := h _ hsome
  obtain ⟨i, hi, rfl⟩ := fromStart_mem_places.1 hplace
  have hlt := (List.getElem?_eq_some_iff.1 hi).1
  rw [toInt_positionOf (by omega)]
  omega

/-- **And those from the end are distances in such values.** -/
theorem Within.backward (h : x.Within n) (hx : x.Valid b) (hn : n < Tables.positionLimit)
    (hq : (q, s) ∈ (x.backward.get c).toList) : -(n : Int) ≤ q.toInt ∧ q.toInt ≤ -1 := by
  have hsome : (x.at? (.fromEnd c q)).isSome := by
    rw [at?, (PositionList.mem_entries_iff (hx.backward c)).1 hq]
    rfl
  obtain ⟨v, hv, hplace⟩ := h _ hsome
  obtain ⟨i, hi, rfl⟩ := fromEnd_mem_places.1 hplace
  have hlt := (List.getElem?_eq_some_iff.1 hi).1
  rw [toInt_neg_positionOf (by omega)]
  omega

end PositionalIndex

end WildcardIndex
