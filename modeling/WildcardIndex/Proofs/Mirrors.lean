import Mathlib.Data.List.Basic
import WildcardIndex.Proofs.Positional.Lookup
import WildcardIndex.Proofs.Tables
/-!
# Tables — set by set

Tables that represent values **mirror** them: a record is in the set stored
under exactly a place or a length if its value has it, for each of the five
kinds of sets, and a record without a value is in no set.
-/

namespace WildcardIndex

namespace Tables

/-- The tables say of each record what the values say, in each of their five
kinds of sets. -/
structure Mirrors (m : Contents Bytes) (t : Tables) : Prop where
  /-- No offset has two sets. -/
  forward_ascending : ∀ c, (t.positional.forward.get c).toList.Pairwise fun e f => e.1 < f.1
  /-- No distance from the end has two sets. -/
  backward_ascending : ∀ c, (t.positional.backward.get c).toList.Pairwise fun e f => e.1 < f.1
  /-- The set stored under exactly a position from the start. -/
  forward : ∀ c q r, (∃ s, (q, s) ∈ (t.positional.forward.get c).toList ∧ r ∈ s) ↔
    ∃ v, m r = some v ∧ 0 ≤ q.toInt ∧ v[q.toInt.toNat]? = some c
  /-- The set stored under exactly a position from the end. -/
  backward : ∀ c q r, (∃ s, (q, s) ∈ (t.positional.backward.get c).toList ∧ r ∈ s) ↔
    ∃ v, m r = some v ∧ ∃ k : Nat, q.toInt = -k ∧ 1 ≤ k ∧ k ≤ v.length ∧ v[v.length - k]? = some c
  /-- The set of a byte. -/
  presence : ∀ c r, (∃ s, t.positional.presence.get c = some s ∧ r ∈ s) ↔ ∃ v, m r = some v ∧ c ∈ v
  /-- The set of exactly a length. -/
  exactly : ∀ n r, (∃ s, t.length.exactly? n = some s ∧ r ∈ s) ↔ ∃ v, m r = some v ∧ v.length = n
  /-- The set of at least a length. -/
  atLeast : ∀ n r, n < t.length.slots →
    ((∃ s, t.length.atLeast? n = some s ∧ r ∈ s) ↔ ∃ v, m r = some v ∧ n ≤ v.length)

/-- A record is in some set of the tables. -/
def Mentions (t : Tables) (r : Record) : Prop :=
  (∃ c q s, (q, s) ∈ (t.positional.forward.get c).toList ∧ r ∈ s) ∨
    (∃ c q s, (q, s) ∈ (t.positional.backward.get c).toList ∧ r ∈ s) ∨
    (∃ c s, t.positional.presence.get c = some s ∧ r ∈ s) ∨
    (∃ n s, t.length.exactly? n = some s ∧ r ∈ s) ∨
    (∃ n s, t.length.atLeast? n = some s ∧ r ∈ s)

variable {b : Backend} {m : Contents Bytes} {t : Tables} {r : Record}

theorem Represents.mirrors (h : t.Represents b m) : t.Mirrors m where
  forward_ascending := h.positional.forward
  backward_ascending := h.positional.backward
  forward _ _ _ := h.positional.mem_forward_entries fun _ _ => h.length_lt
  backward _ _ _ := h.positional.mem_backward_entries fun _ _ => h.length_lt
  presence c r := by
    refine (h.positional.holds_iff (.anywhere c) r).trans ?_
    simp only [PositionalIndex.anywhere_mem_places]
  exactly n r := by
    rw [h.length.mem_exactly, lengths_eq_some]
  atLeast n r _ := by
    rw [← LengthIndex.mem_atLeast_iff, h.length.mem_atLeast]
    simp only [lengths_eq_some]
    constructor
    · rintro ⟨k, ⟨v, hv, rfl⟩, hle⟩
      exact ⟨v, hv, hle⟩
    · rintro ⟨v, hv, hle⟩
      exact ⟨_, ⟨v, hv, rfl⟩, hle⟩

/-- A record in some set is filed. -/
theorem Represents.isSome_of_mentions (h : t.Represents b m) (hr : t.Mentions r) : (m r).isSome := by
  have hmirrors := h.mirrors
  have hsome : ∀ {P : Bytes → Prop}, (∃ v, m r = some v ∧ P v) → (m r).isSome := by
    rintro P ⟨v, hv, -⟩
    rw [hv]
    rfl
  rcases hr with ⟨c, q, hr⟩ | ⟨c, q, hr⟩ | ⟨c, hr⟩ | ⟨n, hr⟩ | ⟨n, hr⟩
  · exact hsome ((hmirrors.forward c q r).1 hr)
  · exact hsome ((hmirrors.backward c q r).1 hr)
  · exact hsome ((hmirrors.presence c r).1 hr)
  · exact hsome ((hmirrors.exactly n r).1 hr)
  · obtain ⟨s, hs, hmem⟩ := hr
    have hslot : n < t.length.slots := by
      rw [← h.length.isSome_atLeast?, hs]
      rfl
    exact hsome ((hmirrors.atLeast n r hslot).1 ⟨s, hs, hmem⟩)

end Tables

end WildcardIndex
