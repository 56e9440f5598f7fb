import Mathlib.Data.List.Basic
import WildcardIndex.Proofs.Query.Part
/-!
# Queries — a part at any offset, and from either end

Tables whose halves were filled apart answer for a part at every offset there
is. Offsets are brought to 32 bits before they are looked up and lengths are
not, so the answer is the part where it stands as long as its offsets fit;
beyond, **the same bytes are found again every 2^32 offsets**.

Counting from the end is no other question: the records that end with a part
are those that have it, for some length, at the offset that leaves nothing
behind it.
-/

namespace WildcardIndex

namespace Tables

variable {b : Backend} {m : Contents Bytes} {t : Tables} {r : Record} {p : Part} {n : Nat}
variable {x : PositionalIndex} {y : LengthIndex}

/-- The records of exactly a length, none if the length has no set. -/
theorem Represents.mem_exactly_getD (h : t.Represents b m) :
    r ∈ (t.length.exactly? n).getD t.nothing ↔ ∃ v, m r = some v ∧ v.length = n := by
  rw [← h.mem_exactly]
  cases t.length.exactly? n <;> simp

theorem Valid.exactly_getD (h : t.Valid b) (n : Nat) :
    ((t.length.exactly? n).getD t.nothing).Valid b := by
  cases hn : t.length.exactly? n with
  | none => exact h.nothing
  | some s => exact h.length.exactly n s hn

/-! ## At an offset -/

/-- **A part is found at an offset where its literals come to lie at 32 bits.**
That is where it stands if the offsets of all its bytes fit, and at any offset
if it is held against the length itself; then nothing is found of a part that
ends beyond every value. -/
theorem mem_partAt_of_filled (hx : x.Filled b m) (hy : y.Filled b (lengths m)) (p : Part) (i : Nat) :
    (∀ r, r ∈ partAt ⟨x, y⟩ p i ↔ ∃ v, m r = some v ∧ p.FoundAt v i) ∧
      (i + p.length ≤ UInt32.size ∨ (p.isEmpty || (p.wildTail && !p.allWild)) = true →
        (∀ r, r ∈ partAt ⟨x, y⟩ p i ↔ ∃ v, m r = some v ∧ p.At v i) ∧
          ((∀ r v, m r = some v → v.length < i + p.length) → ∀ r, r ∉ partAt ⟨x, y⟩ p i)) := by
  have h := represents_of_filled hx hy
  have hfound := fun r => h.mem_partAt_iff_foundAt (r := r) (p := p) (i := i)
  refine ⟨hfound, fun hfits => ?_⟩
  have hstands : ∀ r, r ∈ partAt ⟨x, y⟩ p i ↔ ∃ v, m r = some v ∧ p.At v i := by
    intro r
    rw [hfound]
    refine exists_congr fun v => and_congr_right fun hv => ?_
    rcases hfits with hsize | hbounded
    · exact Part.foundAt_iff_at hsize
    · have hlen := h.length_lt hv
      have hsize : positionLimit ≤ UInt32.size := by decide
      exact Part.foundAt_iff_at_of_bounded hbounded (by omega)
  refine ⟨hstands, fun hshort r hr => ?_⟩
  obtain ⟨v, hv, hat⟩ := (hstands r).1 hr
  exact Nat.not_le_of_lt (hshort r v hv) hat.add_length_le

/-- A `_` and a `b` stand at the start of `ab`. At the last offset of 32 bits
they stand nowhere, but the `b` comes to lie at the start of `b`. -/
theorem partAt_across_size :
    let t : Tables := ⟨((PositionalIndex.empty .dense).add 0 [97, 98]).add 1 [98],
      ((LengthIndex.empty .dense).add 0 2).add 1 1⟩
    (0 ∈ t.partAt ⟨[95, 98]⟩ 0 ∧ 1 ∉ t.partAt ⟨[95, 98]⟩ 0) ∧
      0 ∉ t.partAt ⟨[95, 98]⟩ 4294967295 ∧ 1 ∈ t.partAt ⟨[95, 98]⟩ 4294967295 := by
  intro t
  have hx := (PositionalIndex.Filled.empty.add [97, 98] (b := .dense) (r := 0) rfl).add [98] (r := 1) rfl
  have hy := (LengthIndex.Filled.empty.add (b := .dense) (r := 0) (n := 2) rfl (by decide)).add
    (r := 1) (n := 1) rfl (by decide)
  have hlengths : lengths ((Contents.none.set 0 (some [97, 98])).set 1 (some [98])) =
      (Contents.none.set 0 (some 2)).set 1 (some 1) := by
    rw [lengths_set, lengths_set]
    rfl
  rw [← hlengths] at hy
  have hstart := ((mem_partAt_of_filled hx hy ⟨[95, 98]⟩ 0).2 (.inl (by decide))).1
  have hlast := (mem_partAt_of_filled hx hy ⟨[95, 98]⟩ 4294967295).1
  refine ⟨⟨(hstart 0).2 ⟨_, rfl, by decide⟩, ?_⟩, ?_, (hlast 1).2 ⟨_, rfl, by decide⟩⟩
  · rw [hstart, Contents.exists_iff (a := [98]) rfl]
    decide
  · rw [hlast, Contents.exists_iff (a := [97, 98]) rfl]
    decide

/-- At an offset of 2^32 an `a` is found in a value of one byte. -/
theorem partAt_of_wrapped_offset :
    (0 : Record) ∈ partAt ⟨(PositionalIndex.empty .dense).add 0 [97], (LengthIndex.empty .dense).add 0 1⟩
        ⟨[97]⟩ 4294967296 ∧
      ¬ Part.At ⟨[97]⟩ [97] 4294967296 := by
  have h := (represents_empty .dense).add (r := 0) (v := [97]) rfl (by decide)
  exact ⟨h.mem_partAt_iff_foundAt.2 ⟨[97], rfl, by decide⟩, by decide⟩

/-! ## From the end -/

/-- **Looking a part up from the end is looking it up where it leaves nothing
behind**, length by length. Either way the records found are those whose value
ends with the part. -/
theorem mem_partAtEnd_of_filled (hx : x.Filled b m) (hy : y.Filled b (lengths m)) (p : Part)
    (r : Record) :
    let t : Tables := ⟨x, y⟩
    (r ∈ t.partAtEnd p ↔
        ∃ v, m r = some v ∧ p.length ≤ v.length ∧ p.At v (v.length - p.length)) ∧
      (r ∈ t.partAtEnd p ↔ ∃ n, p.length ≤ n ∧
        r ∈ ((t.length.exactly? n).getD t.nothing).inter (t.partAt p (n - p.length))) := by
  intro t
  have h : t.Represents b m := represents_of_filled hx hy
  refine ⟨h.mem_partAtEnd, h.mem_partAtEnd.trans ?_⟩
  have hinter : ∀ n, r ∈ ((t.length.exactly? n).getD t.nothing).inter (t.partAt p (n - p.length)) ↔
      (∃ v, m r = some v ∧ v.length = n) ∧ r ∈ t.partAt p (n - p.length) := by
    intro n
    rw [RecordSet.mem_inter ((h.valid.exactly_getD n).backend_eq_backend (h.valid.partAt p _)),
      h.mem_exactly_getD]
  simp only [hinter]
  constructor
  · rintro ⟨v, hv, hle, hat⟩
    have hlen := h.length_lt hv
    exact ⟨v.length, hle, ⟨v, hv, rfl⟩, (h.mem_partAt (by omega)).2 ⟨v, hv, hat⟩⟩
  · rintro ⟨n, hle, ⟨v, hv, rfl⟩, hr⟩
    have hlen := h.length_lt hv
    -- a length that some value has fits the positions, and with it the offset
    rw [h.mem_partAt (by omega), Contents.exists_iff hv] at hr
    exact ⟨v, hv, hle, hr⟩

/-- A `_` and a `b` end `cab`, at the offset that leaves nothing behind of three
bytes. They do not end `b`, which has the literal and no byte for the `_`. -/
theorem partAtEnd_of_wildHead :
    let t : Tables := ⟨((PositionalIndex.empty .roaring).add 0 [98]).add 1 [99, 97, 98],
      ((LengthIndex.empty .roaring).add 0 1).add 1 3⟩
    0 ∉ t.partAtEnd ⟨[95, 98]⟩ ∧ 1 ∈ t.partAtEnd ⟨[95, 98]⟩ ∧
      ∃ n, 2 ≤ n ∧ 1 ∈ ((t.length.exactly? n).getD t.nothing).inter (t.partAt ⟨[95, 98]⟩ (n - 2)) := by
  intro t
  have hx := (PositionalIndex.Filled.empty.add [98] (b := .roaring) (r := 0) rfl).add [99, 97, 98]
    (r := 1) rfl
  have hy := (LengthIndex.Filled.empty.add (b := .roaring) (r := 0) (n := 1) rfl (by decide)).add
    (r := 1) (n := 3) rfl (by decide)
  have hlengths : lengths ((Contents.none.set 0 (some [98])).set 1 (some [99, 97, 98])) =
      (Contents.none.set 0 (some 1)).set 1 (some 3) := by
    rw [lengths_set, lengths_set]
    rfl
  rw [← hlengths] at hy
  have hends := fun r => mem_partAtEnd_of_filled hx hy ⟨[95, 98]⟩ r
  have hfound := (hends 1).1.2 ⟨_, rfl, by decide, by decide⟩
  refine ⟨?_, hfound, (hends 1).2.1 hfound⟩
  rw [(hends 0).1, Contents.exists_iff (a := [98]) rfl]
  decide

end Tables

end WildcardIndex
