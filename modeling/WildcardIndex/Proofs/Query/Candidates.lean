import Mathlib.Data.List.Basic
import WildcardIndex.Proofs.Query.Placement
import WildcardIndex.Query.Candidates
/-!
# Queries — every strategy answers the pattern

Whatever strategy the shape of a pattern calls for, the candidates over tables
that represent values are the records whose value the pattern matches. Each
strategy is one form of the pattern's parts fitting a value.
-/

namespace WildcardIndex

namespace Tables

variable {b : Backend} {m : Contents Bytes} {t : Tables} {r : Record} {v : Bytes}
variable {tombstones : RecordSet}

theorem Valid.candidates (h : t.Valid b) (p : Pattern) : (t.candidates p).Valid b := by
  have honPart : ∀ f : Part → RecordSet, (∀ q, (f q).Valid b) → (t.onPart p f).Valid b := by
    intro f hf
    unfold onPart
    split
    · exact hf _
    · exact h.nothing
  unfold Tables.candidates
  split
  · cases hexact : t.length.exactly? 0 with
    | none => exact h.nothing
    | some s => exact h.length.exactly 0 s hexact
  · exact h.length.valid_atLeast 0
  · exact honPart _ h.exactly
  · exact honPart _ fun q => valid_longEnough t (h.partAt q 0) q.length
  · exact honPart _ fun q => valid_longEnough t (h.partAtEnd q) q.length
  · exact honPart _ h.anywhere
  · exact h.placed p

/-- A part at the start of long enough values: none of the values is cut off. -/
theorem Represents.mem_startingWith (h : t.Represents b m) {q : Part} :
    r ∈ t.longEnough (t.partAt q 0) q.length ↔ ∃ v, m r = some v ∧ q.At v 0 := by
  rw [mem_longEnough h.valid.oneKind (h.valid.partAt q 0).backend_eq, h.mem_atLeast]
  constructor
  · rintro ⟨hat, v, hv, hlen⟩
    have := h.length_lt hv
    exact (h.mem_partAt (by omega)).1 hat
  · rintro ⟨v, hv, hat⟩
    have := h.length_lt hv
    have := hat.add_length_le
    exact ⟨(h.mem_partAt (by omega)).2 ⟨v, hv, hat⟩, v, hv, by omega⟩

theorem Represents.mem_endingWith (h : t.Represents b m) {q : Part} :
    r ∈ t.longEnough (t.partAtEnd q) q.length ↔
      ∃ v, m r = some v ∧ q.length ≤ v.length ∧ q.At v (v.length - q.length) := by
  rw [mem_longEnough h.valid.oneKind (h.valid.partAtEnd q).backend_eq, h.mem_atLeast, h.mem_partAtEnd,
    Contents.exists_and_exists]
  exact exists_congr fun v => and_congr_right fun _ => and_iff_left_of_imp And.left

/-- **Each strategy answers with the values that the parts fit.** The cases are
the shapes a strategy is chosen by. -/
theorem Represents.mem_candidates_iff_fits (h : t.Represents b m) (p : Bytes) :
    r ∈ t.candidates (.ofBytes p) ↔ ∃ v, m r = some v ∧ (Pattern.ofBytes p).Fits v := by
  by_cases hp : p = []
  · subst hp
    have hexact := h.mem_exactly (r := r) (n := 0)
    simp only [List.length_eq_zero_iff] at hexact
    refine Iff.trans ?_ hexact
    show r ∈ (t.length.exactly? 0).getD t.nothing ↔ _
    cases t.length.exactly? 0 <;> simp
  have hsource : ¬ (Pattern.ofBytes p).isEmpty = true := by
    rw [Pattern.isEmpty, List.isEmpty_iff]
    exact hp
  unfold candidates Pattern.strategy onPart
  rw [if_neg hsource]
  cases hparts : (Pattern.ofBytes p).parts with
  | nil =>
    -- runs only: every filed value, and none of them is too short
    obtain ⟨hstart, hend⟩ := Pattern.runs_of_parts_nil hp hparts
    simp only [Pattern.Fits, hparts, hstart, hend, if_true, Pattern.Laid, LengthIndex.all]
    rw [h.mem_atLeast]
    simp
  | cons q qs =>
    cases qs with
    | nil =>
      unfold Pattern.Fits
      rw [hparts]
      cases (Pattern.ofBytes p).startsWithRun <;> cases (Pattern.ofBytes p).endsWithRun
      · -- exact
        refine h.mem_exactlyPart.trans (exists_congr fun v => and_congr_right fun _ => ?_)
        simp only [Bool.false_eq_true, if_false, Pattern.Laid, false_or]
        exact and_congr_right fun hat => ⟨fun hlen => ⟨by omega, hlen.symm⟩, fun hend => hend.2.symm⟩
      · -- a run after the part
        refine h.mem_startingWith.trans (exists_congr fun v => and_congr_right fun _ => ?_)
        simp only [Bool.false_eq_true, if_false, Pattern.Laid, true_or, and_true]
        exact (and_iff_left_of_imp fun hat => by simpa using hat.add_length_le).symm
      · -- a run before it
        refine h.mem_endingWith.trans (exists_congr fun v => and_congr_right fun _ => ?_)
        simp only [if_true, Pattern.Laid, Bool.false_eq_true, false_or]
        constructor
        · rintro ⟨hlen, hat⟩
          exact ⟨_, Nat.zero_le _, hat, hat.add_length_le, by omega⟩
        · rintro ⟨i, -, hat, hle, hend⟩
          rw [show v.length - q.length = i by omega]
          exact ⟨by omega, hat⟩
      · -- runs on both sides
        refine h.mem_anywhere.trans (exists_congr fun v => and_congr_right fun _ => ?_)
        simp only [if_true, Pattern.Laid, true_or, and_true, Nat.zero_le, true_and]
        exact exists_congr fun i => (and_iff_left_of_imp Part.At.add_length_le).symm
    | cons q' qs => exact h.mem_placed hparts (List.cons_ne_nil q' qs)

/-- **Candidates are the records whose value matches.** -/
theorem Represents.mem_candidates (h : t.Represents b m) (p : Bytes) :
    r ∈ t.candidates (.ofBytes p) ↔ ∃ v, m r = some v ∧ Pattern.Matches p v := by
  simp only [h.mem_candidates_iff_fits, Pattern.matches_iff_fits]

/-- An answer leaves the tombstoned ones out. -/
theorem Represents.mem_answer (h : t.Represents b m) (ht : tombstones.Valid b) (p : Bytes) :
    r ∈ t.answer tombstones (.ofBytes p) ↔
      r ∉ tombstones ∧ ∃ v, m r = some v ∧ Pattern.Matches p v := by
  rw [answer, ← h.mem_candidates p]
  split
  · rename_i hempty
    exact (and_iff_right (RecordSet.not_mem_of_isEmpty hempty)).symm
  · rw [RecordSet.mem_diff ((h.valid.candidates _).backend_eq_backend ht), and_comm]

theorem Valid.answer (h : t.Valid b) (tombstones : RecordSet) (p : Pattern) :
    (t.answer tombstones p).Valid b := by
  unfold Tables.answer
  split
  · exact h.candidates p
  · exact (h.candidates p).diff tombstones

/-- **Halves filled apart answer every pattern**, each filled in an order of its
own and with records that came and went. -/
theorem mem_candidates_of_filled {x : PositionalIndex} {y : LengthIndex} (hx : x.Filled b m)
    (hy : y.Filled b (lengths m)) (p : Bytes) (r : Record) :
    r ∈ candidates ⟨x, y⟩ (.ofBytes p) ↔ ∃ v, m r = some v ∧ Pattern.Matches p v :=
  (represents_of_filled hx hy).mem_candidates p

/-- Record 7 came and went, in the lengths after record 3 had come. The pattern
is an `a` and a run. -/
theorem candidates_without_removed :
    (3 : Record) ∈ candidates
        ⟨(((PositionalIndex.empty .dense).add 7 [97, 98]).remove 7 [97, 98]).add 3 [97, 99],
          (((LengthIndex.empty .dense).add 3 2).add 7 2).remove 7 2⟩ (.ofBytes [97, 37]) ∧
      (7 : Record) ∉ candidates
        ⟨(((PositionalIndex.empty .dense).add 7 [97, 98]).remove 7 [97, 98]).add 3 [97, 99],
          (((LengthIndex.empty .dense).add 3 2).add 7 2).remove 7 2⟩ (.ofBytes [97, 37]) := by
  have hx := ((PositionalIndex.Filled.empty.add [97, 98] (b := .dense) (r := 7) rfl).remove
    (r := 7) rfl).add [97, 99] (r := 3) rfl
  have hy := ((LengthIndex.Filled.empty.add (b := .dense) (r := 3) (n := 2) rfl (by decide)).add
    (r := 7) (n := 2) rfl (by decide)).remove (r := 7) rfl
  have hlengths : lengths (((Contents.none.set 7 (some [97, 98])).set 7 none).set 3 (some [97, 99])) =
      ((Contents.none.set 3 (some 2)).set 7 (some 2)).set 7 none := by
    funext u
    by_cases h3 : u = 3
    · subst h3
      rfl
    · by_cases h7 : u = 7
      · subst h7
        rfl
      · rw [lengths_set, lengths_set, lengths_set]
        simp only [Contents.set_of_ne h3, Contents.set_of_ne h7]
        rfl
  rw [← hlengths] at hy
  refine ⟨(mem_candidates_of_filled hx hy _ 3).2 ⟨[97, 99], rfl, by decide⟩, ?_⟩
  rw [mem_candidates_of_filled hx hy]
  rintro ⟨v, hv, -⟩
  cases hv

end Tables

end WildcardIndex
