import Mathlib.Data.List.Basic
import WildcardIndex.Proofs.Query.Kinds
import WildcardIndex.Query.Placement
/-!
# Queries — the search finds what is laid out

What the search adds to its answer is described placement by placement: a
record is **reached** from a placement if some choice of offsets keeps it among
the records until no part is left. Order and emptiness of placements do not
matter for that (`mem_search`). Over tables that represent values, a record is
reached exactly if its value has the parts laid out in it.
-/

namespace WildcardIndex

namespace Tables

variable {b : Backend} {m : Contents Bytes} {t : Tables} {r : Record} {v : Bytes} {p : Part}
variable {s : RecordSet} {i n next : Nat} {openEnd anchored : Bool} {rest ps : List Part}

/-- Some choice of offsets for the parts has the record at each of them. -/
def Reached (t : Tables) (openEnd : Bool) (r : Record) : List Part → Bool → Nat → Prop
  | [], _, _ => True
  | p :: rest, anchored, next =>
    if rest = [] ∧ openEnd = false then
      r ∈ t.partAtEnd p ∧ r ∈ t.length.atLeast (next + p.length)
    else
      ∃ i ∈ t.offsets p rest anchored next, r ∈ t.partAt p i ∧
        Reached t openEnd r rest false (i + p.length)

/-! ## Closing and opening -/

theorem Valid.closing (h : t.Valid b) (p : Part) (next : Nat) (s : RecordSet) :
    (t.closing p next s).Valid b :=
  valid_longEnough t ((h.partAtEnd p).inter s) _

theorem OneKind.closing (h : t.OneKind b) (p : Part) (next : Nat) (s : RecordSet) :
    (t.closing p next s).backend = b := by
  rw [Tables.closing, backend_longEnough, RecordSet.backend_inter, h.partAtEnd]

theorem mem_closing (h : t.OneKind b) (hs : s.backend = b) :
    r ∈ t.closing p next s ↔
      r ∈ s ∧ r ∈ t.partAtEnd p ∧ r ∈ t.length.atLeast (next + p.length) := by
  have hend := h.partAtEnd p
  rw [closing, mem_longEnough h ((RecordSet.backend_inter _ s).trans hend),
    RecordSet.mem_inter (hend.trans hs.symm), and_comm (a := r ∈ t.partAtEnd p), and_assoc]

/-- An opening puts the part at one of the offsets, with a record there. -/
theorem mem_openings_iff {pl : Placement} :
    pl ∈ t.openings p rest anchored next s ↔ ∃ i ∈ t.offsets p rest anchored next,
      ((t.partAt p i).inter s).isEmpty = false ∧
        pl = ⟨rest, false, i + p.length, (t.partAt p i).inter s⟩ := by
  simp only [openings, List.mem_filterMap]
  refine exists_congr fun i => and_congr_right fun _ => ?_
  cases ((t.partAt p i).inter s).isEmpty <;> simp [eq_comm]

theorem Valid.openings (h : t.Valid b) {pl : Placement}
    (hpl : pl ∈ t.openings p rest anchored next s) : pl.records.Valid b := by
  obtain ⟨i, -, -, rfl⟩ := mem_openings_iff.1 hpl
  exact (h.partAt p i).inter s

theorem OneKind.openings (h : t.OneKind b) {pl : Placement}
    (hpl : pl ∈ t.openings p rest anchored next s) : pl.records.backend = b := by
  obtain ⟨i, -, -, rfl⟩ := mem_openings_iff.1 hpl
  exact (RecordSet.backend_inter _ s).trans (h.partAt p i)

/-- An opening keeps the records that have the part at its offset. Where there
are none it is left out, and none is lost. -/
theorem exists_mem_openings (h : t.OneKind b) (hs : s.backend = b)
    (R : List Part → Bool → Nat → Prop) :
    (∃ pl ∈ t.openings p rest anchored next s, r ∈ pl.records ∧ R pl.parts pl.anchored pl.next) ↔
      r ∈ s ∧ ∃ i ∈ t.offsets p rest anchored next,
        r ∈ t.partAt p i ∧ R rest false (i + p.length) := by
  have hmem := fun i => RecordSet.mem_inter (v := r) ((h.partAt p i).trans hs.symm)
  simp only [mem_openings_iff]
  constructor
  · rintro ⟨pl, ⟨i, hi, -, rfl⟩, hr, hR⟩
    obtain ⟨hat, hrs⟩ := (hmem i).1 hr
    exact ⟨hrs, i, hi, hat, hR⟩
  · rintro ⟨hrs, i, hi, hat, hR⟩
    have hr := (hmem i).2 ⟨hat, hrs⟩
    have hsome : ((t.partAt p i).inter s).isEmpty = false :=
      Bool.eq_false_iff.2 fun hempty => RecordSet.not_mem_of_isEmpty hempty hr
    exact ⟨_, ⟨i, hi, hsome, rfl⟩, hr, hR⟩

/-! ## The search -/

/-- **The search adds what is reached from some waiting placement.** The
induction follows the search; each of its steps takes one placement off the
stack, and the openings it puts there reach what that placement reached. -/
theorem mem_search (h : t.OneKind b) (openEnd : Bool) (waiting : List Placement) (found : RecordSet)
    (hw : ∀ pl ∈ waiting, pl.records.backend = b) (hf : found.backend = b) :
    r ∈ t.search openEnd waiting found ↔
      r ∈ found ∨ ∃ pl ∈ waiting,
        r ∈ pl.records ∧ t.Reached openEnd r pl.parts pl.anchored pl.next := by
  fun_induction search t openEnd waiting found with
  | case1 found => simp
  | case2 found anchored next s waiting ih =>
    have hs := hw _ List.mem_cons_self
    rw [ih (fun pl hpl => hw pl (List.mem_cons_of_mem _ hpl))
      ((RecordSet.backend_union _ s).trans hf), RecordSet.mem_union (hf.trans hs.symm), List.exists_mem_cons_iff, or_assoc]
    simp [Reached]
  | case3 found p rest anchored next s waiting hlast ih =>
    rw [Bool.and_eq_true, List.isEmpty_iff, Bool.not_eq_true'] at hlast
    have hs := hw _ List.mem_cons_self
    have hclosing := h.closing p next s
    rw [ih (fun pl hpl => hw pl (List.mem_cons_of_mem _ hpl))
      ((RecordSet.backend_union _ _).trans hf), RecordSet.mem_union (hf.trans hclosing.symm), mem_closing h hs, List.exists_mem_cons_iff,
      or_assoc, Reached, if_pos hlast]
  | case4 found p rest anchored next s waiting hmore ih =>
    rw [Bool.and_eq_true, List.isEmpty_iff, Bool.not_eq_true'] at hmore
    have hs := hw _ List.mem_cons_self
    have hwaiting : ∀ pl ∈ (t.openings p rest anchored next s).reverse ++ waiting,
        pl.records.backend = b := by
      intro pl hpl
      rcases List.mem_append.1 hpl with hpl | hpl
      · exact h.openings (List.mem_reverse.1 hpl)
      · exact hw pl (List.mem_cons_of_mem _ hpl)
    rw [ih hwaiting hf, List.exists_mem_cons_iff, Reached, if_neg hmore,
      ← exists_mem_openings h hs (t.Reached openEnd r)]
    simp only [List.mem_append, List.mem_reverse, or_and_right, exists_or]

/-- Started with one placement and nothing found, it finds what that reaches. -/
theorem mem_search_start (h : t.OneKind b) {pl : Placement} (hpl : pl.records.backend = b) :
    r ∈ t.search openEnd [pl] t.nothing ↔
      r ∈ pl.records ∧ t.Reached openEnd r pl.parts pl.anchored pl.next := by
  rw [mem_search h openEnd [pl] t.nothing (fun pl' hpl' => List.mem_singleton.1 hpl' ▸ hpl)
    h.nothing, or_iff_right not_mem_nothing]
  simp only [List.mem_singleton, exists_eq_left]

theorem Valid.search (h : t.Valid b) (openEnd : Bool) (waiting : List Placement) (found : RecordSet)
    (hw : ∀ pl ∈ waiting, pl.records.Valid b) (hf : found.Valid b) :
    (t.search openEnd waiting found).Valid b := by
  fun_induction Tables.search t openEnd waiting found with
  | case1 found => exact hf
  | case2 found anchored next s waiting ih =>
    have hs := hw _ List.mem_cons_self
    exact ih (fun pl hpl => hw pl (List.mem_cons_of_mem _ hpl)) (hf.union hs)
  | case3 found p rest anchored next s waiting hlast ih =>
    exact ih (fun pl hpl => hw pl (List.mem_cons_of_mem _ hpl)) (hf.union (h.closing p next s))
  | case4 found p rest anchored next s waiting hmore ih =>
    refine ih (fun pl hpl => ?_) hf
    rcases List.mem_append.1 hpl with hpl | hpl
    · exact h.openings (List.mem_reverse.1 hpl)
    · exact hw pl (List.mem_cons_of_mem _ hpl)

/-! ## What is reached -/

theorem mem_offsets :
    i ∈ t.offsets p rest anchored next ↔
      p.length + totalLength rest ≤ t.length.maxLength ∧ next ≤ i ∧
        i ≤ if anchored then 0 else t.length.maxLength - (p.length + totalLength rest) := by
  unfold offsets
  simp only
  split
  · simp only [List.not_mem_nil, false_iff]
    omega
  · rw [List.mem_range'_1]
    omega

/-- **A record is reached if its value has the parts laid out in it.** Every
layout ends within the value, so its offsets are among those tried. -/
theorem Represents.reached_iff (h : t.Represents b m) (hv : m r = some v)
    (hends : ps ≠ [] ∨ openEnd = true) (hnext : next ≤ v.length) :
    t.Reached openEnd r ps false next ↔ Pattern.Laid openEnd v ps next := by
  have hlen := h.length_le hv
  have hlt := h.length_lt hv
  induction ps generalizing next with
  | nil => exact ⟨fun _ => ⟨hnext, .inl (hends.resolve_left (absurd rfl))⟩, fun _ => trivial⟩
  | cons p rest ih =>
    rw [Reached, Pattern.Laid]
    by_cases hlast : rest = [] ∧ openEnd = false
    · obtain ⟨rfl, rfl⟩ := hlast
      rw [if_pos ⟨rfl, rfl⟩, h.mem_partAtEnd, h.mem_atLeast, Contents.exists_iff hv,
        Contents.exists_iff hv]
      simp only [Pattern.Laid, Bool.false_eq_true, false_or]
      constructor
      · rintro ⟨⟨hle, hat⟩, hbehind⟩
        exact ⟨v.length - p.length, by omega, hat, hat.add_length_le, by omega⟩
      · rintro ⟨i, hi, hat, hle, hend⟩
        rw [show v.length - p.length = i by omega]
        exact ⟨⟨by omega, hat⟩, by omega⟩
    · have hends' : rest ≠ [] ∨ openEnd = true := by
        rw [not_and_or, Bool.not_eq_false] at hlast
        exact hlast
      rw [if_neg hlast]
      constructor
      · rintro ⟨i, hi, hat, hrest⟩
        obtain ⟨hroom, hge, hle⟩ := mem_offsets.1 hi
        have hslots := h.slots_le
        have hmax : t.length.maxLength ≤ t.length.slots := Nat.sub_le _ _
        simp only [Bool.false_eq_true, if_false] at hle
        rw [h.mem_partAt (by omega), Contents.exists_iff hv] at hat
        exact ⟨i, hge, hat, (ih hends' hat.add_length_le).1 hrest⟩
      · rintro ⟨i, hge, hat, hrest⟩
        -- the other parts take up the room that the offsets leave them
        have htotal := hrest.add_total_le
        refine ⟨i, ?_, ?_, (ih hends' hat.add_length_le).2 hrest⟩
        · rw [mem_offsets, totalLength]
          simp only [Bool.false_eq_true, if_false]
          omega
        · rw [h.mem_partAt (by omega), Contents.exists_iff hv]
          exact hat

/-- A first part that is anchored is tried at the start only. -/
theorem Represents.reached_anchored_iff (h : t.Represents b m) (hv : m r = some v)
    (hrest : rest ≠ []) :
    t.Reached openEnd r (p :: rest) true 0 ↔
      p.At v 0 ∧ Pattern.Laid openEnd v rest p.length := by
  have hlen := h.length_le hv
  have hlt := h.length_lt hv
  rw [Reached, if_neg fun hlast => hrest hlast.1]
  constructor
  · rintro ⟨i, hi, hat, hreached⟩
    obtain ⟨hroom, -, hle⟩ := mem_offsets.1 hi
    obtain rfl : i = 0 := Nat.le_zero.1 hle
    have hslots := h.slots_le
    have hmax : t.length.maxLength ≤ t.length.slots := Nat.sub_le _ _
    rw [h.mem_partAt (by omega), Contents.exists_iff hv] at hat
    rw [h.reached_iff hv (.inl hrest) hat.add_length_le, Nat.zero_add] at hreached
    exact ⟨hat, hreached⟩
  · rintro ⟨hat, hlaid⟩
    have htotal := hlaid.add_total_le
    refine ⟨0, ?_, ?_, ?_⟩
    · rw [mem_offsets, totalLength]
      simp only [if_true]
      omega
    · rw [h.mem_partAt (by omega), Contents.exists_iff hv]
      exact hat
    · rw [h.reached_iff hv (.inl hrest) hat.add_length_le, Nat.zero_add]
      exact hlaid

theorem Valid.placed (h : t.Valid b) (p : Pattern) : (t.placed p).Valid b := by
  unfold Tables.placed
  simp only
  split
  · exact h.nothing
  · refine h.search _ _ _ (fun pl hpl => ?_) h.nothing
    rw [List.mem_singleton.1 hpl]
    exact h.length.valid_atLeast _

/-- **Two parts or more are placed exactly in the values they fit.** -/
theorem Represents.mem_placed (h : t.Represents b m) {pattern : Pattern}
    (hparts : pattern.parts = p :: rest) (hrest : rest ≠ []) :
    r ∈ t.placed pattern ↔ ∃ v, m r = some v ∧ pattern.Fits v := by
  have hreached : ∀ v, m r = some v →
      (t.Reached pattern.endsWithRun r pattern.parts (!pattern.startsWithRun) 0 ↔
        pattern.Fits v) := by
    intro v hv
    rw [Pattern.Fits, hparts]
    cases pattern.startsWithRun with
    | true => exact h.reached_iff hv (.inl (List.cons_ne_nil p rest)) (Nat.zero_le _)
    | false => exact h.reached_anchored_iff hv hrest
  unfold placed
  simp only
  split
  · rename_i hempty
    simp only [not_mem_nothing, false_iff]
    rintro ⟨v, hv, hfits⟩
    exact RecordSet.not_mem_of_isEmpty hempty (h.mem_atLeast.2 ⟨v, hv, hfits.minLength_le⟩)
  · rw [mem_search_start h.valid.oneKind (h.valid.oneKind.atLeast _)]
    simp only [h.mem_atLeast]
    constructor
    · rintro ⟨⟨v, hv, -⟩, hr⟩
      exact ⟨v, hv, (hreached v hv).1 hr⟩
    · rintro ⟨v, hv, hfits⟩
      exact ⟨⟨v, hv, hfits.minLength_le⟩, (hreached v hv).2 hfits⟩

end Tables

end WildcardIndex
