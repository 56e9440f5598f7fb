import Mathlib.Data.List.MinMax
import WildcardIndex.Proofs.Counting
import WildcardIndex.Proofs.Index.Replay
/-!
# The index — how far the tables reach

A table never forgets where it once had to reach: a length that was indexed
keeps its slot, a position its set, whatever becomes of the records. So the
tables **span** values, those that were ever indexed, and the sizes that are
reported are read off these values alone: the longest of them, and the different
places their bytes stand at.
-/

namespace WildcardIndex

/-! ## What values take up -/

/-- The length of the longest of some values. -/
def longest (vs : List Bytes) : Nat := (vs.map List.length).foldr max 0

/-- The length slots some values need: none without a value, and else one for
each length up to the longest. -/
def lengthSlotsFor (vs : List Bytes) : Nat := if vs = [] then 0 else 1 + longest vs

/-- The bytes of some values with their offsets from the start. -/
def startOffsets (vs : List Bytes) : Finset (UInt8 × Nat) := (vs.flatMap List.zipIdx).toFinset

/-- The bytes of some values with their offsets from the end. -/
def endOffsets (vs : List Bytes) : Finset (UInt8 × Nat) := startOffsets (vs.map List.reverse)

section Values

variable {vs : List Bytes} {v : Bytes} {c : UInt8} {i : Nat}

theorem longest_cons (v : Bytes) (vs : List Bytes) :
    longest (v :: vs) = max v.length (longest vs) := rfl

theorem length_le_longest (h : v ∈ vs) : v.length ≤ longest vs :=
  List.le_max_of_le' 0 (List.mem_map_of_mem h) (Nat.le_refl _)

theorem longest_le {n : Nat} (h : ∀ v ∈ vs, v.length ≤ n) : longest vs ≤ n := by
  induction vs with
  | nil => exact Nat.zero_le n
  | cons v vs ih =>
    rw [longest_cons]
    exact Nat.max_le.2 ⟨h v List.mem_cons_self, ih fun w hw => h w (List.mem_cons_of_mem v hw)⟩

theorem lengthSlotsFor_cons (v : Bytes) (vs : List Bytes) :
    lengthSlotsFor (v :: vs) = max (lengthSlotsFor vs) (v.length + 1) := by
  cases vs with
  | nil => simp [lengthSlotsFor, longest, Nat.add_comm]
  | cons w vs =>
    rw [lengthSlotsFor, lengthSlotsFor, if_neg (List.cons_ne_nil _ _),
      if_neg (List.cons_ne_nil _ _), longest_cons v]
    omega

/-- Each of the values has a slot for its length. -/
theorem length_lt_lengthSlotsFor (h : v ∈ vs) : v.length < lengthSlotsFor vs := by
  have := length_le_longest h
  rw [lengthSlotsFor, if_neg (List.ne_nil_of_mem h)]
  omega

theorem mem_startOffsets : (c, i) ∈ startOffsets vs ↔ ∃ v ∈ vs, v[i]? = some c := by
  simp [startOffsets, List.mem_zipIdx_iff_getElem?]

theorem fromEnd_mem_places_iff {q : Position} :
    .fromEnd c q ∈ PositionalIndex.places v ↔
      ∃ i, v.reverse[i]? = some c ∧ q = -positionOf (i + 1) := by
  rw [PositionalIndex.fromEnd_mem_places]
  constructor
  · rintro ⟨i, hi, rfl⟩
    have hlt := (List.getElem?_eq_some_iff.1 hi).1
    refine ⟨v.length - 1 - i, ?_, congrArg (-positionOf ·) (by omega)⟩
    rw [List.getElem?_reverse (by omega), ← hi]
    congr 1
    omega
  · rintro ⟨i, hi, rfl⟩
    have hlt := (List.getElem?_eq_some_iff.1 hi).1
    rw [List.length_reverse] at hlt
    refine ⟨v.length - 1 - i, ?_, congrArg (-positionOf ·) (by omega)⟩
    rwa [← List.getElem?_reverse hlt]

end Values

/-! ## Tables that span values -/

namespace Tables

/-- The tables have a slot for each length up to the longest of some values and
a set for each place of them, and no other. -/
structure Spans (t : Tables) (vs : List Bytes) : Prop where
  /-- The length slots are those the values need. -/
  slots_eq : t.length.slots = lengthSlotsFor vs
  /-- The places are those of the values. -/
  isSome_at? : ∀ k, (t.positional.at? k).isSome ↔ ∃ v ∈ vs, k ∈ PositionalIndex.places v

variable {t t' : Tables} {vs : List Bytes} {v : Bytes} {b : Backend}

theorem spans_empty (b : Backend) : (empty b).Spans [] where
  slots_eq := rfl
  isSome_at? k := by
    rw [empty, PositionalIndex.at?_empty]
    simp

/-- Tables that take in a value span it from then on. -/
theorem Spans.cons (h : t.Spans vs) (hslots : t'.length.slots = max t.length.slots (v.length + 1))
    (hplaces : ∀ k, (t'.positional.at? k).isSome ↔
      k ∈ PositionalIndex.places v ∨ (t.positional.at? k).isSome) : t'.Spans (v :: vs) where
  slots_eq := by rw [hslots, h.slots_eq, lengthSlotsFor_cons]
  isSome_at? k := by simp only [hplaces, h.isSome_at?, List.mem_cons, exists_eq_or_imp]

/-- What has the same slots and places spans the same values. -/
theorem Spans.congr (h : t.Spans vs) (hslots : t'.length.slots = t.length.slots)
    (hplaces : ∀ k, (t'.positional.at? k).isSome = (t.positional.at? k).isSome) : t'.Spans vs where
  slots_eq := hslots.trans h.slots_eq
  isSome_at? k := by rw [hplaces, h.isSome_at?]

theorem Spans.maxLength_eq (h : t.Spans vs) : t.length.maxLength = longest vs := by
  rw [LengthIndex.maxLength, h.slots_eq, lengthSlotsFor]
  split
  · rename_i hnil
    rw [hnil]
    rfl
  · omega

/-! ## Counting positions -/

/-- No value is longer than the positions go. -/
theorem Spans.length_lt (h : t.Spans vs) (hslots : t.length.slots ≤ positionLimit) (hv : v ∈ vs) :
    v.length < positionLimit := by
  have := length_lt_lengthSlotsFor hv
  rw [h.slots_eq] at hslots
  omega

/-- There are as many positions as offsets, if positions tell the offsets
apart. -/
theorem ncard_eq_card_startOffsets {f : Nat → Position} {P : UInt8 × Position → Prop}
    (hlt : ∀ v ∈ vs, v.length < positionLimit)
    (hf : ∀ i j, i + 1 < positionLimit → j + 1 < positionLimit → f i = f j → i = j)
    (hP : ∀ c q, P (c, q) ↔ ∃ v ∈ vs, ∃ i, v[i]? = some c ∧ q = f i) :
    {e | P e}.ncard = (startOffsets vs).card := by
  have himage : {e | P e} = (fun e : UInt8 × Nat => (e.1, f e.2)) '' startOffsets vs := by
    ext ⟨c, q⟩
    simp only [Set.mem_ofPred_eq, hP, Set.mem_image, Finset.mem_coe, Prod.exists, Prod.mk.injEq,
      mem_startOffsets]
    constructor
    · rintro ⟨v, hv, i, hi, rfl⟩
      exact ⟨c, i, ⟨v, hv, hi⟩, rfl, rfl⟩
    · rintro ⟨c, i, ⟨v, hv, hi⟩, rfl, rfl⟩
      exact ⟨v, hv, i, hi, rfl⟩
  have hoffset : ∀ c i, (c, i) ∈ startOffsets vs → i + 1 < positionLimit := by
    intro c i hi
    obtain ⟨v, hv, hi⟩ := mem_startOffsets.1 hi
    have := hlt v hv
    have := (List.getElem?_eq_some_iff.1 hi).1
    omega
  rw [himage, Set.InjOn.ncard_image, Set.ncard_coe_finset]
  rintro ⟨c, i⟩ hi ⟨d, j⟩ hj heq
  obtain ⟨rfl, heq⟩ := Prod.mk.inj heq
  rw [hf i j (hoffset c i hi) (hoffset c j hj) heq]

/-- **The positions are the different offsets** of the bytes of the values,
from the start and from the end. -/
theorem Spans.entryCount_eq (h : t.Spans vs) (hvalid : t.positional.Valid b)
    (hslots : t.length.slots ≤ positionLimit) :
    t.positional.entryCount = (startOffsets vs).card + (endOffsets vs).card := by
  have hlt : ∀ v ∈ vs, v.length < positionLimit := fun v hv => h.length_lt hslots hv
  rw [PositionalIndex.entryCount_eq_ncard hvalid]
  congr 1
  · refine ncard_eq_card_startOffsets (f := positionOf) hlt (fun i j hi hj heq => ?_) fun c q => ?_
    · exact (positionOf_inj (by omega) (by omega)).1 heq
    · simp only [h.isSome_at?, PositionalIndex.fromStart_mem_places]
  · refine ncard_eq_card_startOffsets (f := fun i => -positionOf (i + 1)) ?_
      (fun i j hi hj heq => ?_) fun c q => ?_
    · rw [List.forall_mem_map]
      exact fun v hv => by rw [List.length_reverse]; exact hlt v hv
    · exact Nat.succ.inj ((positionOf_inj hi hj).1 (Int32.neg_inj.1 heq))
    · simp only [h.isSome_at?, fromEnd_mem_places_iff, List.mem_map, exists_exists_and_eq_and]

end Tables

/-! ## What a rebuild spans -/

theorem LengthIndex.slots_file (x : LengthIndex) (n : Nat) (vs : List Bytes) :
    (x.file n vs).slots = max x.slots (lengthSlotsFor vs) := by
  induction vs generalizing x n with
  | nil => exact (Nat.max_zero _).symm
  | cons v vs ih =>
    rw [file, ih, slots_add, lengthSlotsFor_cons]
    omega

namespace Index

variable {I : Type} {b : Backend} {c : Config} {scan scan' : FirstScan I} {rest : List (I × Bytes)}

/-- A first scan makes the places of the values it takes in. -/
theorem isSome_at?_scanFirst (h : scan.positional.Valid b)
    (hscan : scanFirst c scan rest = .ok scan') (k : PositionalIndex.Place) :
    (scan'.positional.at? k).isSome ↔
      (∃ v ∈ indexedValues c rest, k ∈ PositionalIndex.places v) ∨
        (scan.positional.at? k).isSome := by
  induction rest generalizing scan with
  | nil =>
    rw [scanFirst, Except.ok.injEq] at hscan
    simp [hscan, indexedValues]
  | cons e rest ih =>
    obtain ⟨i, v⟩ := e
    simp only [scanFirst] at hscan
    split at hscan
    · cases hscan
    · rw [ih (h.add _ _) hscan, PositionalIndex.isSome_at?_add h, indexedValues_cons]
      simp only [List.mem_cons, exists_eq_or_imp]
      rw [or_left_comm, or_assoc]

/-- **A rebuild spans the values of its first scan.** -/
theorem spans_build (hc : c.validate = .ok ()) {source : Source I} {y : Index I}
    (hbuild : (build c source).1 = .ok y) : y.tables.Spans (indexedValues c source.first) := by
  have hvalues := build_values hc hbuild
  obtain ⟨scan, length, hscan, hsecond, rfl⟩ := build_eq_ok_iff.1 hbuild
  refine ⟨?_, fun k => ?_⟩
  · simp only [scanSecond_eq_file hsecond, hvalues,
      file_lengthSlots hscan (scanFirst_scanned hc hscan).totalSlots_eq, LengthIndex.slots_file]
    exact Nat.zero_max _
  · rw [isSome_at?_scanFirst (PositionalIndex.valid_empty c.backend) hscan, scanNothing,
      PositionalIndex.at?_empty]
    simp

end Index

end WildcardIndex
