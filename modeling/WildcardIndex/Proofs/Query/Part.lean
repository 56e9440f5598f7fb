import Mathlib.Data.List.Basic
import WildcardIndex.Proofs.Pattern.Layout
import WildcardIndex.Proofs.Positional.Lookup
import WildcardIndex.Proofs.Tables
/-!
# Queries — a part is found where it stands

Over tables that represent values, each lookup of a part answers with the
records whose value has the part there (`Part.At`). A set looked up at an offset
holds the values with one byte there; the offsets asked for are positions, so
none is mistaken for another. The literals of a part pin down every byte but the
`_`, and what they leave open is whether the value is long enough.
-/

namespace WildcardIndex

variable {b : Backend} {m : Contents Bytes} {t : Tables} {r : Record} {v : Bytes} {p : Part}
variable {s : RecordSet} {c : UInt8} {i j n : Nat}

namespace Tables

/-- Every set in the tables is one of the backend. -/
structure Valid (b : Backend) (t : Tables) : Prop where
  /-- Those of the positions are. -/
  positional : t.positional.Valid b
  /-- Those of the lengths are. -/
  length : t.length.Valid b

/-- Every set that can be looked up is of one kind, whatever records are in it. -/
structure OneKind (b : Backend) (t : Tables) : Prop where
  /-- New sets of the positions are of the kind. -/
  positional : t.positional.backend = b
  /-- New sets of the lengths are. -/
  length : t.length.backend = b
  /-- The sets stored for places are. -/
  places : ∀ k s, t.positional.at? k = some s → s.backend = b
  /-- The sets of at least a length are. -/
  atLeast? : ∀ n s, t.length.atLeast? n = some s → s.backend = b

theorem Valid.oneKind (h : t.Valid b) : t.OneKind b where
  positional := h.positional.backend
  length := h.length.backend
  places k s hs := (h.positional.sets k s hs).backend_eq
  atLeast? n s hs := (h.length.atLeast n s hs).backend_eq

theorem Represents.valid (h : t.Represents b m) : t.Valid b :=
  ⟨h.positional.toValid, h.length.toValid⟩

theorem Valid.nothing (h : t.Valid b) : t.nothing.Valid b := by
  rw [Tables.nothing, h.positional.backend]
  exact RecordSet.valid_empty b

@[simp] theorem not_mem_nothing : r ∉ t.nothing := RecordSet.not_mem_empty

/-! ## Meeting sets -/

/-- **Narrowing keeps what is in every set.** Ending early is no loss: what is
empty stays empty. -/
theorem narrow_spec {α : Type} {lookup : α → Option RecordSet}
    (hl : ∀ a u, lookup a = some u → u.Valid b) (as : List α) (hs : s.Valid b) :
    (∀ u, narrow lookup s as = some u → u.Valid b) ∧ ∀ r,
      (∃ u, narrow lookup s as = some u ∧ r ∈ u) ↔
        r ∈ s ∧ ∀ a ∈ as, ∃ u, lookup a = some u ∧ r ∈ u := by
  induction as generalizing s with
  | nil => simpa [narrow] using hs
  | cons a as ih =>
    rw [narrow]
    cases ha : lookup a with
    | none => simp [ha]
    | some u =>
      have hu := hl a u ha
      have hmem := fun r => RecordSet.mem_inter (v := r) (hs.backend_eq_backend hu)
      simp only
      split
      · -- the intersection is empty: no record is in all sets
        rename_i hempty
        refine ⟨nofun, fun r => ⟨fun ⟨_, hnone, _⟩ => (nomatch hnone), ?_⟩⟩
        rintro ⟨hr, hall⟩
        obtain ⟨u', hu', hru⟩ := hall a List.mem_cons_self
        rw [ha, Option.some.injEq] at hu'
        subst hu'
        exact absurd ((hmem r).2 ⟨hr, hru⟩) (RecordSet.not_mem_of_isEmpty hempty)
      · obtain ⟨hvalid, hspec⟩ := ih (hs.inter u)
        refine ⟨hvalid, fun r => (hspec r).trans ?_⟩
        rw [hmem r]
        simp [ha, and_assoc]

/-- The sets of some literals meet in the records that are in all of them. -/
theorem meet_spec {α : Type} {lookup : α → Option RecordSet}
    (hl : ∀ a u, lookup a = some u → u.Valid b) (as : List α) :
    (∀ u, meet lookup as = some u → u.Valid b) ∧ ∀ r,
      (∃ u, meet lookup as = some u ∧ r ∈ u) ↔
        as ≠ [] ∧ ∀ a ∈ as, ∃ u, lookup a = some u ∧ r ∈ u := by
  cases as with
  | nil => simp [meet]
  | cons a as =>
    rw [meet]
    cases ha : lookup a with
    | none => simp [ha]
    | some u =>
      obtain ⟨hvalid, hspec⟩ := narrow_spec hl as (hl a u ha)
      refine ⟨hvalid, fun r => (hspec r).trans ?_⟩
      simp [ha]

/-! ## Lengths -/

theorem valid_longEnough (t : Tables) (hs : s.Valid b) (n : Nat) : (t.longEnough s n).Valid b := by
  rw [longEnough]
  split
  · exact hs.inter _
  · exact hs.clear

theorem mem_longEnough (h : t.OneKind b) (hs : s.backend = b) :
    r ∈ t.longEnough s n ↔ r ∈ s ∧ r ∈ t.length.atLeast n := by
  rw [longEnough, LengthIndex.mem_atLeast_iff]
  cases hn : t.length.atLeast? n with
  | none => simp
  | some u => simp [RecordSet.mem_inter (hs.trans (h.atLeast? n u hn).symm)]

theorem Represents.mem_atLeast (h : t.Represents b m) :
    r ∈ t.length.atLeast n ↔ ∃ v, m r = some v ∧ n ≤ v.length := by
  rw [h.length.mem_atLeast]
  constructor
  · rintro ⟨k, hk, hle⟩
    obtain ⟨v, hv, rfl⟩ := lengths_eq_some.1 hk
    exact ⟨v, hv, hle⟩
  · rintro ⟨v, hv, hle⟩
    exact ⟨v.length, lengths_eq_some.2 ⟨v, hv, rfl⟩, hle⟩

theorem Represents.mem_exactly (h : t.Represents b m) :
    (∃ u, t.length.exactly? n = some u ∧ r ∈ u) ↔ ∃ v, m r = some v ∧ v.length = n := by
  rw [h.length.mem_exactly, lengths_eq_some]

/-! ## One byte -/

theorem Represents.mem_forward (h : t.Represents b m) :
    (∃ u, t.positional.forward? c i = some u ∧ r ∈ u) ↔
      ∃ v, m r = some v ∧ v[i % UInt32.size]? = some c :=
  h.positional.mem_forward fun _ _ => h.length_lt

/-- A set looked up at a distance from the end holds the values with the byte
there. Beyond the positions there is no set, and no value reaches that far. -/
theorem Represents.mem_backward (h : t.Represents b m) (hn : 0 < n) :
    (∃ u, (fromEnd? n).bind (t.positional.backward? c) = some u ∧ r ∈ u) ↔
      ∃ v, m r = some v ∧ n ≤ v.length ∧ v[v.length - n]? = some c := by
  unfold fromEnd?
  by_cases hlt : n < positionLimit
  · rw [if_pos hlt, Option.bind_some]
    exact h.positional.mem_backward (fun _ _ => h.length_lt) hn hlt
  · rw [if_neg hlt]
    constructor
    · rintro ⟨u, hu, -⟩
      cases hu
    · rintro ⟨v, hv, hle, -⟩
      have := h.length_lt hv
      omega

theorem Valid.forward (h : t.Valid b) {u : RecordSet} (hu : t.positional.forward? c i = some u) :
    u.Valid b := h.positional.sets (.fromStart c (positionOf i)) u hu

theorem Valid.backward (h : t.Valid b) {u : RecordSet}
    (hu : (fromEnd? n).bind (t.positional.backward? c) = some u) : u.Valid b := by
  obtain ⟨q, -, hq⟩ := Option.bind_eq_some_iff.1 hu
  exact h.positional.sets (.fromEnd c q) u hq

theorem Represents.mem_anyAt (h : t.Represents b m) :
    r ∈ t.positional.anyAt i ↔ ∃ v, m r = some v ∧ i % UInt32.size < v.length :=
  h.positional.mem_anyAt fun _ _ => h.length_lt

/-! ## One part -/

section Literals

variable {α : Type} {lookup : α → Option RecordSet} {as : List α} {cut : Bool}

/-- The answer of some literals is one of the backend, cut by length or not. -/
theorem valid_met (h : t.Valid b) (hl : ∀ a u, lookup a = some u → u.Valid b) :
    (match meet lookup as with
      | none => t.nothing
      | some found => if cut then t.longEnough found n else found).Valid b := by
  split
  · exact h.nothing
  · rename_i found hfound
    have hvalid := (meet_spec hl as).1 found hfound
    split
    · exact valid_longEnough t hvalid _
    · exact hvalid

/-- Literals that each hold on the values of the records found for them hold
together on the values of the records found for all. -/
theorem mem_meet (hl : ∀ a u, lookup a = some u → u.Valid b) (hne : as ≠ []) {P : α → Bytes → Prop}
    (hlit : ∀ a ∈ as, (∃ u, lookup a = some u ∧ r ∈ u) ↔ ∃ v, m r = some v ∧ P a v) :
    (∃ u, meet lookup as = some u ∧ r ∈ u) ↔ ∃ v, m r = some v ∧ ∀ a ∈ as, P a v := by
  rw [(meet_spec hl as).2 r, and_iff_right hne]
  constructor
  · intro hall
    -- there is some literal, so there is a value, and it is that of the others
    obtain ⟨a, ha⟩ := List.exists_mem_of_ne_nil _ hne
    obtain ⟨v, hv, -⟩ := (hlit a ha).1 (hall a ha)
    refine ⟨v, hv, fun a' ha' => ?_⟩
    have hP := (hlit a' ha').1 (hall a' ha')
    rwa [Contents.exists_iff hv] at hP
  · rintro ⟨v, hv, hall⟩ a ha
    exact (hlit a ha).2 ⟨v, hv, hall a ha⟩

/-- The answer is cut to a length where the literals leave room for shorter
values. -/
theorem Represents.mem_met (h : t.Represents b m) (hl : ∀ a u, lookup a = some u → u.Valid b)
    (hne : as ≠ []) {P : α → Bytes → Prop}
    (hlit : ∀ a ∈ as, (∃ u, lookup a = some u ∧ r ∈ u) ↔ ∃ v, m r = some v ∧ P a v)
    (hfits : ¬ cut = true → ∀ v, (∀ a ∈ as, P a v) → n ≤ v.length) :
    r ∈ (match meet lookup as with
        | none => t.nothing
        | some found => if cut then t.longEnough found n else found) ↔
      ∃ v, m r = some v ∧ n ≤ v.length ∧ ∀ a ∈ as, P a v := by
  have hmem := mem_meet hl hne hlit
  cases hfound : meet lookup as with
  | none =>
    simp only [not_mem_nothing, false_iff]
    rintro ⟨v, hv, -, hall⟩
    obtain ⟨u, hu, -⟩ := hmem.2 ⟨v, hv, hall⟩
    rw [hfound] at hu
    cases hu
  | some found =>
    have hvalid := (meet_spec hl as).1 found hfound
    have hr : r ∈ found ↔ ∃ v, m r = some v ∧ ∀ a ∈ as, P a v := by
      rw [← hmem, hfound]
      simp
    by_cases hcut : cut = true
    · simp only [if_pos hcut, mem_longEnough h.valid.oneKind hvalid.backend_eq, h.mem_atLeast, hr]
      rw [and_comm, Contents.exists_and_exists]
    · -- the literals hold on values that are long enough only
      simp only [if_neg hcut, hr]
      refine exists_congr fun v => and_congr_right fun _ => ?_
      exact ⟨fun hall => ⟨hfits hcut v hall, hall⟩, And.right⟩

end Literals

theorem Valid.partAt (h : t.Valid b) (p : Part) (i : Nat) : (t.partAt p i).Valid b := by
  unfold Tables.partAt
  split
  · exact h.length.valid_atLeast i
  · split
    · exact (PositionalIndex.anyAt_spec h.positional _).1
    · exact valid_met h fun a u hu => h.forward hu

/-- **A part is found where its literals come to lie.** Each branch of the lookup
holds the value against the length the part reaches to, and a literal at the end
of the part does so by itself. -/
theorem Represents.mem_partAt_iff_foundAt (h : t.Represents b m) :
    r ∈ t.partAt p i ↔ ∃ v, m r = some v ∧ p.FoundAt v i := by
  unfold partAt Part.FoundAt
  by_cases hempty : p.isEmpty = true
  · rw [if_pos hempty, h.mem_atLeast]
    rw [Part.isEmpty, List.isEmpty_iff] at hempty
    simp [Part.reach, Part.isEmpty, Part.literals, Part.length, hempty]
  rw [if_neg hempty]
  by_cases hwild : p.allWild = true
  · rw [if_pos hwild, h.mem_anyAt]
    have hreach : p.reach i = (i + p.length - 1) % UInt32.size + 1 :=
      if_neg (by simp [hempty, hwild])
    rw [hreach, Part.literals_eq_nil_iff.2 hwild]
    refine exists_congr fun v => and_congr_right fun _ => (and_iff_left ?_).symm
    exact fun a ha => absurd ha List.not_mem_nil
  rw [if_neg hwild]
  -- where the answer is cut, it is cut to what the part reaches to
  have hcut : ∀ found : RecordSet,
      (if p.wildTail then t.longEnough found (i + p.length) else found) =
        if p.wildTail then t.longEnough found (p.reach i) else found := by
    intro found
    split
    · rename_i htail
      rw [Part.reach, if_pos (by simp [htail, hwild])]
    · rfl
  simp only [hcut]
  refine h.mem_met (fun a u hu => h.valid.forward hu) (Part.literals_ne_nil hwild)
    (fun a _ => h.mem_forward) fun htail v hall => ?_
  -- otherwise the last byte is a literal, and where it is found the value reaches
  obtain ⟨c, hc⟩ := Part.last_mem_literals htail hwild
  have hlast := (List.getElem?_eq_some_iff.1 (hall _ hc)).1
  have := Part.lt_length_of_mem_literals hc
  simp only at hlast
  rw [Part.reach, if_neg (by simp [hempty, htail])]
  rwa [← Nat.add_sub_assoc (by omega)] at hlast

/-- **A part is found at the offset where it stands**, if it ends before the
positions do. -/
theorem Represents.mem_partAt (h : t.Represents b m) (hi : i + p.length ≤ positionLimit) :
    r ∈ t.partAt p i ↔ ∃ v, m r = some v ∧ p.At v i := by
  have hsize : positionLimit ≤ UInt32.size := by decide
  simp only [h.mem_partAt_iff_foundAt, Part.foundAt_iff_at (Nat.le_trans hi hsize)]

theorem Valid.partAtEnd (h : t.Valid b) (p : Part) : (t.partAtEnd p).Valid b := by
  unfold Tables.partAtEnd
  split
  · exact h.length.valid_atLeast p.length
  · exact valid_met h fun a u hu => h.backward hu

/-- **A part is found at the end of the values that end with it.** Its literals
are asked for from the end, so the first one tells how long the value is. -/
theorem Represents.mem_partAtEnd (h : t.Represents b m) :
    r ∈ t.partAtEnd p ↔
      ∃ v, m r = some v ∧ p.length ≤ v.length ∧ p.At v (v.length - p.length) := by
  unfold partAtEnd
  by_cases hwild : p.allWild = true
  · rw [if_pos hwild, h.mem_atLeast]
    refine exists_congr fun v => and_congr_right fun _ => ?_
    rw [Part.at_iff_of_allWild hwild]
    omega
  rw [if_neg hwild]
  have hliterals : ∀ v : Bytes, (p.length ≤ v.length ∧ p.At v (v.length - p.length)) ↔
      p.length ≤ v.length ∧ ∀ a ∈ p.literals,
        p.length - a.1 ≤ v.length ∧ v[v.length - (p.length - a.1)]? = some a.2 := by
    intro v
    rw [Part.at_iff_literals]
    refine and_congr_right fun hle => ?_
    rw [and_iff_right (by omega)]
    refine forall₂_congr fun a ha => ?_
    have := Part.lt_length_of_mem_literals (show (a.1, a.2) ∈ p.literals from ha)
    rw [and_iff_right (by omega), show v.length - (p.length - a.1) = v.length - p.length + a.1 by omega]
  simp only [hliterals]
  refine h.mem_met (fun a u hu => h.valid.backward hu) (Part.literals_ne_nil hwild) ?_ ?_
  · rintro ⟨j, c⟩ ha
    have := Part.lt_length_of_mem_literals ha
    exact h.mem_backward (by omega)
  · intro hhead v hall
    obtain ⟨c, hc⟩ := Part.head_mem_literals hhead hwild
    exact (hall _ hc).1

theorem Valid.exactly (h : t.Valid b) (p : Part) : (t.exactly p).Valid b := by
  unfold Tables.exactly
  split
  · exact h.nothing
  · exact (h.partAt p 0).inter _

/-- A part is found in full where it stands at the start and nothing is left. -/
theorem Represents.mem_exactlyPart (h : t.Represents b m) :
    r ∈ t.exactly p ↔ ∃ v, m r = some v ∧ p.At v 0 ∧ v.length = p.length := by
  have hexact := h.mem_exactly (r := r) (n := p.length)
  unfold exactly
  cases hlong : t.length.exactly? p.length with
  | none =>
    simp only [not_mem_nothing, false_iff]
    rintro ⟨v, hv, -, hlen⟩
    obtain ⟨u, hu, -⟩ := hexact.2 ⟨v, hv, hlen⟩
    rw [hlong] at hu
    cases hu
  | some long =>
    rw [hlong] at hexact
    have hr : r ∈ long ↔ ∃ v, m r = some v ∧ v.length = p.length := by
      rw [← hexact]
      simp
    simp only
    rw [RecordSet.mem_inter ((h.valid.partAt p 0).backend_eq_backend (h.length.exactly _ _ hlong)), hr]
    constructor
    · rintro ⟨hat, v, hv, hlen⟩
      have := h.length_lt hv
      obtain ⟨v', hv', hat⟩ := (h.mem_partAt (by omega)).1 hat
      rw [hv, Option.some.injEq] at hv'
      exact ⟨v, hv, hv' ▸ hat, hlen⟩
    · rintro ⟨v, hv, hat, hlen⟩
      have := h.length_lt hv
      exact ⟨(h.mem_partAt (by omega)).2 ⟨v, hv, hat⟩, v, hv, hlen⟩

theorem Valid.anywhere (h : t.Valid b) (p : Part) : (t.anywhere p).Valid b := by
  unfold Tables.anywhere
  simp only
  split
  · exact h.nothing
  · split
    · exact h.length.valid_atLeast p.length
    · exact (RecordSet.foldl_union (f := fun i => some (t.partAt p i)) _
        (fun i _ u hu => Option.some.inj hu ▸ h.partAt p i) h.nothing).1

/-- **A part is found anywhere it stands.** No value is longer than the longest
length, so trying the offsets up to there tries all. -/
theorem Represents.mem_anywhere (h : t.Represents b m) :
    r ∈ t.anywhere p ↔ ∃ v, m r = some v ∧ ∃ i, p.At v i := by
  unfold anywhere
  simp only
  split
  · rename_i hshort
    simp only [not_mem_nothing, false_iff]
    rintro ⟨v, hv, i, hat⟩
    have := hat.add_length_le
    have := h.length_le hv
    omega
  split
  · rename_i hwild
    rw [h.mem_atLeast]
    refine exists_congr fun v => and_congr_right fun _ => ?_
    simp only [Part.at_iff_of_allWild hwild]
    exact ⟨fun hle => ⟨0, by omega⟩, fun ⟨i, hi⟩ => by omega⟩
  · rename_i hlong _
    have hunion := (RecordSet.foldl_union (f := fun i => some (t.partAt p i))
      (List.range (t.length.maxLength - p.length + 1))
      (fun i _ u hu => Option.some.inj hu ▸ h.valid.partAt p i) h.valid.nothing).2 r
    rw [hunion, or_iff_right not_mem_nothing]
    have hslots := h.slots_le
    have hmax : t.length.maxLength ≤ t.length.slots := Nat.sub_le _ _
    constructor
    · rintro ⟨i, hi, u, hu, hr⟩
      rw [Option.some.injEq] at hu
      subst hu
      rw [List.mem_range] at hi
      obtain ⟨v, hv, hat⟩ := (h.mem_partAt (by omega)).1 hr
      exact ⟨v, hv, i, hat⟩
    · rintro ⟨v, hv, i, hat⟩
      have := hat.add_length_le
      have := h.length_le hv
      exact ⟨i, List.mem_range.2 (by omega), _, rfl, (h.mem_partAt (by omega)).2 ⟨v, hv, hat⟩⟩

end Tables

end WildcardIndex
