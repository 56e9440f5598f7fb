import Mathlib.Data.List.Basic
import WildcardIndex.Pattern.Matching
import WildcardIndex.Proofs.Pattern.Parts
/-!
# Patterns — parts laid out in a value

A pattern matches a value when its parts can be **laid out** in it: each stands
at or behind the end of the one before, the first at the start unless a run
precedes it, the last at the end unless a run follows it. The relation byte by
byte is brought to this form in two steps. Reading a pattern into segments
turns every `%` into a gap (`matches_drop_iff`); an empty segment between two
gaps makes no difference, so only the parts are left (`spread_iff_laid`).
-/

namespace WildcardIndex

variable {v : Bytes} {n : Nat} {c : UInt8}

namespace Pattern

/-! ## Segments -/

/-- Segments stand one after the other behind an offset, and the last one ends
the value. -/
def Spread (v : Bytes) : List Bytes → Nat → Prop
  | [], next => next = v.length
  | s :: ss, next => ∃ i, next ≤ i ∧ Part.At ⟨s⟩ v i ∧ Spread v ss (i + s.length)

theorem segments_run (p : Bytes) :
    segments (anyRun :: p) = ([], (segments p).1 :: (segments p).2) := by
  rw [segments, List.foldr_cons]
  exact if_pos rfl

theorem segments_byte (hc : c ≠ anyRun) (p : Bytes) :
    segments (c :: p) = (c :: (segments p).1, (segments p).2) := if_neg hc

/-- A pattern that starts with neither a run nor nothing takes one byte. -/
theorem matches_byte_iff (hc : c ≠ anyRun) {p : Bytes} :
    Matches (c :: p) v ↔ ∃ b w, v = b :: w ∧ (c = anyOne ∨ b = c) ∧ Matches p w := by
  constructor
  · intro h
    cases h with
    | runEnds => exact absurd rfl hc
    | runTakes => exact absurd rfl hc
    | one h => exact ⟨_, _, rfl, .inl rfl, h⟩
    | literal _ _ h => exact ⟨_, _, rfl, .inr rfl, h⟩
  · rintro ⟨b, w, rfl, rfl | rfl, h⟩
    · exact h.one
    · by_cases hb : b = anyOne
      · subst hb
        exact h.one
      · exact .literal hc hb h

/-- **A pattern matches the rest of a value where its segments stand.** The
induction is on the pattern, for the rests behind all offsets at once: a run
moves on to a later one. -/
theorem matches_drop_iff (p : Bytes) {k : Nat} (hk : k ≤ v.length) :
    Matches p (v.drop k) ↔
      Part.At ⟨(segments p).1⟩ v k ∧ Spread v (segments p).2 (k + (segments p).1.length) := by
  induction p generalizing k with
  | nil =>
    have hempty : Matches [] (v.drop k) ↔ v.drop k = [] := by
      constructor
      · intro h
        generalize v.drop k = w at h
        cases h
        rfl
      · exact fun h => h ▸ .nil
    rw [hempty, List.drop_eq_nil_iff]
    simp only [segments, List.foldr_nil, Part.at_nil_iff, Spread, List.length_nil]
    omega
  | cons c p ih =>
    by_cases hc : c = anyRun
    · subst hc
      rw [segments_run, matches_run_iff]
      simp only [Part.at_nil_iff, Spread, List.length_nil, List.length_drop, List.drop_drop,
        Nat.add_zero]
      constructor
      · rintro ⟨n, hn, h⟩
        obtain ⟨hat, hspread⟩ := (ih (k := k + n) (by omega)).1 h
        exact ⟨hk, k + n, by omega, hat, hspread⟩
      · rintro ⟨-, i, hi, hat, hspread⟩
        have := hat.add_length_le
        refine ⟨i - k, by omega, ?_⟩
        rw [show k + (i - k) = i by omega]
        exact (ih (by omega)).2 ⟨hat, hspread⟩
    · rw [segments_byte hc, matches_byte_iff hc, Part.at_cons_iff, List.length_cons]
      constructor
      · rintro ⟨b, w, hw, hb, h⟩
        -- the rest begins with `b`, so there is a byte at `k`, and `w` is the rest behind it
        have hlt : k < v.length := by
          by_contra hge
          rw [List.drop_eq_nil_of_le (by omega)] at hw
          cases hw
        rw [List.drop_eq_getElem_cons hlt, List.cons.injEq] at hw
        obtain ⟨rfl, rfl⟩ := hw
        obtain ⟨hat, hspread⟩ := (ih (k := k + 1) hlt).1 h
        refine ⟨⟨?_, hlt, hat⟩, ?_⟩
        · rcases hb with hb | hb
          · exact .inl hb
          · exact .inr (by rw [List.getElem?_eq_getElem hlt, hb])
        · rwa [Nat.add_right_comm, Nat.add_assoc] at hspread
      · rintro ⟨⟨hb, hlt, hat⟩, hspread⟩
        refine ⟨v[k], v.drop (k + 1), List.drop_eq_getElem_cons hlt, ?_, ?_⟩
        · rcases hb with hb | hb
          · exact .inl hb
          · rw [List.getElem?_eq_getElem hlt, Option.some.injEq] at hb
            exact .inr hb
        · refine (ih (k := k + 1) hlt).2 ⟨hat, ?_⟩
          rwa [Nat.add_right_comm, Nat.add_assoc]

/-! ## Parts -/

/-- Parts stand one after the other behind an offset, and the last one ends the
value unless a run follows. -/
def Laid (openEnd : Bool) (v : Bytes) : List Part → Nat → Prop
  | [], next => next ≤ v.length ∧ (openEnd = true ∨ next = v.length)
  | p :: ps, next => ∃ i, next ≤ i ∧ p.At v i ∧ Laid openEnd v ps (i + p.length)

theorem Laid.add_total_le {openEnd : Bool} {ps : List Part} (h : Laid openEnd v ps n) :
    n + total Part.length ps ≤ v.length := by
  induction ps generalizing n with
  | nil => exact h.1
  | cons p ps ih =>
    obtain ⟨i, hi, -, hrest⟩ := h
    have := ih hrest
    rw [total_cons]
    omega

/-- The parts among some segments: those that are not empty. -/
def nonempty (ss : List Bytes) : List Part := (ss.filter (!·.isEmpty)).map Part.mk

theorem nonempty_nil_cons (ss : List Bytes) : nonempty ([] :: ss) = nonempty ss := rfl

theorem nonempty_cons_of_ne {s : Bytes} (hs : s ≠ []) (ss : List Bytes) :
    nonempty (s :: ss) = ⟨s⟩ :: nonempty ss := by
  cases s with
  | nil => exact absurd rfl hs
  | cons b s => rfl

/-- An empty segment that is not the last one can be left out. -/
theorem spread_nil_cons_iff {s : Bytes} {ss : List Bytes} :
    Spread v ([] :: s :: ss) n ↔ Spread v (s :: ss) n := by
  constructor
  · rintro ⟨i, hi, -, j, hj, hat, hrest⟩
    rw [List.length_nil] at hj
    exact ⟨j, by omega, hat, hrest⟩
  · rintro ⟨j, hj, hat, hrest⟩
    have := hat.add_length_le
    exact ⟨n, Nat.le_refl n, Part.at_nil_iff.2 (by omega), j, hj, hat, hrest⟩

/-- **Segments stand where the parts among them stand.** An empty last one says
that the last part need not end the value. -/
theorem spread_iff_laid {ss : List Bytes} (h : ss ≠ []) :
    Spread v ss n ↔ Laid (ss.getLast? == some []) v (nonempty ss) n := by
  induction ss generalizing n with
  | nil => exact absurd rfl h
  | cons s ss ih =>
    cases ss with
    | nil =>
      cases s with
      | nil =>
        -- an empty last segment ends the value wherever the others leave off
        simp only [Spread, nonempty_nil_cons, Part.at_nil_iff, List.length_nil]
        constructor
        · rintro ⟨i, hi, hle, -⟩
          exact ⟨by omega, .inl rfl⟩
        · rintro ⟨hle, -⟩
          exact ⟨v.length, hle, Nat.le_refl _, rfl⟩
      | cons b s =>
        rw [nonempty_cons_of_ne (List.cons_ne_nil b s)]
        constructor
        · rintro ⟨i, hi, hat, hend⟩
          exact ⟨i, hi, hat, hat.add_length_le, .inr hend⟩
        · rintro ⟨i, hi, hat, -, hend⟩
          rcases hend with hend | hend
          · simp at hend
          · exact ⟨i, hi, hat, hend⟩
    | cons s' ss =>
      have hlast : (s :: s' :: ss).getLast? = (s' :: ss).getLast? := List.getLast?_cons_cons
      rw [hlast]
      by_cases hs : s = []
      · subst hs
        rw [spread_nil_cons_iff, nonempty_nil_cons]
        exact ih (List.cons_ne_nil s' ss)
      · rw [nonempty_cons_of_ne hs]
        constructor
        · rintro ⟨i, hi, hat, hrest⟩
          exact ⟨i, hi, hat, (ih (List.cons_ne_nil s' ss)).1 hrest⟩
        · rintro ⟨i, hi, hat, hrest⟩
          exact ⟨i, hi, hat, (ih (List.cons_ne_nil s' ss)).2 hrest⟩

/-! ## The ends of a pattern -/

/-- A pattern with one segment is that segment. -/
theorem segments_eq_of_others_nil {p : Bytes} (h : (segments p).2 = []) : (segments p).1 = p := by
  induction p with
  | nil => rfl
  | cons c p ih =>
    by_cases hc : c = anyRun
    · subst hc
      rw [segments_run] at h
      cases h
    · rw [segments_byte hc] at h ⊢
      rw [ih h]

/-- The first segment is empty if nothing stands before the first run. -/
theorem segments_fst_eq_nil_iff {p : Bytes} :
    (segments p).1 = [] ↔ p = [] ∨ p.head? = some anyRun := by
  cases p with
  | nil => simp [segments]
  | cons c p =>
    by_cases hc : c = anyRun
    · subst hc
      simp [segments_run]
    · simp [segments_byte hc, hc]

/-- The last of several segments is empty if the pattern ends with a run. -/
theorem getLast?_segments_iff {p : Bytes} :
    (segments p).2.getLast? = some [] ↔ p.getLast? = some anyRun := by
  induction p with
  | nil => simp [segments]
  | cons c p ih =>
    -- what stands last in `c :: p` stands last in `p`, unless `p` has nothing
    have hlast : (c :: p).getLast? = p.getLast?.or (some c) := by
      cases p with
      | nil => rfl
      | cons d p => rw [List.getLast?_cons_cons, List.getLast?_cons, Option.some_or]
    by_cases hc : c = anyRun
    · subst hc
      rw [segments_run, hlast]
      cases hothers : (segments p).2 with
      | nil =>
        have hp := segments_eq_of_others_nil hothers
        rw [hothers] at ih
        rw [hp]
        cases p with
        | nil => simp
        | cons d p =>
          have hor : (d :: p).getLast?.or (some anyRun) = (d :: p).getLast? := by
            rw [List.getLast?_cons, Option.some_or]
          rw [hor, ← ih]
          simp
      | cons s ss =>
        rw [hothers] at ih
        rw [List.getLast?_cons_cons, ih]
        cases p with
        | nil => cases hothers
        | cons d p => rw [List.getLast?_cons, Option.some_or]
    · rw [segments_byte hc, hlast, ih]
      cases p with
      | nil => simp [hc]
      | cons d p => rw [List.getLast?_cons, Option.some_or]

/-- The parts of a pattern fit a value, given which of its ends are open. -/
def Fits (p : Pattern) (v : Bytes) : Prop :=
  if p.startsWithRun then Laid p.endsWithRun v p.parts 0
  else
    match p.parts with
    | [] => v = []
    | q :: qs => q.At v 0 ∧ Laid p.endsWithRun v qs q.length

/-- A value that the parts fit has room for all of them. -/
theorem Fits.minLength_le {p : Pattern} (h : p.Fits v) : p.minLength ≤ v.length := by
  unfold Fits at h
  unfold minLength
  split at h
  · have := h.add_total_le
    omega
  · cases hparts : p.parts with
    | nil => exact Nat.zero_le _
    | cons q qs =>
      rw [hparts] at h
      have := h.2.add_total_le
      rw [total_cons]
      exact this

theorem parts_ofBytes (p : Bytes) :
    (ofBytes p).parts = nonempty ((segments p).1 :: (segments p).2) := rfl

theorem endsWithRun_ofBytes (p : Bytes) :
    (ofBytes p).endsWithRun = ((segments p).2.getLast? == some []) := by
  rw [Bool.eq_iff_iff, beq_iff_eq, getLast?_segments_iff, ofBytes, beq_iff_eq]

theorem nonempty_eq_nil_iff {ss : List Bytes} : nonempty ss = [] ↔ ∀ s ∈ ss, s = [] := by
  simp [nonempty]

/-- A pattern without parts that is not empty consists of runs. -/
theorem runs_of_parts_nil {p : Bytes} (hp : p ≠ []) (h : (ofBytes p).parts = []) :
    (ofBytes p).startsWithRun = true ∧ (ofBytes p).endsWithRun = true := by
  rw [parts_ofBytes, nonempty_eq_nil_iff] at h
  have hfirst := h _ List.mem_cons_self
  have hothers : (segments p).2 ≠ [] := by
    intro hnil
    rw [segments_eq_of_others_nil hnil] at hfirst
    exact hp hfirst
  rw [endsWithRun_ofBytes, ofBytes, beq_iff_eq, beq_iff_eq,
    List.getLast?_eq_some_getLast hothers, Option.some.injEq]
  exact ⟨(segments_fst_eq_nil_iff.1 hfirst).resolve_left hp,
    h _ (List.mem_cons_of_mem _ (List.getLast_mem hothers))⟩

/-- **A pattern matches the values its parts fit.** -/
theorem matches_iff_fits (p v : Bytes) : Matches p v ↔ (ofBytes p).Fits v := by
  have hmatches := matches_drop_iff p (Nat.zero_le v.length)
  rw [List.drop_zero, Nat.zero_add] at hmatches
  rw [hmatches, Fits, parts_ofBytes, endsWithRun_ofBytes]
  cases hothers : (segments p).2 with
  | nil =>
    -- one segment: the pattern itself, with no run at either end
    have hp := segments_eq_of_others_nil hothers
    have hstart : ¬ (ofBytes p).startsWithRun = true := by
      intro h
      rw [ofBytes, beq_iff_eq] at h
      cases p with
      | nil => cases h
      | cons c p =>
        rw [List.head?_cons, Option.some.injEq] at h
        subst h
        rw [segments_run] at hothers
        cases hothers
    rw [if_neg hstart, hp]
    cases p with
    | nil => simp [nonempty, Part.at_nil_iff, Spread, eq_comm]
    | cons c p =>
      rw [nonempty_cons_of_ne (List.cons_ne_nil c p)]
      refine and_congr_right fun hat => ?_
      have hle := hat.add_length_le
      rw [Nat.zero_add] at hle
      simp [Spread, nonempty, Laid, Part.length] at hle ⊢
      omega
  | cons s ss =>
    -- several segments: there is a run, and it is in front if the first one is empty
    have hspread := fun n => spread_iff_laid (v := v) (n := n) (List.cons_ne_nil s ss)
    have hstart : (segments p).1 = [] ↔ (ofBytes p).startsWithRun = true := by
      rw [segments_fst_eq_nil_iff, ofBytes, beq_iff_eq]
      refine or_iff_right fun hp => ?_
      rw [hp] at hothers
      cases hothers
    by_cases hfirst : (segments p).1 = []
    · rw [if_pos (hstart.1 hfirst), hfirst, nonempty_nil_cons, hspread, List.length_nil,
        Part.at_nil_iff]
      exact and_iff_right (Nat.zero_le _)
    · rw [if_neg fun h => hfirst (hstart.2 h), nonempty_cons_of_ne hfirst, hspread]
      rfl

end Pattern

end WildcardIndex
