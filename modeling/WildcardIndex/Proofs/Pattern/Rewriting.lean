import Mathlib.Data.List.Basic
import Mathlib.Logic.Relation
import WildcardIndex.Proofs.Pattern.Layout
/-!
# Patterns — laws of rewriting

Some steps on the text of a pattern can only **widen** what it matches: a
literal byte gives way to `_`, a `_` to a run, and a run may be put in anywhere.
Others **respell** it: a run may be written longer or shorter, and a `_` may
stand on either side of it. Both are steps inside a text, so it is enough to know
them at the front (`Matches.append_mono`).
-/

namespace WildcardIndex

namespace Pattern

variable {p q u v w : Bytes} {c : UInt8}

/-! ## A pattern in two pieces -/

/-- A run takes any bytes, and the rest of the pattern what is behind them. -/
theorem matches_run_iff_append :
    Matches (anyRun :: p) v ↔ ∃ u w, v = u ++ w ∧ Matches p w := by
  rw [matches_run_iff]
  constructor
  · rintro ⟨n, -, h⟩
    exact ⟨v.take n, v.drop n, (List.take_append_drop n v).symm, h⟩
  · rintro ⟨u, w, rfl, h⟩
    refine ⟨u.length, by rw [List.length_append]; omega, ?_⟩
    rwa [List.drop_left]

/-- **A pattern in two pieces matches a value in two pieces.** -/
theorem matches_append_iff :
    Matches (p ++ q) v ↔ ∃ u w, v = u ++ w ∧ Matches p u ∧ Matches q w := by
  induction p generalizing v with
  | nil =>
    constructor
    · exact fun h => ⟨[], v, rfl, .nil, h⟩
    · rintro ⟨u, w, rfl, hu, hw⟩
      cases hu
      exact hw
  | cons c p ih =>
    rw [List.cons_append]
    by_cases hc : c = anyRun
    · subst hc
      simp only [matches_run_iff_append, ih]
      constructor
      · rintro ⟨u, -, rfl, v, w, rfl, hv, hw⟩
        exact ⟨u ++ v, w, (List.append_assoc u v w).symm, ⟨u, v, rfl, hv⟩, hw⟩
      · rintro ⟨-, w, rfl, ⟨u, v, rfl, hv⟩, hw⟩
        exact ⟨u, v ++ w, List.append_assoc u v w, v, w, rfl, hv, hw⟩
    · simp only [matches_byte_iff hc, ih]
      constructor
      · rintro ⟨b, -, rfl, hb, u, w, rfl, hu, hw⟩
        exact ⟨b :: u, w, rfl, ⟨b, u, rfl, hb, hu⟩, hw⟩
      · rintro ⟨-, w, rfl, ⟨b, u, rfl, hb, hu⟩, hw⟩
        exact ⟨b, u ++ w, rfl, hb, u, w, rfl, hu, hw⟩

/-- What widens a pattern widens it behind any text. -/
theorem Matches.append_mono (h : ∀ w, Matches p w → Matches q w) (hv : Matches (u ++ p) v) :
    Matches (u ++ q) v := by
  obtain ⟨v₁, v₂, rfl, hu, hp⟩ := matches_append_iff.1 hv
  exact matches_append_iff.2 ⟨v₁, v₂, rfl, hu, h v₂ hp⟩

theorem matches_append_congr (h : ∀ w, Matches p w ↔ Matches q w) :
    Matches (u ++ p) v ↔ Matches (u ++ q) v :=
  ⟨Matches.append_mono fun w => (h w).1, Matches.append_mono fun w => (h w).2⟩

/-! ## Laws at the front -/

theorem matches_one_iff : Matches (anyOne :: p) v ↔ ∃ b w, v = b :: w ∧ Matches p w := by
  rw [matches_byte_iff (by decide)]
  simp only [true_or, true_and]

/-- A literal byte is one byte. -/
theorem Matches.literal_to_one (hc : c ≠ anyRun) (h : Matches (c :: p) v) :
    Matches (anyOne :: p) v := by
  obtain ⟨b, w, hv, -, hw⟩ := (matches_byte_iff hc).1 h
  exact matches_one_iff.2 ⟨b, w, hv, hw⟩

/-- One byte is a run of bytes. -/
theorem Matches.one_to_run (h : Matches (anyOne :: p) v) : Matches (anyRun :: p) v := by
  obtain ⟨b, w, rfl, hw⟩ := matches_one_iff.1 h
  exact matches_run_iff_append.2 ⟨[b], w, rfl, hw⟩

/-- Two runs are one. -/
theorem matches_run_run_iff : Matches (anyRun :: anyRun :: p) v ↔ Matches (anyRun :: p) v := by
  simp only [matches_run_iff_append]
  constructor
  · rintro ⟨u, -, rfl, v, w, rfl, hw⟩
    exact ⟨u ++ v, w, (List.append_assoc u v w).symm, hw⟩
  · rintro ⟨u, w, rfl, hw⟩
    exact ⟨u, w, rfl, [], w, rfl, hw⟩

/-- And so are any number of them but none. -/
theorem matches_runs_iff (n : Nat) :
    Matches (List.replicate (n + 1) anyRun ++ p) v ↔ Matches (anyRun :: p) v := by
  induction n with
  | zero => exact Iff.rfl
  | succ n ih =>
    rw [List.replicate_succ, List.replicate_succ, List.cons_append, List.cons_append,
      matches_run_run_iff, ← List.cons_append, ← List.replicate_succ, ih]

/-- **A byte and a run take any bytes but none**, in either order. -/
theorem matches_one_run_iff : Matches (anyOne :: anyRun :: p) v ↔ Matches (anyRun :: anyOne :: p) v := by
  simp only [matches_one_iff, matches_run_iff_append]
  constructor
  · rintro ⟨b, -, rfl, u, w, rfl, hw⟩
    -- the byte taken first becomes the one taken last
    obtain ⟨u', b', hu⟩ := (List.eq_nil_or_concat (b :: u)).resolve_left (List.cons_ne_nil b u)
    refine ⟨u', b' :: w, ?_, b', w, rfl, hw⟩
    rw [← List.cons_append, hu, List.concat_eq_append, List.append_assoc, List.singleton_append]
  · rintro ⟨u, -, rfl, b, w, rfl, hw⟩
    cases u with
    | nil => exact ⟨b, w, rfl, [], w, rfl, hw⟩
    | cons d u => exact ⟨d, u ++ b :: w, rfl, u ++ [b], w, by simp, hw⟩

/-! ## Steps inside a text -/

/-- A step that may only widen what a pattern matches. -/
inductive Widens : Bytes → Bytes → Prop where
  /-- A literal byte gives way to `_`. -/
  | literal {c : UInt8} (u p : Bytes) :
      c ≠ anyRun → c ≠ anyOne → Widens (u ++ c :: p) (u ++ anyOne :: p)
  /-- A `_` gives way to a run. -/
  | one (u p : Bytes) : Widens (u ++ anyOne :: p) (u ++ anyRun :: p)
  /-- A run is put in. -/
  | insert (u p : Bytes) : Widens (u ++ p) (u ++ anyRun :: p)

/-- A step from one way of writing a pattern to another. -/
inductive Respells : Bytes → Bytes → Prop where
  /-- A run is written longer or shorter. -/
  | run (u p : Bytes) (m n : Nat) :
      Respells (u ++ (List.replicate (m + 1) anyRun ++ p)) (u ++ (List.replicate (n + 1) anyRun ++ p))
  /-- A `_` goes behind the run that follows it. -/
  | swap (u p : Bytes) : Respells (u ++ anyOne :: anyRun :: p) (u ++ anyRun :: anyOne :: p)

theorem Widens.matches (h : Widens p q) (hv : Matches p v) : Matches q v := by
  cases h with
  | literal u p hrun _ => exact hv.append_mono fun _ => Matches.literal_to_one hrun
  | one u p => exact hv.append_mono fun _ => Matches.one_to_run
  | insert u p => exact hv.append_mono fun _ => Matches.runEnds

theorem Respells.matches_iff (h : Respells p q) : Matches p v ↔ Matches q v := by
  cases h with
  | run u p m n => exact matches_append_congr fun w => by rw [matches_runs_iff, matches_runs_iff]
  | swap u p => exact matches_append_congr fun _ => matches_one_run_iff

/-- **Widening steps only ever add values.** -/
theorem matches_of_widens (h : Relation.ReflTransGen Widens p q) (hv : Matches p v) :
    Matches q v := by
  induction h with
  | refl => exact hv
  | tail _ hstep ih => exact hstep.matches ih

/-- **Respelling a pattern changes nothing**, whichever way its steps go. -/
theorem matches_iff_of_respells (h : Relation.EqvGen Respells p q) : Matches p v ↔ Matches q v := by
  induction h with
  | rel _ _ hstep => exact hstep.matches_iff
  | refl _ => exact Iff.rfl
  | symm _ _ _ ih => exact ih.symm
  | trans _ _ _ _ _ ih ih' => exact ih.trans ih'

end Pattern

end WildcardIndex
