import WildcardIndex.Pattern.Basic
/-!
# Patterns — what a pattern matches

The meaning of a pattern, byte by byte and without parts or tables: `%` takes
any run of bytes, `_` any one byte, every other byte itself. `accepts` decides
it on one value (`accepts_iff`). Answers are held against this relation.
-/

namespace WildcardIndex

namespace Pattern

/-- A pattern matches a value. -/
inductive Matches : Bytes → Bytes → Prop where
  /-- Nothing is left of either. -/
  | nil : Matches [] []
  /-- A run ends. -/
  | runEnds {p v : Bytes} : Matches p v → Matches (anyRun :: p) v
  /-- A run takes one more byte. -/
  | runTakes {p v : Bytes} {b : UInt8} : Matches (anyRun :: p) v → Matches (anyRun :: p) (b :: v)
  /-- A `_` takes a byte. -/
  | one {p v : Bytes} {b : UInt8} : Matches p v → Matches (anyOne :: p) (b :: v)
  /-- A literal byte takes itself. -/
  | literal {p v : Bytes} {b : UInt8} : b ≠ anyRun → b ≠ anyOne → Matches p v →
      Matches (b :: p) (b :: v)

/-- Whether a pattern matches a value. A run tries every length. -/
def accepts : Bytes → Bytes → Bool
  | [], v => v.isEmpty
  | c :: p, v =>
    if c = anyRun then (List.range (v.length + 1)).any fun n => accepts p (v.drop n)
    else
      match v with
      | [] => false
      | b :: v => (c == anyOne || c == b) && accepts p v

/-- A run takes any bytes that what follows it leaves over. -/
theorem Matches.run_append {p v : Bytes} (h : Matches p v) (u : Bytes) :
    Matches (anyRun :: p) (u ++ v) := by
  induction u with
  | nil => exact h.runEnds
  | cons b u ih => exact ih.runTakes

/-- A pattern that starts with a run matches what the rest of it matches, behind
any bytes. -/
theorem matches_run_iff {p v : Bytes} :
    Matches (anyRun :: p) v ↔ ∃ n, n ≤ v.length ∧ Matches p (v.drop n) := by
  constructor
  · intro h
    generalize hq : anyRun :: p = q at h
    induction h with
    | nil => cases hq
    | runEnds h =>
      cases hq
      exact ⟨0, Nat.zero_le _, h⟩
    | runTakes _ ih =>
      obtain ⟨n, hn, h⟩ := ih hq
      exact ⟨n + 1, Nat.succ_le_succ hn, h⟩
    | one => cases hq
    | literal h => exact absurd (List.cons.inj hq).1.symm h
  · intro ⟨n, _, h⟩
    have := h.run_append (v.take n)
    rwa [List.take_append_drop] at this

/-- The decision is the relation. -/
theorem accepts_iff {p v : Bytes} : accepts p v = true ↔ Matches p v := by
  induction p generalizing v with
  | nil =>
    constructor
    · intro h
      rw [accepts, List.isEmpty_iff] at h
      exact h ▸ .nil
    · intro h
      cases h
      rfl
  | cons c p ih =>
    by_cases hc : c = anyRun
    · subst hc
      simp only [accepts, if_true, List.any_eq_true, List.mem_range, ih, matches_run_iff,
        Nat.lt_succ_iff]
    · rw [accepts.eq_def]
      simp only [hc, if_false]
      cases v with
      | nil =>
        constructor
        · intro h
          cases h
        · intro h
          cases h
          exact absurd rfl hc
      | cons b v =>
        simp only [Bool.and_eq_true, Bool.or_eq_true, beq_iff_eq, ih]
        constructor
        · rintro ⟨rfl | rfl, h⟩
          · exact h.one
          · by_cases h1 : c = anyOne
            · subst h1
              exact h.one
            · exact .literal hc h1 h
        · intro h
          cases h with
          | runEnds => exact absurd rfl hc
          | runTakes => exact absurd rfl hc
          | one h => exact ⟨.inl rfl, h⟩
          | literal _ _ h => exact ⟨.inr rfl, h⟩

instance (p v : Bytes) : Decidable (Matches p v) := decidable_of_iff _ accepts_iff

end Pattern

end WildcardIndex
