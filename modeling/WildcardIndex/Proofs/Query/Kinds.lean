import WildcardIndex.Proofs.Query.Part
/-!
# Queries — the kind of an answer

Sets are combined as their members are only within one kind. Looking a part up
starts from a set that is stored, or from an empty one, and whatever is combined
with it, the kind stays. So over tables of one kind every answer is of that kind
as well, **whether or not the tables describe any values**.
-/

namespace WildcardIndex

namespace Tables

variable {b : Backend} {t : Tables} {s u : RecordSet} {n : Nat}

theorem OneKind.nothing (h : t.OneKind b) : t.nothing.backend = b := by
  rw [Tables.nothing, RecordSet.backend_empty, h.positional]

theorem OneKind.atLeast (h : t.OneKind b) (n : Nat) : (t.length.atLeast n).backend = b := by
  rw [LengthIndex.atLeast]
  cases hs : t.length.atLeast? n with
  | none => rw [Option.getD_none, RecordSet.backend_empty, h.length]
  | some s => exact h.atLeast? n s hs

@[simp] theorem backend_longEnough (t : Tables) (s : RecordSet) (n : Nat) :
    (t.longEnough s n).backend = s.backend := by
  rw [longEnough]
  split
  · exact RecordSet.backend_inter s _
  · exact RecordSet.backend_clear s

/-- Narrowing a set keeps its kind. -/
theorem backend_narrow {α : Type} {lookup : α → Option RecordSet} {as : List α}
    (h : narrow lookup s as = some u) : u.backend = s.backend := by
  induction as generalizing s with
  | nil =>
    rw [narrow, Option.some.injEq] at h
    rw [h]
  | cons a as ih =>
    rw [narrow] at h
    split at h
    · cases h
    · simp only at h
      split at h
      · cases h
      · rw [ih h, RecordSet.backend_inter]

theorem backend_meet {α : Type} {lookup : α → Option RecordSet}
    (hl : ∀ a s, lookup a = some s → s.backend = b) {as : List α}
    (h : meet lookup as = some u) : u.backend = b := by
  cases as with
  | nil => cases h
  | cons a as =>
    obtain ⟨s, hs, hu⟩ := Option.bind_eq_some_iff.1 h
    rw [backend_narrow hu, hl a s hs]

/-- The answer of some literals is of the kind, cut by length or not. -/
theorem OneKind.met (h : t.OneKind b) {α : Type} {lookup : α → Option RecordSet} {as : List α}
    {cut : Bool} (hl : ∀ a s, lookup a = some s → s.backend = b) :
    (match meet lookup as with
      | none => t.nothing
      | some found => if cut then t.longEnough found n else found).backend = b := by
  split
  · exact h.nothing
  · rename_i found hfound
    have hkind := backend_meet hl hfound
    split
    · rw [backend_longEnough, hkind]
    · exact hkind

/-- Collecting sets keeps the kind of the set collected into. -/
theorem backend_foldl_union {α : Type} (f : α → Option RecordSet) (as : List α) (s : RecordSet) :
    (as.foldl (fun found a => match f a with
      | some u => found.union u
      | none => found) s).backend = s.backend := by
  induction as generalizing s with
  | nil => rfl
  | cons a as ih =>
    rw [List.foldl_cons, ih]
    split
    · exact RecordSet.backend_union s _
    · rfl

theorem OneKind.partAt (h : t.OneKind b) (p : Part) (i : Nat) : (t.partAt p i).backend = b := by
  unfold Tables.partAt
  split
  · exact h.atLeast i
  · split
    · exact (backend_foldl_union _ _ _).trans ((RecordSet.backend_empty _).trans h.positional)
    · exact h.met fun a s hs => h.places (.fromStart a.2 (positionOf (i + a.1))) s hs

theorem OneKind.partAtEnd (h : t.OneKind b) (p : Part) : (t.partAtEnd p).backend = b := by
  unfold Tables.partAtEnd
  split
  · exact h.atLeast p.length
  · refine h.met fun a s hs => ?_
    obtain ⟨q, -, hq⟩ := Option.bind_eq_some_iff.1 hs
    exact h.places (.fromEnd a.2 q) s hq

end Tables

end WildcardIndex
