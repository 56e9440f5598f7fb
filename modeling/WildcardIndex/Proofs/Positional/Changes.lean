import Mathlib.Data.List.Basic
import WildcardIndex.Proofs.Filing
import WildcardIndex.Proofs.Positional.Extent
/-!
# Positions — after any changes

Records come and go, and sets of records are taken out. Whatever the order, a
positional index represents what is filed, and its positions stay within the
values there were. It then **accounts** for what is filed: a lookup, which
halves a list, finds every set that is stored; each set looked up holds the
records with the byte there; and a record that is taken out right after it came
leaves every set as it was, also when its value has a byte more than once.
-/

namespace WildcardIndex

namespace PositionalIndex

/-- The index after a change to what is filed. -/
def after (x : PositionalIndex) : Filing Bytes → PositionalIndex
  | .add r v => x.add r v
  | .remove r v => x.remove r v
  | .subtract gone => x.subtract gone
  | .clear => x.clear

/-- The index after a sequence of changes. -/
def afterAll (x : PositionalIndex) (fs : List (Filing Bytes)) : PositionalIndex := fs.foldl after x

variable {b : Backend} {m : Contents Bytes} {x : PositionalIndex} {r u : Record} {v : Bytes}
  {k : Place} {n : Nat}

/-- A record that is not filed is in no set, so removing it changes none. -/
theorem Represents.remove_of_absent (h : x.Represents b m) (hr : m r = none) (v : Bytes) :
    (x.remove r v).Represents b m where
  toValid := h.toValid.remove r v
  holds_iff k u := by
    rw [holds_remove h.toValid, h.holds_iff, and_iff_right_of_imp]
    rintro ⟨w, hw, -⟩ ⟨rfl, -⟩
    rw [hr] at hw
    cases hw

/-- **A proper change keeps the index up with what is filed.** -/
theorem Represents.file (h : x.Represents b m) {f : Filing Bytes} (hf : f.Proper b m) :
    (x.after f).Represents b (m.after f) := by
  cases f with
  | add r v => exact h.add hf v
  | remove r v =>
    cases hr : m r with
    | none =>
      have habsent := h.remove_of_absent hr v
      rwa [← Contents.set_eq_self hr] at habsent
    | some w =>
      obtain rfl : w = v := hf w hr
      exact h.remove hr
  | subtract gone => exact h.subtract hf
  | clear =>
    rw [after, clear, h.backend]
    exact represents_empty b

/-- A change that adds no longer value makes no further position. -/
theorem Within.file (h : x.Within n) (hx : x.Valid b) {f : Filing Bytes}
    (hf : ∀ r v, f = .add r v → v.length ≤ n) : (x.after f).Within n := by
  cases f with
  | add r v => exact h.add hx (hf r v rfl) r
  | remove r v => exact h.remove hx r v
  | subtract gone => exact h.subtract hx gone
  | clear => exact within_empty x.backend n

/-- **So do all changes**, and positions stay within the longest value added. -/
theorem Represents.afterAll (h : x.Represents b m) (hx : x.Within n) {fs : List (Filing Bytes)}
    (hfs : Filing.AllProper b m fs) (hlen : ∀ r v, .add r v ∈ fs → v.length ≤ n) :
    (x.afterAll fs).Represents b (m.afterAll fs) ∧ (x.afterAll fs).Within n := by
  induction fs generalizing x m with
  | nil => exact ⟨h, hx⟩
  | cons f fs ih =>
    have hwithin : (x.after f).Within n :=
      hx.file h.toValid fun r v heq => hlen r v (heq ▸ List.mem_cons_self)
    exact ih (h.file hfs.1) hwithin hfs.2 fun r v hmem => hlen r v (List.mem_cons_of_mem f hmem)

/-! ## What the sets say -/

/-- The sets of a positional index account for what is filed. -/
structure Accounts (b : Backend) (m : Contents Bytes) (x : PositionalIndex) : Prop where
  /-- Positions from the start ascend. -/
  forward_ascending : ∀ c, (x.forward.get c).toList.Pairwise fun d e => d.1 < e.1
  /-- So do those from the end. -/
  backward_ascending : ∀ c, (x.backward.get c).toList.Pairwise fun d e => d.1 < e.1
  /-- From the start they count up from 0. -/
  forward_nonneg : ∀ c q s, (q, s) ∈ (x.forward.get c).toList → 0 ≤ q.toInt
  /-- From the end they count down from -1. -/
  backward_neg : ∀ c q s, (q, s) ∈ (x.backward.get c).toList → q.toInt ≤ -1
  /-- A lookup from the start finds exactly what is stored. -/
  forward_lookup : ∀ c q s, (x.forward.get c).get? q = some s ↔ (q, s) ∈ (x.forward.get c).toList
  /-- So does one from the end. -/
  backward_lookup : ∀ c q s,
    (x.backward.get c).get? q = some s ↔ (q, s) ∈ (x.backward.get c).toList
  /-- The set at an offset holds the records with the byte there. -/
  forward : ∀ c i r, i < Tables.positionLimit →
    ((∃ s, x.forward? c i = some s ∧ r ∈ s) ↔ ∃ v, m r = some v ∧ v[i]? = some c)
  /-- The set at a distance from the end holds those with the byte there. -/
  backward : ∀ c (q : Position) (k : Nat) r, q.toInt = -k → 1 ≤ k →
    ((∃ s, x.backward? c q = some s ∧ r ∈ s) ↔
      ∃ v, m r = some v ∧ k ≤ v.length ∧ v[v.length - k]? = some c)
  /-- The set of a byte holds those with the byte anywhere. -/
  presence : ∀ c r, (∃ s, x.presence? c = some s ∧ r ∈ s) ↔ ∃ v, m r = some v ∧ c ∈ v
  /-- The sets at an offset make up the longer values. -/
  anyAt : ∀ i r, i < Tables.positionLimit →
    (r ∈ x.anyAt i ↔ ∃ v, m r = some v ∧ i < v.length)
  /-- A record that comes and goes changes no set, -/
  remove_add : ∀ r v, m r = none → ∀ k u, ((x.add r v).remove r v).Holds k u ↔ x.Holds k u
  /-- and is the only one that came, and the only one that went. -/
  add_others : ∀ r v k u, u ≠ r →
    ((x.add r v).Holds k u ↔ x.Holds k u) ∧ ((x.remove r v).Holds k u ↔ x.Holds k u)

/-- Adding and removing touch one record. -/
theorem holds_of_ne (h : x.Valid b) (v : Bytes) (k : Place) (hu : u ≠ r) :
    ((x.add r v).Holds k u ↔ x.Holds k u) ∧ ((x.remove r v).Holds k u ↔ x.Holds k u) := by
  rw [holds_add h, holds_remove h]
  exact ⟨or_iff_right fun hadd => hu hadd.1, and_iff_right fun hgone => hu hgone.1⟩

/-- **A record that is taken out right after it came leaves every set as it
was.** -/
theorem Represents.holds_remove_add (h : x.Represents b m) (hr : m r = none) (v : Bytes) :
    ((x.add r v).remove r v).Holds k u ↔ x.Holds k u := by
  rw [holds_remove (h.toValid.add r v), holds_add h.toValid]
  by_cases hu : u = r
  · -- the record was in no set, and is taken out of those it came into
    have habsent : ¬ x.Holds k u := by
      rw [h.holds_iff, hu, hr]
      rintro ⟨w, hw, -⟩
      cases hw
    simp [hu, hu ▸ habsent]
  · simp [hu]

theorem Represents.accounts (h : x.Represents b m) (hx : x.Within n)
    (hn : n < Tables.positionLimit)
    (hm : ∀ r v, m r = some v → v.length < Tables.positionLimit) : x.Accounts b m where
  forward_ascending := h.forward
  backward_ascending := h.backward
  forward_nonneg _ _ _ hq := (hx.forward h.toValid hn hq).1
  backward_neg _ _ _ hq := (hx.backward h.toValid hn hq).2
  forward_lookup c _ _ := (PositionList.mem_entries_iff (h.forward c)).symm
  backward_lookup c _ _ := (PositionList.mem_entries_iff (h.backward c)).symm
  forward c i r hi := by
    have hsize : Tables.positionLimit ≤ UInt32.size := by decide
    rw [h.mem_forward hm, Nat.mod_eq_of_lt (by omega)]
  backward c q k r hq hk := by
    have hlookup := fun s => PositionList.mem_entries_iff (p := q) (s := s) (h.backward c)
    simp only [backward?, ← hlookup]
    refine (h.mem_backward_entries hm).trans ?_
    refine exists_congr fun v => and_congr_right fun hv => ?_
    constructor
    · rintro ⟨j, hj, -, hle, hbyte⟩
      obtain rfl : j = k := by omega
      exact ⟨hle, hbyte⟩
    · rintro ⟨hle, hbyte⟩
      exact ⟨k, hq, hk, hle, hbyte⟩
  presence c r := by
    refine (h.holds_iff (.anywhere c) r).trans ?_
    simp only [anywhere_mem_places]
  anyAt i r hi := by
    have hsize : Tables.positionLimit ≤ UInt32.size := by decide
    rw [h.mem_anyAt hm, Nat.mod_eq_of_lt (by omega)]
  remove_add _ v hr _ _ := h.holds_remove_add hr v
  add_others _ v k _ hu := holds_of_ne h.toValid v k hu

/-- **After any proper changes with values short enough to have positions, the
sets account for what is filed.** -/
theorem places_after_changes (b : Backend) {fs : List (Filing Bytes)}
    (hfs : Filing.AllProper b .none fs)
    (hlen : ∀ r v, .add r v ∈ fs → v.length < Tables.positionLimit) :
    ((empty b).afterAll fs).Accounts b (Contents.none.afterAll fs) := by
  have hle : ∀ r v, .add r v ∈ fs → v.length ≤ Tables.positionLimit - 1 := fun r v hmem => by
    have := hlen r v hmem
    omega
  obtain ⟨hrepresents, hwithin⟩ :=
    (represents_empty b).afterAll (within_empty b (Tables.positionLimit - 1)) hfs hle
  have hlimit : Tables.positionLimit - 1 < Tables.positionLimit := by decide
  exact hrepresents.accounts hwithin hlimit (Contents.forall_afterAll nofun hlen)

/-- A record with a byte twice leaves and comes back under a shorter value, and
another is taken out with a set. The sets left empty do not answer for them. -/
theorem places_after_return :
    let fs : List (Filing Bytes) := [.add 1 [97, 98, 97], .add 2 [97, 98], .remove 1 [97, 98, 97],
      .subtract (.ofList .dense [2]), .remove 2 [97, 98], .add 1 [98, 97]]
    let x := (empty .dense).afterAll fs
    1 ∈ x.anyAt 1 ∧ 1 ∉ x.anyAt 2 ∧ (∃ s, x.forward? 97 1 = some s ∧ 1 ∈ s) ∧
      ¬ (∃ s, x.forward? 97 0 = some s ∧ 1 ∈ s) ∧
      ∃ s, x.backward? 98 (-2) = some s ∧ 1 ∈ s := by
  intro fs x
  have hproper : Filing.AllProper .dense .none fs := by
    have hremoved : ∀ a ∈ some ([97, 98, 97] : Bytes), a = [97, 98, 97] := by decide
    exact ⟨rfl, rfl, hremoved, rfl, nofun, rfl, trivial⟩
  have hlen : ∀ r v, .add r v ∈ fs → v.length < Tables.positionLimit := by
    intro r v hmem
    simp only [fs, List.mem_cons, Filing.add.injEq, reduceCtorEq, List.not_mem_nil, or_false,
      false_or] at hmem
    rcases hmem with ⟨-, rfl⟩ | ⟨-, rfl⟩ | ⟨-, rfl⟩ <;> decide
  have haccounts := places_after_changes .dense hproper hlen
  have hfiled : Contents.none.afterAll fs 1 = some [98, 97] := rfl
  refine ⟨(haccounts.anyAt 1 1 (by decide)).2 ⟨_, hfiled, by decide⟩, fun hmem => ?_,
    (haccounts.forward 97 1 1 (by decide)).2 ⟨_, hfiled, rfl⟩, fun hmem => ?_,
    (haccounts.backward 98 (-2) 2 1 (by decide) (by decide)).2 ⟨_, hfiled, by decide, rfl⟩⟩
  · obtain ⟨v, hv, hlt⟩ := (haccounts.anyAt 2 1 (by decide)).1 hmem
    obtain rfl : [98, 97] = v := Option.some.inj (hfiled.symm.trans hv)
    exact absurd hlt (by decide)
  · obtain ⟨v, hv, hbyte⟩ := (haccounts.forward 97 0 1 (by decide)).1 hmem
    obtain rfl : [98, 97] = v := Option.some.inj (hfiled.symm.trans hv)
    exact absurd hbyte (by decide)

end PositionalIndex

end WildcardIndex
