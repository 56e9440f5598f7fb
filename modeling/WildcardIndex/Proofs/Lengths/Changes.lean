import Mathlib.Data.List.Basic
import WildcardIndex.Proofs.Filing
import WildcardIndex.Proofs.Lengths
/-!
# Lengths — after any changes

Slots are made, records come and go, sets of records are taken out and
everything is dropped. Whatever the order, a length index represents what is
filed; and its two kinds of sets **account** for each other, the set of at least
a length being the union of those of exactly the lengths from there on. That is
why growing may leave its new sets empty: no set of exactly a length stands
beyond them.
-/

namespace WildcardIndex

namespace LengthIndex

/-- A change to a length index. -/
inductive Change where
  /-- Slots are made for a length and every shorter one. -/
  | grow (n : Nat)
  /-- What is filed changes. -/
  | file (f : Filing Nat)

/-- The change to what is filed, if there is one. -/
def Change.filing? : Change → Option (Filing Nat)
  | grow _ => none
  | file f => some f

/-- What some changes do to what is filed. -/
def filings (cs : List Change) : List (Filing Nat) := cs.filterMap Change.filing?

/-- The index after a change. -/
def after (x : LengthIndex) : Change → LengthIndex
  | .grow n => x.grow n
  | .file (.add r n) => x.add r n
  | .file (.remove r n) => x.remove r n
  | .file (.subtract gone) => x.subtract gone
  | .file .clear => x.clear

/-- The index after a sequence of changes. -/
def afterAll (x : LengthIndex) (cs : List Change) : LengthIndex := cs.foldl after x

variable {b : Backend} {m : Contents Nat} {x : LengthIndex} {r : Record} {n : Nat}

/-- A record that is not filed is in no set, so removing it changes none. -/
theorem Represents.remove_of_absent (h : x.Represents b m) (hr : m r = none) (n : Nat) :
    (x.remove r n).Represents b m where
  toValid := h.toValid.remove r n
  mem_exactly k u := by
    rw [mem_exactly_remove, h.mem_exactly k u, and_iff_right_of_imp]
    rintro hk ⟨rfl, -⟩
    rw [hr] at hk
    cases hk
  mem_atLeast k u := by
    rw [mem_atLeast_remove, h.mem_atLeast k u, and_iff_right_of_imp]
    rintro ⟨j, hj, -⟩ ⟨rfl, -⟩
    rw [hr] at hj
    cases hj

/-- **A proper change keeps the index up with what is filed.** -/
theorem Represents.file (h : x.Represents b m) {f : Filing Nat} (hf : f.Proper b m) :
    (x.after (.file f)).Represents b (m.after f) := by
  cases f with
  | add r n => exact h.add hf n
  | remove r n =>
    cases hr : m r with
    | none =>
      have habsent := h.remove_of_absent hr n
      rwa [← Contents.set_eq_self hr] at habsent
    | some k =>
      obtain rfl : k = n := hf k hr
      exact h.remove hr
  | subtract gone => exact h.subtract hf
  | clear =>
    rw [after, clear, h.backend]
    exact represents_empty b

/-- **So do all changes**, slots being made in between. -/
theorem Represents.afterAll (h : x.Represents b m) {cs : List Change}
    (hcs : Filing.AllProper b m (filings cs)) :
    (x.afterAll cs).Represents b (m.afterAll (filings cs)) := by
  induction cs generalizing x m with
  | nil => exact h
  | cons c cs ih =>
    cases c with
    | grow n => exact ih (h.grow n) hcs
    | file f => exact ih (h.file hcs.1) hcs.2

/-! ## The two kinds of sets -/

/-- The sets of a length index account for what is filed, and for each other. -/
structure Accounts (b : Backend) (m : Contents Nat) (x : LengthIndex) : Prop where
  /-- The set of exactly a length holds the records of that length. -/
  exactly : ∀ n r, (∃ s, x.exactly? n = some s ∧ r ∈ s) ↔ m r = some n
  /-- No two of these sets share a record. -/
  disjoint : ∀ n k s t, n ≠ k → x.exactly? n = some s → x.exactly? k = some t → ∀ r ∈ s, r ∉ t
  /-- The set in a slot is the union of the sets of exactly a length from there on. -/
  union : ∀ n s, x.atLeast? n = some s →
    ∀ r, r ∈ s ↔ ∃ k, n ≤ k ∧ ∃ t, x.exactly? k = some t ∧ r ∈ t
  /-- So these sets get smaller from slot to slot. -/
  antitone : ∀ n k s t, n ≤ k → x.atLeast? n = some s → x.atLeast? k = some t → ∀ r ∈ t, r ∈ s
  /-- Any length can be asked for, also one beyond the slots. -/
  atLeast : ∀ n r, r ∈ x.atLeast n ↔ ∃ k, m r = some k ∧ n ≤ k
  /-- There are as many slots of one kind as of the other. -/
  size_eq : x.cumulative.size = x.exact.size
  /-- Every length that is filed has a slot. -/
  lt_slots : ∀ r n, m r = some n → n < x.slots
  /-- Growing keeps the sets there are, and the new ones are empty. -/
  grow : ∀ n k, (x.grow n).exactly? k = x.exactly? k ∧
    (x.grow n).atLeast? k =
      if k < x.slots then x.atLeast? k else if k ≤ n then some (.empty b) else none

theorem Represents.accounts (h : x.Represents b m) : x.Accounts b m where
  exactly := h.mem_exactly
  disjoint n k s t hne hs ht r hr hr' := by
    have hn := (h.mem_exactly n r).1 ⟨s, hs, hr⟩
    have hk := (h.mem_exactly k r).1 ⟨t, ht, hr'⟩
    exact hne (Option.some.inj (hn.symm.trans hk))
  union n s hs r := by
    have hslot : r ∈ s ↔ r ∈ x.atLeast n := by
      rw [mem_atLeast_iff, hs]
      simp
    rw [hslot, h.mem_atLeast]
    exact exists_congr fun k => by rw [h.mem_exactly, and_comm]
  antitone n k s t hle hs ht r hr := by
    obtain ⟨j, hj, hkj⟩ := (h.mem_atLeast k r).1 (mem_atLeast_iff.2 ⟨t, ht, hr⟩)
    obtain ⟨s', hs', hr'⟩ :=
      mem_atLeast_iff.1 ((h.mem_atLeast n r).2 ⟨j, hj, Nat.le_trans hle hkj⟩)
    rw [hs, Option.some.injEq] at hs'
    rwa [hs']
  atLeast := h.mem_atLeast
  size_eq := h.size_eq
  lt_slots _ _ hr := h.lt_slots hr
  grow n k := ⟨exactly?_grow x n k, atLeast?_grow h.toValid n k⟩

/-- **After any proper changes, the two kinds of sets account for what is
filed.** -/
theorem accounts_after_changes (b : Backend) {cs : List Change}
    (hcs : Filing.AllProper b .none (filings cs)) :
    ((empty b).afterAll cs).Accounts b (Contents.none.afterAll (filings cs)) :=
  ((represents_empty b).afterAll hcs).accounts

/-- The longest value is gone and its slot is left. Growing from there fills
nothing in, and a record that came back is found by its new length. -/
theorem accounts_after_growth :
    let cs : List Change := [.file (.add 1 4), .file (.add 2 1), .file (.remove 1 4), .grow 6,
      .file (.subtract (.ofList .dense [2])), .file (.add 2 5), .file (.remove 1 4)]
    let x := (empty .dense).afterAll cs
    x.slots = 7 ∧ 2 ∈ x.atLeast 5 ∧ 2 ∉ x.atLeast 6 := by
  intro cs x
  have hremoved : ∀ a ∈ some 4, a = 4 := by decide
  have hproper : Filing.AllProper .dense .none (filings cs) :=
    ⟨rfl, rfl, hremoved, rfl, rfl, nofun, trivial⟩
  have haccounts := accounts_after_changes .dense hproper
  have hslots : x.slots = 7 := by
    simp only [x, cs, afterAll, List.foldl_cons, List.foldl_nil, after, slots_remove, slots_add,
      slots_subtract, slots_grow]
    rfl
  refine ⟨hslots, (haccounts.atLeast 5 2).2 ⟨5, rfl, Nat.le_refl 5⟩, fun hmem => ?_⟩
  obtain ⟨k, hk, hle⟩ := (haccounts.atLeast 6 2).1 hmem
  obtain rfl : 5 = k := Option.some.inj hk
  omega

end LengthIndex

end WildcardIndex
