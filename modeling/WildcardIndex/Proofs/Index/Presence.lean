import Mathlib.Data.List.Basic
import WildcardIndex.Proofs.Index.Alike
/-!
# The index — a byte anywhere

Which records have a byte anywhere is kept in a set of its own for each byte,
beside the sets of its places. The two accounts agree: a record is in the set of
a byte exactly if it is in one of the sets of its places. So asking for a byte
and asking for it between two runs, which is looked up place by place, give the
same answer.
-/

namespace WildcardIndex

variable {a : UInt8} {v : Bytes}

namespace Pattern

/-- Between two runs a literal byte is found wherever it stands. -/
theorem matches_between_runs_iff (hrun : a ≠ anyRun) (hone : a ≠ anyOne) :
    Matches [anyRun, a, anyRun] v ↔ a ∈ v := by
  simp only [matches_run_iff_append, matches_byte_iff hrun, or_iff_right hone]
  constructor
  · rintro ⟨u, -, rfl, b, w, rfl, rfl, -⟩
    exact List.mem_append_right u List.mem_cons_self
  · intro ha
    obtain ⟨u, w, rfl⟩ := List.append_of_mem ha
    exact ⟨u, a :: w, rfl, a, w, rfl, rfl, w, [], (List.append_nil w).symm, .nil⟩

theorem parts_between_runs (hrun : a ≠ anyRun) :
    (ofBytes [anyRun, a, anyRun]).parts = [⟨[a]⟩] := by
  simp [ofBytes, segments, hrun]

end Pattern

namespace Tables

variable {t : Tables}

theorem not_allWild_singleton (hone : a ≠ anyOne) : ¬ Part.allWild ⟨[a]⟩ = true := by
  simpa [Part.allWild] using hone

/-- A literal byte at an offset is one lookup. -/
theorem partAt_singleton (hone : a ≠ anyOne) (i : Nat) :
    t.partAt ⟨[a]⟩ i = (t.positional.forward? a i).getD t.nothing := by
  have hsome : ¬ Part.isEmpty ⟨[a]⟩ = true := Bool.false_ne_true
  have hliterals : Part.literals ⟨[a]⟩ = [(0, a)] := by simp [Part.literals, hone]
  have htail : ¬ Part.wildTail ⟨[a]⟩ = true := by simpa [Part.wildTail] using hone
  rw [partAt, if_neg hsome, if_neg (not_allWild_singleton hone), hliterals, meet]
  simp only [Nat.add_zero]
  cases t.positional.forward? a i with
  | none => rfl
  | some s => exact if_neg htail

/-- **Between two runs a byte is looked up place by place**, up to the longest
length. -/
theorem candidates_between_runs (hrun : a ≠ anyRun) (hone : a ≠ anyOne) :
    t.candidates (.ofBytes [anyRun, a, anyRun]) =
      (List.range t.length.maxLength).foldl
        (fun found i => found.union ((t.positional.forward? a i).getD t.nothing)) t.nothing := by
  have hparts := Pattern.parts_between_runs hrun
  have hstrategy : (Pattern.ofBytes [anyRun, a, anyRun]).strategy = .substring := by
    have hsome : ¬ (Pattern.ofBytes [anyRun, a, anyRun]).isEmpty = true := Bool.false_ne_true
    rw [Pattern.strategy, if_neg hsome, hparts]
    rfl
  simp only [candidates, hstrategy, onPart, hparts, anywhere, Part.length, List.length_singleton,
    if_neg (not_allWild_singleton hone), partAt_singleton hone]
  split
  · rename_i hnone
    rw [Nat.lt_one_iff.1 hnone]
    rfl
  · rename_i hsome
    rw [Nat.sub_add_cancel (Nat.not_lt.1 hsome)]

/-- **The set of a byte and the sets of its places agree**, from either end. -/
theorem Represents.presence_iff_places {b : Backend} {m : Contents Bytes} {r : Record}
    (h : t.Represents b m) (a : UInt8) :
    ((∃ s, t.positional.presence? a = some s ∧ r ∈ s) ↔
        ∃ q s, (q, s) ∈ (t.positional.forward.get a).toList ∧ r ∈ s) ∧
      ((∃ s, t.positional.presence? a = some s ∧ r ∈ s) ↔
        ∃ q s, (q, s) ∈ (t.positional.backward.get a).toList ∧ r ∈ s) := by
  have hmirrors := h.mirrors
  unfold PositionalIndex.presence?
  simp only [hmirrors.presence, hmirrors.forward, hmirrors.backward]
  constructor
  · constructor
    · rintro ⟨v, hv, ha⟩
      obtain ⟨i, hi⟩ := List.mem_iff_getElem?.1 ha
      have hlt := (List.getElem?_eq_some_iff.1 hi).1
      have hlen := h.length_lt hv
      refine ⟨positionOf i, v, hv, ?_, ?_⟩
      · rw [toInt_positionOf (by omega)]
        omega
      · rwa [toInt_positionOf (by omega)]
    · rintro ⟨q, v, hv, -, hbyte⟩
      exact ⟨v, hv, List.mem_of_getElem? hbyte⟩
  · constructor
    · rintro ⟨v, hv, ha⟩
      obtain ⟨i, hi⟩ := List.mem_iff_getElem?.1 ha
      have hlt := (List.getElem?_eq_some_iff.1 hi).1
      have hlen := h.length_lt hv
      -- the byte at `i` is as far from the end as bytes are left from it on
      refine ⟨-positionOf (v.length - i), v, hv, v.length - i,
        toInt_neg_positionOf (by omega), by omega, by omega, ?_⟩
      rwa [show v.length - (v.length - i) = i by omega]
    · rintro ⟨q, v, hv, k, -, -, -, hbyte⟩
      exact ⟨v, hv, List.mem_of_getElem? hbyte⟩

end Tables

namespace Index

variable {I σ : Type} {c : Config}

/-- **A byte is found alike by its own set and by its places**, in any index
reached. The records with the byte are the live ones whose indexed value has it,
ascending. Its own set holds the same as the sets of its places together,
counted from either end, before any tombstone is left out. And a byte that is
not special is answered the same between two runs, where the sets of its places
are looked up one after the other. -/
theorem containing_agrees_with_places {x₀ : Index I} (hc : withConfig c = .ok x₀)
    (ops : List (Operation I σ)) (a : UInt8) :
    let x := (x₀.run ops).2
    let m := Listing.afterAll c [] ops (x₀.run ops).1
    let positional := x.tables.positional
    (∀ r, r ∈ x.containing a ↔
        x.store.state? r = some .live ∧ ∃ v, x.store.value? r = some v ∧ a ∈ v) ∧
      (x.containing a).toList = (m.filter fun e => decide (a ∈ e.2.2)).map Prod.fst ∧
      (∀ r, (∃ s, positional.presence? a = some s ∧ r ∈ s) ↔
        ∃ q s, (q, s) ∈ (positional.forward.get a).toList ∧ r ∈ s) ∧
      (∀ r, (∃ s, positional.presence? a = some s ∧ r ∈ s) ↔
        ∃ q s, (q, s) ∈ (positional.backward.get a).toList ∧ r ∈ s) ∧
      (a ≠ anyRun → a ≠ anyOne →
        x.tables.candidates (.ofBytes [anyRun, a, anyRun]) =
            (List.range x.tables.length.maxLength).foldl
              (fun found i => found.union ((positional.forward? a i).getD x.tables.nothing))
              x.tables.nothing ∧
          (x.containing a).toList = (x.matching [anyRun, a, anyRun]).toList) := by
  intro x m positional
  obtain ⟨hvalidate, rfl⟩ := fresh_of_withConfig hc
  have hfresh : (fresh c : Index I).Valid := valid_fresh hvalidate
  have hvalid : x.Valid := hfresh.run ops
  obtain ⟨-, hlists⟩ := Listing.Lists.run (x := fresh c) (Listing.lists_empty c.backend) hfresh ops
  obtain ⟨hset, hmem⟩ := hvalid.containing_spec a
  have hplaces := fun r => hvalid.tables.presence_iff_places (r := r) a
  refine ⟨fun r => ?_, ?_, fun r => (hplaces r).1, fun r => (hplaces r).2, fun hrun hone => ?_⟩
  · rw [hmem]
    constructor
    · rintro ⟨i, v, hi, ha⟩
      obtain ⟨hlive, hv⟩ := Store.exists_content?_iff_live.1 ⟨i, hi⟩
      exact ⟨hlive, v, hv, ha⟩
    · rintro ⟨hlive, v, hv, ha⟩
      obtain ⟨i, hi⟩ := Store.exists_content?_iff_live.2 ⟨hlive, hv⟩
      exact ⟨i, v, hi, ha⟩
  · exact hlists.toList_eq hset (a ∈ ·) hmem
  · refine ⟨Tables.candidates_between_runs hrun hone, ?_⟩
    refine RecordSet.toList_eq_of_mem_iff hset (hvalid.valid_matching _) fun r => ?_
    rw [hmem, hvalid.mem_matching]
    simp only [Pattern.matches_between_runs_iff hrun hone]

/-- A slot that held an `aa` was given an `ab` before it was purged. Its `a` finds
it once. -/
theorem containing_after_reuse :
    let x := ((fresh {} : Index Nat).run
      [.insert 1 [97, 97], .delete (fun (s : Unit) _ => (true, s)) (), .insert 2 [97, 98]]).2
    (x.containing 97).toList = [0] ∧ (x.containing 97).toList = (x.matching [37, 97, 37]).toList := by
  intro x
  have hc : withConfig {} = .ok (fresh {} : Index Nat) := rfl
  obtain ⟨-, hlisting, -, -, hbetween⟩ := containing_agrees_with_places hc
    [.insert 1 [97, 97], .delete (fun (s : Unit) _ => (true, s)) (), .insert 2 [97, 98]] 97
  exact ⟨hlisting.trans (by decide), (hbetween (by decide) (by decide)).2⟩

end Index

end WildcardIndex
