import Mathlib.Data.List.Basic
import WildcardIndex.Index.Search
import WildcardIndex.Proofs.Index.Listing
import WildcardIndex.Proofs.Pattern.Rewriting
import WildcardIndex.Proofs.Query.Candidates
/-!
# The index — answers are read off the listing

A valid index answers a pattern with the live records whose value matches it. So
after any run from a fresh index, the answer to any pattern is the listing
filtered by the pattern, and resolving it never fails. What holds of the values
a pattern matches so carries over to its answers, whichever strategy finds them.
-/

namespace WildcardIndex

variable {I σ : Type} {x : Index I} {c : Config} {r : Record} {m : Listing I}

namespace Store

variable {s : Store I} {v : Bytes}

/-- What is not tombstoned and still holds a value is live with it. -/
theorem exists_content?_iff :
    (∃ i, s.content? r = some (i, v)) ↔ r ∉ s.tombstones ∧ s.value? r = some v := by
  simp only [content?_eq_some]
  constructor
  · rintro ⟨i, hr, -, hv⟩
    exact ⟨hr, hv⟩
  · rintro ⟨hr, hv⟩
    unfold value? at hv
    obtain ⟨slot, hslot, -⟩ := Option.bind_eq_some_iff.1 hv
    exact ⟨slot.identifier, hr, by rw [identifier?, hslot]; rfl, hv⟩

/-- A record has content if it is live, and then its value is the cached one. -/
theorem exists_content?_iff_live :
    (∃ i, s.content? r = some (i, v)) ↔ s.state? r = some .live ∧ s.value? r = some v := by
  rw [state?_eq_live_iff]
  constructor
  · rintro ⟨i, hi⟩
    exact ⟨by rw [hi]; rfl, (content?_eq_some.1 hi).2.2⟩
  · rintro ⟨hlive, hv⟩
    obtain ⟨⟨i, w⟩, hi⟩ := Option.isSome_iff_exists.1 hlive
    obtain rfl : w = v := Option.some.inj ((content?_eq_some.1 hi).2.2.symm.trans hv)
    exact ⟨i, hi⟩

end Store

/-- A set of live records that is chosen by their values lists as the listing
filtered. -/
theorem Listing.Lists.toList_eq {store : Store I} {s : RecordSet} {b : Backend}
    (h : m.Lists store) (hs : s.Valid b) (P : Bytes → Prop) [DecidablePred P]
    (hmem : ∀ r, r ∈ s ↔ ∃ i v, store.content? r = some (i, v) ∧ P v) :
    s.toList = (m.filter fun e => decide (P e.2.2)).map Prod.fst := by
  refine RecordSet.eq_of_pairwise_lt id (RecordSet.pairwise_toList hs) ?_ fun r => ?_
  · rw [List.pairwise_map]
    exact h.ascending.sublist List.filter_sublist
  · rw [RecordSet.mem_toList hs, hmem, List.mem_map]
    constructor
    · rintro ⟨i, v, hi, hP⟩
      exact ⟨(r, i, v), List.mem_filter.2 ⟨(h.mem_iff r _).2 hi, decide_eq_true hP⟩, rfl⟩
    · rintro ⟨⟨u, i, v⟩, hu, rfl⟩
      obtain ⟨hlisted, hP⟩ := List.mem_filter.1 hu
      exact ⟨i, v, (h.mem_iff u _).1 hlisted, of_decide_eq_true hP⟩

namespace Index

theorem Valid.valid_matching (h : x.Valid) (pattern : Bytes) :
    (x.matching pattern).Valid x.config.backend :=
  h.tables.valid.answer x.store.tombstones (.ofBytes pattern)

/-- **An answer is the live records whose value matches.** -/
theorem Valid.mem_matching (h : x.Valid) (pattern : Bytes) :
    r ∈ x.matching pattern ↔
      ∃ i v, x.store.content? r = some (i, v) ∧ Pattern.Matches pattern v := by
  rw [matching, h.tables.mem_answer h.store.tombstones]
  constructor
  · rintro ⟨hr, v, hv, hmatches⟩
    obtain ⟨i, hi⟩ := Store.exists_content?_iff.2 ⟨hr, hv⟩
    exact ⟨i, v, hi, hmatches⟩
  · rintro ⟨i, v, hi, hmatches⟩
    obtain ⟨hr, hv⟩ := Store.exists_content?_iff.1 ⟨i, hi⟩
    exact ⟨hr, v, hv, hmatches⟩

/-- Every record of an answer is live. -/
theorem Valid.isSome_content?_of_matching (h : x.Valid) (pattern : Bytes) :
    ∀ r ∈ (x.matching pattern).toList, (x.store.content? r).isSome := by
  intro r hr
  rw [RecordSet.mem_toList (h.valid_matching pattern), h.mem_matching] at hr
  obtain ⟨i, v, hi, -⟩ := hr
  rw [hi]
  rfl

/-- The records of an answer, by ascending number, are those of the listing. -/
theorem Valid.toList_matching (h : x.Valid) (hm : m.Lists x.store) (pattern : Bytes) :
    (x.matching pattern).toList =
      (m.filter fun e => decide (Pattern.Matches pattern e.2.2)).map Prod.fst :=
  hm.toList_eq (h.valid_matching pattern) (Pattern.Matches pattern) fun _ => h.mem_matching pattern

/-- **An answer always resolves**, to the identifiers of the listing. -/
theorem Valid.resolve_matching (h : x.Valid) (hm : m.Lists x.store) (pattern : Bytes) :
    x.store.resolve (x.matching pattern) =
      .ok ((m.filter fun e => decide (Pattern.Matches pattern e.2.2)).map fun e => e.2.1) := by
  rw [Store.resolve_of_live (h.isSome_content?_of_matching pattern), h.toList_matching hm, List.filterMap_map,
    ← List.filterMap_eq_map]
  refine congrArg _ (List.filterMap_congr fun e he => ?_)
  obtain ⟨u, i, v⟩ := e
  rw [Function.comp_apply, (hm.mem_iff u _).1 (List.mem_of_mem_filter he)]
  rfl

end Index

namespace Listing

/-- **A run keeps an index listed**, and every answer on the way is as the
listing at that moment says. -/
theorem Lists.run (h : m.Lists x.store) (hx : x.Valid) (ops : List (Operation I σ)) :
    m.AllowsAll x.config ops (x.run ops).1 ∧
      (m.afterAll x.config ops (x.run ops).1).Lists (x.run ops).2.store := by
  induction ops generalizing m x with
  | nil => exact ⟨trivial, h⟩
  | cons op ops ih =>
    obtain ⟨hallows, hlists⟩ := h.perform hx op
    obtain ⟨hvalid, hconfig⟩ := hx.perform op
    obtain ⟨hallowsAll, hlistsAll⟩ := ih hlists hvalid
    rw [hconfig] at hallowsAll hlistsAll
    exact ⟨⟨hallows, hallowsAll⟩, hlistsAll⟩

end Listing

namespace Index

/-- **After any run, every pattern is answered from the listing**: with the
listed records whose value matches it, and with their identifiers in the order
asked for. -/
theorem matching_after_run {x₀ : Index I} (hc : withConfig c = .ok x₀)
    (ops : List (Operation I σ)) :
    let x := (x₀.run ops).2
    let m := Listing.afterAll c [] ops (x₀.run ops).1
    Listing.AllowsAll c [] ops (x₀.run ops).1 ∧
      ∀ pattern, (∀ r, r ∈ x.matching pattern ↔
          ∃ i v, (r, i, v) ∈ m ∧ Pattern.Matches pattern v) ∧
        ∀ compare, x.matchingBy compare pattern =
          .ok (((m.filter fun e => decide (Pattern.Matches pattern e.2.2)).map fun e =>
            e.2.1).mergeSort fun i j => (compare i j).isLE) := by
  intro x m
  obtain ⟨hvalidate, rfl⟩ := fresh_of_withConfig hc
  have hfresh : (fresh c : Index I).Valid := valid_fresh hvalidate
  have hvalid : x.Valid := hfresh.run ops
  obtain ⟨hallows, hlists⟩ :=
    Listing.Lists.run (x := fresh c) (Listing.lists_empty c.backend) hfresh ops
  refine ⟨hallows, fun pattern => ⟨fun r => ?_, fun compare => ?_⟩⟩
  · rw [hvalid.mem_matching]
    exact exists_congr fun i => exists_congr fun v => and_congr_left fun _ => (hlists.mem_iff r _).symm
  · rw [matchingBy, identifiersBy, hvalid.resolve_matching hlists]
    rfl

/-- Of an `ab` that was deleted and a `b`, the pattern of a run and a `b` finds
the second only. -/
theorem matching_after_deletion :
    let x := ((fresh {} : Index Nat).run
      [.insert 1 [97, 98], .insert 2 [98], .delete (fun (s : Unit) i => (i == 1, s)) ()]).2
    (1 : Record) ∈ x.matching [37, 98] ∧ (0 : Record) ∉ x.matching [37, 98] := by
  intro x
  have hc : withConfig {} = .ok (fresh {} : Index Nat) := rfl
  have hmatching := ((matching_after_run hc [.insert 1 [97, 98], .insert 2 [98],
    .delete (fun (s : Unit) i => (i == 1, s)) ()]).2 [37, 98]).1
  have hlisting : Listing.afterAll {} [] [.insert 1 [97, 98], .insert 2 [98],
      .delete (fun (s : Unit) i => (i == 1, s)) ()] ((fresh {} : Index Nat).run
      [.insert 1 [97, 98], .insert 2 [98], .delete (fun (s : Unit) i => (i == 1, s)) ()]).1 =
      [(1, 2, [98])] := by decide
  rw [hlisting] at hmatching
  refine ⟨(hmatching 1).2 ⟨2, [98], List.mem_singleton.2 rfl, by decide⟩, fun hmem => ?_⟩
  obtain ⟨i, v, hv, -⟩ := (hmatching 0).1 hmem
  cases List.mem_singleton.1 hv

/-! ## Rewriting a pattern -/

/-- What one pattern matches and another does too is answered to both. -/
theorem Valid.matching_subset (h : x.Valid) {p q : Bytes}
    (hpq : ∀ v, Pattern.Matches p v → Pattern.Matches q v) :
    (x.matching p).toList ⊆ (x.matching q).toList := by
  intro r hr
  rw [RecordSet.mem_toList (h.valid_matching p), h.mem_matching] at hr
  rw [RecordSet.mem_toList (h.valid_matching q), h.mem_matching]
  obtain ⟨i, v, hi, hmatches⟩ := hr
  exact ⟨i, v, hi, hpq v hmatches⟩

/-- **Rewriting a pattern moves its answer as it moves what it matches**, in any
index reached: widening steps only ever add records, and a pattern spelled in
another way is answered the same, also where another strategy answers it. -/
theorem matching_of_rewriting {x₀ : Index I} (hc : withConfig c = .ok x₀)
    (ops : List (Operation I σ)) (p q : Bytes) :
    let x := (x₀.run ops).2
    (Relation.ReflTransGen Pattern.Widens p q →
        (x.matching p).toList ⊆ (x.matching q).toList) ∧
      (Relation.EqvGen Pattern.Respells p q →
        (x.matching p).toList = (x.matching q).toList) := by
  intro x
  obtain ⟨hvalidate, rfl⟩ := fresh_of_withConfig hc
  have hvalid : x.Valid := (valid_fresh hvalidate).run ops
  refine ⟨fun hwidens => hvalid.matching_subset fun v => Pattern.matches_of_widens hwidens,
    fun hrespells => ?_⟩
  refine RecordSet.toList_eq_of_mem_iff (hvalid.valid_matching p) (hvalid.valid_matching q) ?_
  intro r
  simp only [hvalid.mem_matching, Pattern.matches_iff_of_respells hrespells]

/-- A pattern widened in three steps goes from one strategy to another and finds a
record more, and one whose `_` changes places with its run goes to another
strategy and finds the same one. -/
theorem matching_of_widened_and_swapped :
    let x := ((fresh {} : Index Nat).run
      [(.insert 1 [97, 98] : Operation Nat Unit), .insert 2 [99, 97, 98, 100]]).2
    (Pattern.ofBytes [97, 98]).strategy ≠ (Pattern.ofBytes [37, 98, 37]).strategy ∧
      (x.matching [97, 98]).toList ⊆ (x.matching [37, 98, 37]).toList ∧
      (x.matching [97, 98]).toList = [0] ∧ (x.matching [37, 98, 37]).toList = [0, 1] ∧
      (Pattern.ofBytes [97, 95, 37]).strategy ≠ (Pattern.ofBytes [97, 37, 95]).strategy ∧
      (x.matching [97, 95, 37]).toList = (x.matching [97, 37, 95]).toList ∧
      (x.matching [97, 37, 95]).toList = [0] := by
  intro x
  have hc : withConfig {} = .ok (fresh {} : Index Nat) := rfl
  have hwidens : Relation.ReflTransGen Pattern.Widens [97, 98] [37, 98, 37] :=
    ((Relation.ReflTransGen.single (.literal [] [98] (by decide) (by decide))).tail
      (.one [] [98])).tail (.insert [37, 98] [])
  have hrespells : Relation.EqvGen Pattern.Respells [97, 95, 37] [97, 37, 95] :=
    .rel _ _ (.swap [97] [])
  let ops : List (Operation Nat Unit) := [.insert 1 [97, 98], .insert 2 [99, 97, 98, 100]]
  have hanswers : (x.matching [97, 98]).toList = [0] ∧ (x.matching [37, 98, 37]).toList = [0, 1] ∧
      (x.matching [97, 37, 95]).toList = [0] := by decide +kernel
  exact ⟨by decide, (matching_of_rewriting hc ops _ _).1 hwidens, hanswers.1, hanswers.2.1,
    by decide, (matching_of_rewriting hc ops _ _).2 hrespells, hanswers.2.2⟩

end Index

end WildcardIndex
