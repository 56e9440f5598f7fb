import Mathlib.Data.List.Basic
import WildcardIndex.Proofs.Index.Run
/-!
# The index — which records a predicate is asked about

A predicate carries a state from each verdict to the next, so what it chooses
hangs on what it is asked, how often and in which order. Deleting **visits** the
live records once each, ascending, and drops exactly those chosen; replacing does
the same with the records that were live before the new one came. The account is
the predicate's own: one that notes its verdicts down comes back with the visits.
-/

namespace WildcardIndex

/-- What a predicate said when it was asked. -/
structure Verdict (I τ : Type) where
  /-- The state it was in. -/
  state : τ
  /-- The identifier it was asked about. -/
  identifier : I
  /-- Its answer. -/
  chosen : Bool

/-- A verdict on a record, by its identifier. -/
structure Visit (I τ : Type) extends Verdict I τ where
  /-- The record. -/
  record : Record

variable {I σ τ : Type}

/-- The visits to some records, one after the other: the predicate is asked about
each in the state that the one before left it in. -/
def visits (p : τ → I → Bool × τ) : τ → List (Record × I) → List (Visit I τ)
  | _, [] => []
  | s, (r, i) :: rest => ⟨⟨s, i, (p s i).1⟩, r⟩ :: visits p (p s i).2 rest

/-- A predicate that also notes its verdicts down. -/
def noting (p : τ → I → Bool × τ) (noted : τ × List (Verdict I τ)) (i : I) :
    Bool × (τ × List (Verdict I τ)) :=
  let (s, verdicts) := noted
  ((p s i).1, (p s i).2, verdicts ++ [⟨s, i, (p s i).1⟩])

/-- The records some visits chose. -/
def chosenRecords (visited : List (Visit I τ)) : List Record :=
  (visited.filter (·.chosen)).map (·.record)

/-- Between two moments of a store, exactly the chosen ones of the visited
records were dropped, and what stayed live kept all it had. -/
structure Swept (visited : List (Visit I τ)) (before after : Store I) : Prop where
  /-- A live record stays live unless a visit to it chose it; no other comes to
  life. -/
  live_iff : ∀ u, after.state? u = some .live ↔
    before.state? u = some .live ∧ ∀ visit ∈ visited, visit.record = u → visit.chosen = false
  /-- A record that stayed keeps its identifier. -/
  identifier?_eq : ∀ u, after.state? u = some .live → after.identifier? u = before.identifier? u
  /-- And its value. -/
  value?_eq : ∀ u, after.state? u = some .live → after.value? u = before.value? u

variable {r u : Record}

/-! ## Visits -/

/-- Each record is visited once, in the order given. -/
theorem map_visits (p : τ → I → Bool × τ) (s : τ) (among : List (Record × I)) :
    (visits p s among).map (fun visit => (visit.record, visit.identifier)) = among := by
  induction among generalizing s with
  | nil => rfl
  | cons e among ih => rw [visits, List.map_cons, ih]

theorem identifiers_visits (p : τ → I → Bool × τ) (s : τ) (among : List (Record × I)) :
    ((visits p s among).map Visit.toVerdict).map (·.identifier) = among.map Prod.snd := by
  conv_rhs => rw [← map_visits p s among]
  rw [List.map_map, List.map_map]
  rfl

theorem mem_chosenRecords {visited : List (Visit I τ)} :
    u ∈ chosenRecords visited ↔ ∃ visit ∈ visited, visit.record = u ∧ visit.chosen = true := by
  simp only [chosenRecords, List.mem_map, List.mem_filter]
  exact exists_congr fun _ => by rw [and_assoc, and_comm (a := _ = u)]

namespace Index

/-- **What is chosen is what the visits chose**, and the state of the predicate
at the end is that behind the last one. -/
theorem choose_eq (p : τ → I → Bool × τ) (s : τ) (among : List (Record × I)) :
    choose p s among = (chosenRecords (visits p s among), among.foldl (fun s e => (p s e.2).2) s) := by
  induction among generalizing s with
  | nil => rfl
  | cons e among ih =>
    obtain ⟨r, i⟩ := e
    simp only [choose, ih, visits, List.foldl_cons, chosenRecords, Prod.mk.injEq, and_true]
    cases hchosen : (p s i).1 with
    | true => rw [List.filter_cons_of_pos (by simp), if_pos rfl, List.map_cons]
    | false => rw [List.filter_cons_of_neg (by simp), if_neg Bool.false_ne_true]

/-- **The verdicts are those of the visits.** Noting them down changes nothing else. -/
theorem choose_noting (p : τ → I → Bool × τ) (s : τ) (verdicts : List (Verdict I τ))
    (among : List (Record × I)) :
    choose (noting p) (s, verdicts) among = ((choose p s among).1, (choose p s among).2,
      verdicts ++ (visits p s among).map Visit.toVerdict) := by
  induction among generalizing s verdicts with
  | nil => rw [choose, visits, List.map_nil, List.append_nil, choose]
  | cons e among ih =>
    obtain ⟨r, i⟩ := e
    simp only [choose, noting, ih, visits, List.map_cons, List.append_assoc, List.singleton_append]

theorem delete_noting (x : Index I) (p : τ → I → Bool × τ) (s : τ) :
    x.delete (noting p) (s, []) =
      ⟨((x.delete p s).result.1, (x.delete p s).result.2,
          (visits p s x.store.live).map Visit.toVerdict),
        (x.delete p s).index, (x.delete p s).events⟩ := by
  simp only [delete, markChosen, choose_noting, List.nil_append]

theorem replace_noting {x : Index I} {identifier : I} {v : Bytes}
    (h : (x.place identifier v).result = .ok r) (p : τ → I → Bool × τ) (s : τ) :
    x.replace (noting p) (s, []) identifier v =
      ⟨(.ok r, (x.replace p s identifier v).result.2,
          (visits p s ((x.place identifier v).index.store.live.filter (·.1 != r))).map Visit.toVerdict),
        (x.replace p s identifier v).index, (x.replace p s identifier v).events⟩ := by
  unfold replace
  generalize x.place identifier v = o at *
  obtain ⟨result, ⟨config, tables, store, counters⟩, events⟩ := o
  simp only at h
  subst h
  simp only [markChosen, choose_noting, List.nil_append]

/-! ## What is left -/

/-- Where the chosen records lost their content and no other did, the store was
swept. -/
theorem swept_of_content? {visited : List (Visit I τ)} {before after : Store I}
    (h : ∀ u, after.content? u = if u ∈ chosenRecords visited then none else before.content? u) :
    Swept visited before after := by
  have hlive : ∀ u, after.state? u = some .live ↔
      u ∉ chosenRecords visited ∧ before.state? u = some .live := by
    intro u
    rw [Store.state?_eq_live_iff, Store.state?_eq_live_iff, h]
    split <;> simp_all
  have hkept : ∀ u, after.state? u = some .live →
      after.identifier? u = before.identifier? u ∧ after.value? u = before.value? u := by
    intro u hu
    obtain ⟨⟨i, v⟩, hafter⟩ := Option.isSome_iff_exists.1 (Store.state?_eq_live_iff.1 hu)
    have hbefore : before.content? u = some (i, v) := by
      rw [← hafter, h, if_neg ((hlive u).1 hu).1]
    obtain ⟨-, hi, hv⟩ := Store.content?_eq_some.1 hafter
    obtain ⟨-, hi', hv'⟩ := Store.content?_eq_some.1 hbefore
    rw [hi, hi', hv, hv']
    exact ⟨rfl, rfl⟩
  refine ⟨fun u => ?_, fun u hu => (hkept u hu).1, fun u hu => (hkept u hu).2⟩
  rw [hlive, mem_chosenRecords, and_comm]
  refine and_congr_right fun _ => ⟨fun hnot visit hvisit hrecord => ?_, fun hall => ?_⟩
  · exact Bool.eq_false_iff.2 fun hchosen => hnot ⟨visit, hvisit, hrecord, hchosen⟩
  · rintro ⟨visit, hvisit, hrecord, hchosen⟩
    rw [hall visit hvisit hrecord] at hchosen
    cases hchosen

variable {x : Index I} {identifier : I} {v : Bytes}

/-- **Deleting sweeps the live records**, and a compaction on top leaves what is
live alone. -/
theorem Valid.swept_delete (h : x.Valid) (p : τ → I → Bool × τ) (s : τ) :
    Swept (visits p s x.store.live) x.store (x.delete p s).index.store := by
  obtain ⟨store, hmarked, -, -, hcompacted⟩ := h.delete_spec p s
  refine swept_of_content? fun u => ?_
  rw [hcompacted.alike.store.content?_eq]
  have hcontent := hmarked.content?_eq u
  rw [choose_eq] at hcontent
  exact hcontent

/-- **Replacing sweeps what was live before**, once the new record has its place. -/
theorem Valid.swept_replace (h : x.Valid) (hr : x.store.next? = some r) (p : τ → I → Bool × τ)
    (s : τ) (identifier : I) (v : Bytes) :
    Swept (visits p s x.store.live) (x.place identifier v).index.store
      (x.replace p s identifier v).index.store := by
  obtain ⟨y, store, hplaced, hmarked, -, -, hcompacted⟩ := h.replace_of_next? hr p s identifier v
  have hplaced' := (h.place_of_next? hr identifier v).2
  refine swept_of_content? fun u => ?_
  rw [hcompacted.alike.store.content?_eq, hplaced'.took.content?_eq, ← hplaced.took.content?_eq]
  have hcontent := hmarked.content?_eq u
  rw [choose_eq] at hcontent
  exact hcontent

/-- **Deleting asks about each live record once**, ascending and about no other,
hands the state on from each to the next, and drops exactly the records chosen, also
where it compacts: their number is the answer and what the counter grows by.
**Replacing does the same with the records that were live before**, all but the
new one, and leaves that counter alone. -/
theorem delete_visits_each_live {x₀ : Index I} {c : Config} (hc : withConfig c = .ok x₀)
    (ops : List (Operation I σ)) (p : τ → I → Bool × τ) (s : τ) :
    let x := (x₀.run ops).2
    let visited := visits p s x.store.live
    let o := x.delete p s
    (x.store.live.Pairwise (fun e f => e.1 < f.1) ∧
      ∀ r i, (r, i) ∈ x.store.live ↔
        x.store.state? r = some .live ∧ x.store.identifier? r = some i) ∧
    visited.map (fun visit => (visit.record, visit.identifier)) = x.store.live ∧
    (x.delete (noting p) (s, [])).result = (o.result.1, o.result.2, visited.map Visit.toVerdict) ∧
    o.result = ((visited.filter (·.chosen)).length, x.store.live.foldl (fun s e => (p s e.2).2) s) ∧
    Swept visited x.store o.index.store ∧
    o.index.counters.deletes = x.counters.deletes + (visited.filter (·.chosen)).length ∧
    ∀ identifier v r, (x.replace p s identifier v).result.1 = .ok r →
      let placed := (x.place identifier v).index.store
      let o := x.replace p s identifier v
      placed.live.filter (·.1 != r) = x.store.live ∧
      (x.replace (noting p) (s, []) identifier v).result =
        (.ok r, o.result.2, visited.map Visit.toVerdict) ∧
      o.result.2 = x.store.live.foldl (fun s e => (p s e.2).2) s ∧
      Swept visited placed o.index.store ∧
      o.index.counters.deletes = x.counters.deletes := by
  intro x visited o
  obtain ⟨hvalidate, rfl⟩ := fresh_of_withConfig hc
  have hvalid : x.Valid := (valid_fresh hvalidate).run ops
  obtain ⟨store, -, hresult, -, hcompacted⟩ := hvalid.delete_spec p s
  have hcount : (choose p s x.store.live).1.length = (visited.filter (·.chosen)).length := by
    rw [choose_eq, chosenRecords, List.length_map]
  have hstate : (choose p s x.store.live).2 = x.store.live.foldl (fun s e => (p s e.2).2) s := by
    rw [choose_eq]
  refine ⟨⟨hvalid.store.pairwise_live, fun r i => hvalid.store.mem_live_iff⟩, map_visits p s _, ?_, ?_,
    hvalid.swept_delete p s, ?_, fun identifier v r hreplaced => ?_⟩
  · rw [delete_noting]
  · rw [← hcount, ← hstate]
    exact hresult
  · rw [← hcount]
    exact hcompacted.alike.deletes_eq
  have hr := (hvalid.replace_ok_iff p s identifier v).1 hreplaced
  obtain ⟨y, store, hplaced, -, hresult, -, hcompacted⟩ :=
    hvalid.replace_of_next? hr p s identifier v
  obtain ⟨hplace, hplaced'⟩ := hvalid.place_of_next? hr identifier v
  have hbefore := took_live hvalid.store hplaced'.took
  refine ⟨hbefore, ?_, ?_, hvalid.swept_replace hr p s identifier v, hcompacted.alike.deletes_eq⟩
  · rw [replace_noting hplace, hbefore]
  · rw [hresult, hstate]

/-- After a deletion, a predicate that chooses every other record is asked about
the two left, in turn, and chooses the first of them. Deleting compacts on top.
Replacing puts the new record in the slot left free, and is not asked about it. -/
theorem delete_every_other :
    let x := ((fresh { compactionThreshold := 2 } : Index Nat).run
      [.insert 5 [97], .insert 6 [98], .insert 7 [99], .delete (fun (s : Unit) i => (i == 5, s)) ()]).2
    let everyOther : Bool → Nat → Bool × Bool := fun s _ => (s, !s)
    let verdicts : List (Verdict Nat Bool) := [⟨true, 6, true⟩, ⟨false, 7, false⟩]
    let o := x.delete everyOther true
    let o' := x.replace everyOther true 8 [100]
    ((x.delete (noting everyOther) (true, [])).result = (1, true, verdicts) ∧
      o.index.counters.compactions = 1 ∧ o.index.store.state? 1 ≠ some .live ∧
      o.index.store.state? 2 = some .live ∧ o.index.store.value? 2 = some [99]) ∧
    (x.replace (noting everyOther) (true, []) 8 [100]).result = (.ok 0, true, verdicts) ∧
      o'.index.store.state? 0 = some .live ∧ o'.index.store.state? 1 ≠ some .live ∧
      o'.index.store.state? 2 = some .live ∧ o'.index.counters.deletes = 1 := by
  intro x everyOther verdicts o o'
  have hc : withConfig { compactionThreshold := 2 } =
      .ok (fresh { compactionThreshold := 2 } : Index Nat) := rfl
  obtain ⟨-, -, hnoting, hresult, hswept, -, hreplace⟩ := delete_visits_each_live hc
    [.insert 5 [97], .insert 6 [98], .insert 7 [99], .delete (fun (s : Unit) i => (i == 5, s)) ()]
    everyOther true
  have hreplaced : o'.result = (.ok 0, true) := by decide
  obtain ⟨-, hnoting', -, hswept', hdeletes⟩ := hreplace 8 [100] 0 (congrArg Prod.fst hreplaced)
  have hlive : x.store.live = [(1, 6), (2, 7)] := by decide
  have hvalue : x.store.value? 2 = some [99] := by decide
  rw [hlive] at hnoting hresult hswept hnoting' hswept'
  -- only the record of `6` was chosen, whoever was asked about it
  have hchosen : ∀ {before after : Store Nat},
      Swept (visits everyOther true [(1, 6), (2, 7)]) before after → after.state? 1 ≠ some .live :=
    fun hswept hlive => nomatch ((hswept.live_iff 1).1 hlive).2 _ List.mem_cons_self rfl
  have hstays : o.index.store.state? 2 = some .live :=
    (hswept.live_iff 2).2 ⟨by decide, by simp [visits, everyOther]⟩
  refine ⟨⟨?_, by decide, hchosen hswept, hstays, (hswept.value?_eq 2 hstays).trans hvalue⟩,
    ?_, ?_, hchosen hswept', ?_, hdeletes.trans (by decide)⟩
  · rw [hnoting, hresult]
    rfl
  · rw [hnoting', hreplaced]
    rfl
  · exact (hswept'.live_iff 0).2 ⟨by decide, by simp [visits, everyOther]⟩
  · exact (hswept'.live_iff 2).2 ⟨by decide, by simp [visits, everyOther]⟩

end Index

end WildcardIndex
