import Mathlib.Data.List.Basic
import WildcardIndex.Proofs.Index.Answers
import WildcardIndex.Proofs.Index.Visits
import WildcardIndex.Proofs.Store.Lifecycle
/-!
# The index — replacing is deleting, then inserting

A replacement places its new record before it drops the old ones, and a deletion
followed by an insertion does it the other way round. The two take other slots
and may compact at other moments. What is left of them differs in the numbers of
the records only: **the same identifiers are live under the same values**, so
every pattern is answered with the same identifiers.
-/

namespace WildcardIndex

variable {I σ τ : Type}

/-- What the live records have, without their numbers: their identifiers and
values. -/
def Store.entries (s : Store I) : List (I × Bytes) :=
  s.live.filterMap fun (r, i) => (s.value? r).map fun v => (i, v)

namespace Listing

variable {b : Backend} {m : Listing I} {store : Store I}

/-- A listed store has the entries of the listing. -/
theorem Lists.entries_eq (h : m.Lists store) (hstore : store.Valid b) :
    store.entries = m.map Prod.snd := by
  rw [Store.entries, ← h.map_eq_live hstore, List.filterMap_map, ← List.filterMap_eq_map]
  refine List.filterMap_congr fun x hx => ?_
  obtain ⟨r, i, v⟩ := x
  obtain ⟨-, -, hv⟩ := Store.content?_eq_some.1 ((h.mem_iff r (i, v)).1 hx)
  show (store.value? r).map (fun v => (i, v)) = some (i, v)
  rw [hv]
  rfl

/-- Where a record is put does not matter but for the order. -/
theorem perm_put (m : Listing I) (r : Record) (e : I × Bytes) : (m.put r e).Perm ((r, e) :: m) := by
  fun_induction put r e m with
  | case1 => exact .refl _
  | case2 u f m hlt ih => exact (ih.cons (u, f)).trans (.swap (r, e) (u, f) m)
  | case3 u f m hge => exact .refl _

end Listing

/-- **Sorting forgets the order before**, if elements that compare equal are
equal. -/
theorem mergeSort_eq_of_perm {α : Type} {compare : α → α → Ordering} [Std.TransCmp compare]
    [Std.LawfulEqCmp compare] {as bs : List α} (h : as.Perm bs) :
    (as.mergeSort fun a b => (compare a b).isLE) = bs.mergeSort fun a b => (compare a b).isLE := by
  have hsorted : ∀ l : List α,
      (l.mergeSort fun a b => (compare a b).isLE).Pairwise fun a b => (compare a b).isLE = true := by
    refine List.pairwise_mergeSort (fun _ _ _ => Std.TransCmp.isLE_trans) fun a b => ?_
    rw [show compare b a = (compare a b).swap from Std.OrientedCmp.eq_swap]
    cases compare a b <;> rfl
  refine List.Perm.eq_of_pairwise (fun a b _ _ hab hba => ?_) (hsorted as) (hsorted bs)
    ((List.mergeSort_perm as _).trans (h.trans (List.mergeSort_perm bs _).symm))
  exact Std.LawfulEqCmp.eq_of_compare (Std.OrientedCmp.isLE_antisymm hab hba)

namespace Index

variable {x y : Index I} {m m' : Listing I} {r : Record}

/-- **The same entries are found by the same patterns**, whatever the numbers of
their records. -/
theorem matchingBy_eq_of_perm (hx : x.Valid) (hy : y.Valid) (hm : m.Lists x.store)
    (hm' : m'.Lists y.store) (h : (m.map Prod.snd).Perm (m'.map Prod.snd))
    (compare : I → I → Ordering) [Std.TransCmp compare] [Std.LawfulEqCmp compare] (pattern : Bytes) :
    x.matchingBy compare pattern = y.matchingBy compare pattern := by
  have hfound : ∀ m : Listing I,
      ((m.filter fun e => decide (Pattern.Matches pattern e.2.2)).map fun e => e.2.1) =
        ((m.map Prod.snd).filter fun e => decide (Pattern.Matches pattern e.2)).map Prod.fst := by
    intro m
    rw [List.filter_map, List.map_map]
    rfl
  simp only [matchingBy, identifiersBy, hx.resolve_matching hm, hy.resolve_matching hm', hfound]
  exact congrArg Except.ok (mergeSort_eq_of_perm ((h.filter _).map _))

theorem size_eq_length_entries (hx : x.Valid) (hm : m.Lists x.store) :
    x.size = x.store.entries.length := by
  rw [size, ← hx.store.length_live, hm.entries_eq hx.store, ← hm.map_eq_live hx.store,
    List.length_map, List.length_map]

/-- Deleting leaves room for a record where there was room before. -/
theorem Valid.exists_next?_delete (h : x.Valid) (hr : x.store.next? = some r)
    (p : τ → I → Bool × τ) (s : τ) : ∃ u, (x.delete p s).index.store.next? = some u := by
  obtain ⟨store, hmarked, -, -, hcompacted⟩ := h.delete_spec p s
  cases hnext : (x.delete p s).index.store.next? with
  | some u => exact ⟨u, rfl⟩
  | none =>
    -- with no room left every record would be live, but the next one was not before
    have hfull := hcompacted.valid.store.isSome_content?_of_full hnext r
    rw [hcompacted.alike.store.content?_eq, Index.marked, hmarked.content?_eq,
      (h.store.next?_spec hr).1] at hfull
    simp at hfull

/-- Replacing lists what the predicate keeps, and the new record. -/
theorem Valid.lists_replace (h : x.Valid) (hm : m.Lists x.store) (hr : x.store.next? = some r)
    (p : τ → I → Bool × τ) (s : τ) (identifier : I) (v : Bytes) :
    ((m.keep p s).1.put r (identifier, indexedPart x.config v)).Lists
      (x.replace p s identifier v).index.store := by
  obtain ⟨y, store, hplaced, hmarked, -, -, hcompacted⟩ := h.replace_of_next? hr p s identifier v
  exact (hm.took_marked h.store p s hplaced.took hmarked).alike hcompacted.alike.store

/-- Deleting and then inserting lists the same, but for the number of the new
record. -/
theorem Valid.lists_delete_insert (h : x.Valid) (hm : m.Lists x.store)
    (hr : x.store.next? = some r) (p : τ → I → Bool × τ) (s : τ) (identifier : I) (v : Bytes) :
    let o := (x.delete p s).index.insert identifier v
    o.index.Valid ∧ ∃ u, o.result = .ok u ∧
      ((m.keep p s).1.put u (identifier, indexedPart x.config v)).Lists o.index.store := by
  obtain ⟨u, hu⟩ := h.exists_next?_delete hr p s
  obtain ⟨store, hmarked, -, -, hcompacted⟩ := h.delete_spec p s
  obtain ⟨y, hplaced, hresult, hindex⟩ := hcompacted.valid.insert_of_next? hu identifier v
  have hdeleted := (hm.marked h.store p s hmarked).alike hcompacted.alike.store
  have hinserted := hdeleted.took hplaced.took
  rw [hcompacted.config_eq] at hinserted
  simp only [hindex]
  exact ⟨hplaced.valid.with_counters _, u, hresult, hinserted⟩

/-- Replacing and deleting, then inserting list the kept records and the new one,
under two numbers. What tells no numbers is the same. -/
theorem Valid.same_entries_replace (h : x.Valid) (hm : m.Lists x.store)
    (hr : x.store.next? = some r) (p : τ → I → Bool × τ) (s : τ) (identifier : I) (v : Bytes) :
    let y := (x.replace p s identifier v).index
    let y' := ((x.delete p s).index.insert identifier v).index
    y.store.entries.Perm y'.store.entries ∧
      (∀ (compare : I → I → Ordering) [Std.TransCmp compare] [Std.LawfulEqCmp compare] pattern,
        y.matchingBy compare pattern = y'.matchingBy compare pattern) ∧
      y.size = y'.size := by
  intro y y'
  obtain ⟨marked, store, -, -, -, -, hcompacted⟩ := h.replace_of_next? hr p s identifier v
  have hy : y.Valid := hcompacted.valid
  have hlists := h.lists_replace hm hr p s identifier v
  obtain ⟨hy', u, -, hlists'⟩ := h.lists_delete_insert hm hr p s identifier v
  have hperm := fun t =>
    (Listing.perm_put (m.keep p s).1 t (identifier, indexedPart x.config v)).map Prod.snd
  have hsame := (hperm r).trans (hperm u).symm
  have hentries : y.store.entries.Perm y'.store.entries := by
    rw [hlists.entries_eq hy.store, hlists'.entries_eq hy'.store]
    exact hsame
  refine ⟨hentries, fun compare _ _ pattern =>
    matchingBy_eq_of_perm hy hy' hlists hlists' hsame compare pattern, ?_⟩
  rw [size_eq_length_entries hy hlists, size_eq_length_entries hy' hlists']
  exact hentries.length_eq

/-- Replacing asks the predicate what deleting would ask it. -/
theorem Valid.replace_noting_eq_delete (h : x.Valid) (hr : x.store.next? = some r)
    (p : τ → I → Bool × τ) (s : τ) (identifier : I) (v : Bytes) :
    (x.replace (noting p) (s, []) identifier v).result.2 = (x.delete (noting p) (s, [])).result.2 := by
  obtain ⟨hplace, hplaced⟩ := h.place_of_next? hr identifier v
  obtain ⟨-, -, -, -, hreplaced, -, -⟩ := h.replace_of_next? hr p s identifier v
  obtain ⟨-, -, hdeleted, -⟩ := h.delete_spec p s
  rw [replace_noting hplace, delete_noting, took_live h.store hplaced.took, hreplaced, hdeleted]

/-- The new record is there, whatever the predicate makes of its identifier. -/
theorem Valid.content?_replace (h : x.Valid) (hm : m.Lists x.store) (hr : x.store.next? = some r)
    (p : τ → I → Bool × τ) (s : τ) (identifier : I) (v : Bytes) :
    (x.replace p s identifier v).index.store.content? r =
      some (identifier, indexedPart x.config v) :=
  ((h.lists_replace hm hr p s identifier v).mem_iff r _).1 (Listing.mem_put.2 (.inl rfl))

/-- **Replacing leaves what deleting and then inserting leaves.** The same
identifiers are live with the same values, so as many are, and every pattern is
answered with the same identifiers. The predicate is asked about the same ones, in
order, and never about the new record, which is live afterwards. Replacing is
counted as one update and nothing else. Only an index whose records are all live
cannot replace; it stays as it is, and the predicate is not asked. -/
theorem replace_like_delete_insert {x₀ : Index I} {c : Config} (hc : withConfig c = .ok x₀)
    (ops : List (Operation I σ)) (p : τ → I → Bool × τ) (s : τ) (identifier : I) (v : Bytes) :
    let x := (x₀.run ops).2
    let o := x.replace p s identifier v
    let o' := (x.delete p s).index.insert identifier v
    (∀ r, o.result.1 = .ok r →
      (∃ u, o'.result = .ok u) ∧
      o.index.store.entries.Perm o'.index.store.entries ∧
      (∀ (compare : I → I → Ordering) [Std.TransCmp compare] [Std.LawfulEqCmp compare] pattern,
        o.index.matchingBy compare pattern = o'.index.matchingBy compare pattern) ∧
      o.index.size = o'.index.size ∧
      (x.replace (noting p) (s, []) identifier v).result.2 = (x.delete (noting p) (s, [])).result.2 ∧
      (x.delete (noting p) (s, [])).result.2.2.map (·.identifier) = x.store.live.map Prod.snd ∧
      x.store.state? r ≠ some .live ∧
      (o.index.store.state? r = some .live ∧ o.index.store.identifier? r = some identifier ∧
        o.index.store.value? r = some (indexedPart c v)) ∧
      o.index.counters.inserts = x.counters.inserts ∧
      o.index.counters.deletes = x.counters.deletes ∧
      o.index.counters.updates = x.counters.updates + 1) ∧
    ∀ e, o.result.1 = .error e →
      e = .capacityExceeded UInt32.size ∧ o.index = x ∧
        (x.replace (noting p) (s, []) identifier v).result.2 = (s, []) ∧
        ∀ r, x.store.state? r = some .live := by
  intro x o o'
  obtain ⟨hvalidate, rfl⟩ := fresh_of_withConfig hc
  have hfresh : (fresh c : Index I).Valid := valid_fresh hvalidate
  have hvalid : x.Valid := hfresh.run ops
  have hconfig : x.config = c := hfresh.config_run ops
  obtain ⟨-, hm⟩ := Listing.Lists.run (x := fresh c) (Listing.lists_empty c.backend) hfresh ops
  generalize Listing.afterAll _ _ _ _ = m at hm
  refine ⟨fun r hok => ?_, fun e herror => ?_⟩
  · have hr := (hvalid.replace_ok_iff p s identifier v).1 hok
    obtain ⟨y, store, hplaced, -, -, -, hcompacted⟩ := hvalid.replace_of_next? hr p s identifier v
    obtain ⟨-, u, hinserted, -⟩ := hvalid.lists_delete_insert hm hr p s identifier v
    obtain ⟨hentries, hmatching, hsize⟩ := hvalid.same_entries_replace hm hr p s identifier v
    have hnew := hvalid.content?_replace hm hr p s identifier v
    obtain ⟨-, hidentifier, hvalue⟩ := Store.content?_eq_some.1 hnew
    rw [hconfig] at hvalue
    refine ⟨⟨u, hinserted⟩, hentries, hmatching, hsize,
      hvalid.replace_noting_eq_delete hr p s identifier v, ?_, ?_, ⟨?_, hidentifier, hvalue⟩,
      hcompacted.alike.inserts_eq, hcompacted.alike.deletes_eq, hcompacted.alike.updates_eq⟩
    · rw [delete_noting, identifiers_visits]
    · rw [Ne, Store.state?_eq_live_iff, hplaced.took.fresh]
      exact Bool.false_ne_true
    · rw [Store.state?_eq_live_iff, hnew]
      rfl
  · have hr : x.store.next? = none := by
      refine Option.eq_none_iff_forall_ne_some.2 fun r hr => ?_
      rw [(hvalid.replace_ok_iff p s identifier v).2 hr] at herror
      cases herror
    obtain ⟨hresult, hindex⟩ := hvalid.replace_of_next?_eq_none hr p s identifier v
    obtain ⟨hnoting, -⟩ := hvalid.replace_of_next?_eq_none hr (noting p) (s, []) identifier v
    rw [hresult, Except.error.injEq] at herror
    refine ⟨herror.symm, hindex, by rw [hnoting], fun r => ?_⟩
    exact Store.state?_eq_live_iff.2 (hvalid.store.isSome_content?_of_full hr r)

/-- A predicate that chooses everything is asked about the two live records and
not about the new one, though it would choose that as well. The new record takes
the slot between them and stays. -/
theorem replace_all :
    let x := ((fresh { compactionThreshold := 1 } : Index Nat).run
      [.insert 5 [97], .insert 6 [98], .insert 7 [99], .delete (fun (s : Unit) i => (i == 6, s)) ()]).2
    let all : Unit → Nat → Bool × Unit := fun s _ => (true, s)
    let o := x.replace all () 6 [100]
    let o' := (x.delete all ()).index.insert 6 [100]
    o.result.1 = .ok 1 ∧ o.index.store.entries.Perm o'.index.store.entries ∧
      o.index.matchingBy compare [37] = o'.index.matchingBy compare [37] ∧
      (x.replace (noting all) ((), []) 6 [100]).result.2.2.map (·.identifier) = [5, 7] ∧
      o.index.store.state? 1 = some .live ∧ o.index.counters.updates = 1 := by
  intro x all o o'
  have hc : withConfig { compactionThreshold := 1 } =
      .ok (fresh { compactionThreshold := 1 } : Index Nat) := rfl
  have hok : o.result.1 = .ok 1 := by decide
  obtain ⟨-, hentries, hmatching, -, hnoting, hasked, -, ⟨hlive, -⟩, -, -, hupdates⟩ :=
    (replace_like_delete_insert hc [.insert 5 [97], .insert 6 [98], .insert 7 [99],
      .delete (fun (s : Unit) i => (i == 6, s)) ()] all () 6 [100]).1 1 hok
  have hbefore : x.store.live = [(0, 5), (2, 7)] := by decide
  refine ⟨hok, hentries, hmatching compare [37], ?_, hlive, ?_⟩
  · rw [hnoting, hasked, hbefore]
    rfl
  · rw [hupdates]
    decide

end Index

end WildcardIndex
