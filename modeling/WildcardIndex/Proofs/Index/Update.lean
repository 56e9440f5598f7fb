import Mathlib.Data.List.Basic
import WildcardIndex.Proofs.Index.Valid
/-!
# The index — what each operation does

Each operation is placing, marking, or both, and then perhaps a compaction. Its
result and the index it leaves are given in those terms, so that what holds of
the parts can be read off for the whole.
-/

namespace WildcardIndex

namespace Index

variable {I σ : Type} {x y : Index I} {r : Record} {identifier : I} {v : Bytes}
variable {p : σ → I → Bool × σ} {s : σ} {rs : List Record}

/-- Counters do not bear on validity. -/
theorem Valid.with_counters (h : x.Valid) (counters : Counters) :
    ({ x with counters := counters } : Index I).Valid := ⟨h.config, h.store, h.tables⟩

/-! ## Inserting -/

/-- **Inserting places a value** and counts it. -/
theorem Valid.insert_of_next? (h : x.Valid) (hr : x.store.next? = some r) (identifier : I)
    (v : Bytes) :
    ∃ y, Placed identifier v r x y ∧ (x.insert identifier v).result = .ok r ∧
      (x.insert identifier v).index =
        { y with counters := { x.counters with inserts := x.counters.inserts + 1 } } := by
  obtain ⟨hresult, hplaced⟩ := h.place_of_next? hr identifier v
  refine ⟨_, hplaced, ?_⟩
  have hcounters := hplaced.counters_eq
  unfold insert
  generalize x.place identifier v = o at *
  obtain ⟨result, ⟨config, tables, store, counters⟩, events⟩ := o
  simp only at hresult hcounters
  subst hresult hcounters
  exact ⟨rfl, rfl⟩

theorem Valid.insert_of_next?_eq_none (h : x.Valid) (hr : x.store.next? = none) (identifier : I) (v : Bytes) :
    (x.insert identifier v).result = .error (.capacityExceeded UInt32.size) ∧
      (x.insert identifier v).index = x := by
  obtain ⟨hresult, hindex⟩ := h.place_of_next?_eq_none hr identifier v
  unfold insert
  generalize x.place identifier v = o at *
  obtain ⟨result, index, events⟩ := o
  simp only at hresult hindex
  subst hresult hindex
  exact ⟨rfl, rfl⟩

/-! ## Deleting -/

/-- **Deleting marks what the predicate chooses** among the live records, counts
it, and may compact. -/
theorem Valid.delete_spec (h : x.Valid) (p : σ → I → Bool × σ) (s : σ) :
    ∃ store, Store.Marked x.config.backend (choose p s x.store.live).1 x.store store ∧
      (x.delete p s).result =
        ((choose p s x.store.live).1.length, (choose p s x.store.live).2) ∧
      (x.delete p s).index = (x.marked store { x.counters with
        deletes := x.counters.deletes + (choose p s x.store.live).1.length }).compactAfterwards.index ∧
      Compacted (x.marked store { x.counters with
        deletes := x.counters.deletes + (choose p s x.store.live).1.length })
        (x.delete p s).index := by
  obtain ⟨store, hmarks, hmarked⟩ := markChosen_spec h.store p s (List.Sublist.refl _)
  have hcompacted := (h.marked hmarked { x.counters with
    deletes := x.counters.deletes + (choose p s x.store.live).1.length }).compactAfterwards_spec
  obtain ⟨config, tables, store₀, counters⟩ := x
  have hindex : ((⟨config, tables, store₀, counters⟩ : Index I).delete p s).index =
      ((⟨config, tables, store₀, counters⟩ : Index I).marked store { counters with
        deletes := counters.deletes + (choose p s store₀.live).1.length }).compactAfterwards.index := by
    simp only [delete, hmarks]
    rfl
  refine ⟨store, hmarked, ?_, hindex, hindex ▸ hcompacted⟩
  simp only [delete, hmarks]

/-! ## Replacing -/

/-- The live records after taking a value in are the ones before, and the new
one. -/
theorem took_live {b : Backend} {store store' : Store I} (h : store.Valid b)
    (htook : Store.Took b identifier v r store store') :
    store'.live.filter (·.1 != r) = store.live := by
  refine RecordSet.eq_of_pairwise_lt Prod.fst
    (htook.valid.pairwise_live.sublist List.filter_sublist) h.pairwise_live ?_
  rintro ⟨u, i⟩
  rw [List.mem_filter, htook.valid.mem_live, h.mem_live, htook.content?_eq, bne_iff_ne]
  by_cases hu : u = r
  · subst hu
    simp [htook.fresh]
  · simp [Contents.set_of_ne hu, hu]

/-- **Replacing places a value and marks what the predicate chooses** among the
records that were live before, then counts the replacement and may compact. -/
theorem Valid.replace_of_next? (h : x.Valid) (hr : x.store.next? = some r)
    (p : σ → I → Bool × σ) (s : σ) (identifier : I) (v : Bytes) :
    ∃ y store, Placed identifier v r x y ∧
      Store.Marked x.config.backend (choose p s x.store.live).1 y.store store ∧
      (x.replace p s identifier v).result = (.ok r, (choose p s x.store.live).2) ∧
      (x.replace p s identifier v).index = (y.marked store { x.counters with
        updates := x.counters.updates + 1 }).compactAfterwards.index ∧
      Compacted (y.marked store { x.counters with updates := x.counters.updates + 1 })
        (x.replace p s identifier v).index := by
  obtain ⟨hresult, hplaced⟩ := h.place_of_next? hr identifier v
  have hlive := took_live h.store hplaced.took
  obtain ⟨store, hmarks, hmarked⟩ := markChosen_spec hplaced.valid.store p s
    (List.filter_sublist (p := (·.1 != r)))
  -- leaving the new record out, the predicate is asked about those from before
  rw [hlive] at hmarks hmarked
  have hcompacted := (hplaced.valid.marked hmarked { x.counters with
    updates := x.counters.updates + 1 }).compactAfterwards_spec
  rw [hplaced.config_eq] at hmarked
  refine ⟨_, store, hplaced, hmarked, ?_⟩
  have hcounters := hplaced.counters_eq
  unfold replace
  generalize x.place identifier v = o at *
  obtain ⟨result, ⟨config, tables, store', counters⟩, events⟩ := o
  simp only at hresult hcounters hlive
  subst hresult hcounters
  simp only [hlive, hmarks]
  exact ⟨trivial, rfl, hcompacted⟩

theorem Valid.replace_of_next?_eq_none (h : x.Valid) (hr : x.store.next? = none) (p : σ → I → Bool × σ) (s : σ)
    (identifier : I) (v : Bytes) :
    (x.replace p s identifier v).result = (.error (.capacityExceeded UInt32.size), s) ∧
      (x.replace p s identifier v).index = x := by
  obtain ⟨hresult, hindex⟩ := h.place_of_next?_eq_none hr identifier v
  unfold replace
  generalize x.place identifier v = o at *
  obtain ⟨result, index, events⟩ := o
  simp only at hresult hindex
  subst hresult hindex
  exact ⟨rfl, rfl⟩

/-- A replacement gives the record that is next, whatever the predicate chooses. -/
theorem Valid.replace_ok_iff (h : x.Valid) (p : σ → I → Bool × σ) (s : σ) (identifier : I)
    (v : Bytes) : (x.replace p s identifier v).result.1 = .ok r ↔ x.store.next? = some r := by
  cases hr : x.store.next? with
  | none =>
    obtain ⟨hresult, -⟩ := h.replace_of_next?_eq_none hr p s identifier v
    rw [hresult]
    exact iff_of_false nofun nofun
  | some u =>
    obtain ⟨-, -, -, -, hresult, -, -⟩ := h.replace_of_next? hr p s identifier v
    rw [hresult, Except.ok.injEq, Option.some.injEq]

/-! ## Clearing -/

theorem Valid.clear (h : x.Valid) : x.clear.index.Valid where
  config := h.config
  store := h.store.clear
  tables := by
    have hnone : x.clear.index.store.value? = Contents.none := by
      funext r
      simp [Index.clear, Store.clear, Store.empty, Store.value?, Contents.none]
    rw [hnone]
    exact h.tables.clear

end Index

end WildcardIndex
