import Mathlib.Data.List.Basic
import WildcardIndex.Index.Update
import WildcardIndex.Proofs.Store.Live
import WildcardIndex.Proofs.Tables
/-!
# The index — tables and store in step

An index is **valid** if its tables represent exactly the values its slots hold,
the tombstoned ones included. Placing a value refiles one record, marking
touches no table, and a compaction takes the same records out of both sides; so
each leaves a valid index. What a compaction changes does not show: the index
after it is **alike** to the one before.
-/

namespace WildcardIndex

/-- Two configurations that differ at most in when to compact. -/
def Config.Alike (c d : Config) : Prop :=
  { c with compactionThreshold := d.compactionThreshold, autoCompact := d.autoCompact } = d

namespace Config

variable {c d : Config}

theorem Alike.refl (c : Config) : c.Alike c := rfl

theorem Alike.backend_eq (h : c.Alike d) : c.backend = d.backend := by
  unfold Config.Alike at h
  rw [← h]

theorem Alike.maxIndexedLength_eq (h : c.Alike d) : c.maxIndexedLength = d.maxIndexedLength := by
  unfold Config.Alike at h
  rw [← h]

theorem Alike.indexedPart_eq (h : c.Alike d) (v : Bytes) :
    Index.indexedPart c v = Index.indexedPart d v := by
  rw [Index.indexedPart, Index.indexedPart, h.maxIndexedLength_eq]

/-- An acceptable configuration cuts values to well below the positions. -/
theorem maxIndexedLength_le (h : c.validate = .ok ()) : c.maxIndexedLength ≤ maxIndexedLengthLimit := by
  unfold validate at h
  split at h
  · cases h
  · rename_i hrange
    exact (not_not.1 hrange).2

end Config

namespace Index

variable {I σ : Type} {x y z : Index I} {r : Record} {identifier : I} {v : Bytes}

/-- The configuration is acceptable, the store is valid, and the tables hold
what the slots hold. -/
structure Valid (x : Index I) : Prop where
  /-- An index can be made with the configuration. -/
  config : x.config.validate = .ok ()
  /-- The store is valid. -/
  store : x.store.Valid x.config.backend
  /-- Each record is filed under the value of its slot. -/
  tables : x.tables.Represents x.config.backend x.store.value?

/-- A value is cut to the maximum indexed length. -/
theorem length_indexedPart_le (c : Config) (v : Bytes) :
    (indexedPart c v).length ≤ c.maxIndexedLength := by
  rw [indexedPart, List.length_take]
  exact Nat.min_le_left _ _

/-- What a value is cut to fits the positions. -/
theorem length_indexedPart_lt {c : Config} (h : c.validate = .ok ()) (v : Bytes) :
    (indexedPart c v).length < Tables.positionLimit := by
  have hmax := Config.maxIndexedLength_le h
  have hpart := length_indexedPart_le c v
  simp only [Config.maxIndexedLengthLimit, Tables.positionLimit] at *
  omega

theorem valid_fresh {c : Config} (h : c.validate = .ok ()) : (fresh c : Index I).Valid where
  config := h
  store := Store.valid_empty c.backend
  tables := by
    have hnone : (fresh c : Index I).store.value? = Contents.none := by
      funext r
      simp [fresh, Store.empty, Store.value?, Contents.none]
    rw [hnone]
    exact Tables.represents_empty c.backend

/-! ## Alike indexes -/

/-- Two indexes show the same: the stores and the counters do but for the
compactions, and the tables have the same places and slots. -/
structure Alike (x y : Index I) : Prop where
  /-- The configurations differ at most in when to compact. -/
  config : x.config.Alike y.config
  /-- The stores show the same. -/
  store : x.store.Alike y.store
  /-- The same lengths have a slot. -/
  slots_eq : x.tables.length.slots = y.tables.length.slots
  /-- The same places have a set. -/
  isSome_at? : ∀ k, (x.tables.positional.at? k).isSome = (y.tables.positional.at? k).isSome
  /-- As many values were inserted. -/
  inserts_eq : x.counters.inserts = y.counters.inserts
  /-- As many replacements were made. -/
  updates_eq : x.counters.updates = y.counters.updates
  /-- As many records were deleted. -/
  deletes_eq : x.counters.deletes = y.counters.deletes

theorem Alike.trans (h : x.Alike y) (h' : y.Alike z) : x.Alike z where
  config := by
    have hx := h.config
    have hy := h'.config
    unfold Config.Alike at *
    rw [← hy, ← hx]
  store := h.store.trans h'.store
  slots_eq := h.slots_eq.trans h'.slots_eq
  isSome_at? k := (h.isSome_at? k).trans (h'.isSome_at? k)
  inserts_eq := h.inserts_eq.trans h'.inserts_eq
  updates_eq := h.updates_eq.trans h'.updates_eq
  deletes_eq := h.deletes_eq.trans h'.deletes_eq

theorem Alike.symm (h : x.Alike y) : y.Alike x where
  config := by
    have hx := h.config
    unfold Config.Alike at *
    rw [← hx]
  store := h.store.symm
  slots_eq := h.slots_eq.symm
  isSome_at? k := (h.isSome_at? k).symm
  inserts_eq := h.inserts_eq.symm
  updates_eq := h.updates_eq.symm
  deletes_eq := h.deletes_eq.symm

theorem Alike.refl (x : Index I) : x.Alike x where
  config := .refl x.config
  store := .refl x.store
  slots_eq := rfl
  isSome_at? _ := rfl
  inserts_eq := rfl
  updates_eq := rfl
  deletes_eq := rfl

/-! ## Compacting -/

/-- An index after a compaction, called for or not. -/
structure Compacted (x y : Index I) : Prop where
  /-- The index stays valid. -/
  valid : y.Valid
  /-- The configuration stays. -/
  config_eq : y.config = x.config
  /-- Nothing shows. -/
  alike : y.Alike x

theorem Valid.compacted_refl (h : x.Valid) : Compacted x x := ⟨h, rfl, .refl x⟩

/-- **A compaction takes the same records out of the tables and the slots**, and
leaves no tombstone. -/
theorem Valid.compact_spec (h : x.Valid) :
    Compacted x x.compact.index ∧ ∀ r, r ∉ x.compact.index.store.tombstones := by
  obtain ⟨config, tables, store, counters⟩ := x
  unfold compact
  simp only
  split
  · rename_i hcount
    exact ⟨h.compacted_refl, fun r => h.store.not_mem_of_count hcount⟩
  · obtain ⟨store', hdrain, -, hdrained⟩ := h.store.drain_spec
    simp only at hdrain
    rw [hdrain]
    have htables : (tables.subtract store.tombstones).Represents config.backend store'.value? := by
      rw [hdrained.value?_eq]
      exact h.tables.subtract h.store.tombstones.backend_eq
    refine ⟨⟨⟨h.config, hdrained.valid, htables⟩, rfl, ?_⟩, hdrained.not_mem_tombstones⟩
    refine ⟨.refl config, hdrained.alike, LengthIndex.slots_subtract .., fun k => ?_, rfl, rfl, rfl⟩
    simp only [Tables.subtract]
    rw [PositionalIndex.at?_subtract h.tables.positional.toValid, Option.isSome_map]

theorem Valid.compactAfterwards_spec (h : x.Valid) : Compacted x x.compactAfterwards.index := by
  unfold compactAfterwards compactIfNeeded
  split
  · split
    · exact h.compact_spec.1
    · exact h.compacted_refl
  · exact h.compacted_refl

/-! ## Placing a value -/

/-- An index in which a value was put under a record. -/
structure Placed (identifier : I) (v : Bytes) (r : Record) (x y : Index I) : Prop where
  /-- The index stays valid. -/
  valid : y.Valid
  /-- The configuration stays. -/
  config_eq : y.config = x.config
  /-- The counters stay. -/
  counters_eq : y.counters = x.counters
  /-- The store took the value in, as far as it is indexed. -/
  took : Store.Took x.config.backend identifier (indexedPart x.config v) r x.store y.store
  /-- The length of the value has a slot. -/
  slots_eq : y.tables.length.slots =
    max x.tables.length.slots ((indexedPart x.config v).length + 1)
  /-- The places of the value have a set. -/
  isSome_at? : ∀ k, (y.tables.positional.at? k).isSome ↔
    k ∈ PositionalIndex.places (indexedPart x.config v) ∨ (x.tables.positional.at? k).isSome

/-- **Placing a value refiles the next record.** -/
theorem Valid.place_of_next? (h : x.Valid) (hr : x.store.next? = some r) (identifier : I)
    (v : Bytes) :
    (x.place identifier v).result = .ok r ∧
      Placed identifier v r x (x.place identifier v).index := by
  obtain ⟨config, tables, store, counters⟩ := x
  have hlength := length_indexedPart_lt h.config v
  obtain ⟨store', hacquire, htook⟩ :=
    h.store.acquire_of_next? hr identifier (indexedPart config v)
  simp only at hacquire hlength
  have htables := h.tables.refile (r := r) hlength
  obtain ⟨hslots, hplaces⟩ := h.tables.slots_refile (r := r) (v := indexedPart config v)
    (store.value? r)
  simp only [place, hacquire]
  refine ⟨trivial, ⟨h.config, htook.valid, ?_⟩, rfl, rfl, htook, hslots, hplaces⟩
  rw [htook.value?_eq]
  exact htables

/-- **A value that gets no record changes nothing.** -/
theorem Valid.place_of_next?_eq_none (h : x.Valid) (hr : x.store.next? = none) (identifier : I) (v : Bytes) :
    (x.place identifier v).result = .error (.capacityExceeded UInt32.size) ∧
      (x.place identifier v).index = x := by
  obtain ⟨config, tables, store, counters⟩ := x
  have hacquire := h.store.acquire_of_next?_eq_none hr identifier (indexedPart config v)
  simp only at hacquire
  simp only [place, hacquire]
  exact ⟨trivial, trivial⟩

/-! ## Marking records -/

/-- The records a predicate chooses are among those it was asked about, in the
same order. -/
theorem choose_sublist (p : σ → I → Bool × σ) (s : σ) (among : List (Record × I)) :
    (choose p s among).1.Sublist (among.map Prod.fst) := by
  induction among generalizing s with
  | nil => exact List.Sublist.slnil
  | cons x among ih =>
    obtain ⟨r, i⟩ := x
    simp only [choose, List.map_cons]
    split
    · exact (ih _).cons_cons r
    · exact (ih _).cons r

/-- **Marking the chosen ones of some live records** counts the chosen ones. -/
theorem markChosen_spec {b : Backend} {store : Store I} (h : store.Valid b)
    (p : σ → I → Bool × σ) (s : σ) {among : List (Record × I)}
    (hsub : among.Sublist store.live) :
    ∃ store', markChosen store p s among =
        ((choose p s among).1.length, (choose p s among).2, store') ∧
      Store.Marked b (choose p s among).1 store store' := by
  have hchosen := (choose_sublist p s among).trans (hsub.map Prod.fst)
  have hlive : ∀ r ∈ (choose p s among).1, (store.content? r).isSome := by
    intro r hr
    obtain ⟨⟨r, i⟩, hmem, rfl⟩ := List.mem_map.1 (hchosen.subset hr)
    obtain ⟨v, hcontent⟩ := h.mem_live.1 hmem
    rw [hcontent]
    rfl
  obtain ⟨store', hmarks, hmarked⟩ := h.tombstoneAll_of_live (hchosen.nodup h.nodup_live) hlive
  refine ⟨store', ?_, hmarked⟩
  simp only [markChosen, hmarks]

/-- An index in which some records were marked, with new counters. -/
def marked (x : Index I) (store : Store I) (counters : Counters) : Index I :=
  ⟨x.config, x.tables, store, counters⟩

/-- Marking touches no table, and the slots keep their values. -/
theorem Valid.marked (h : x.Valid) {rs : List Record} {store : Store I}
    (hmarked : Store.Marked x.config.backend rs x.store store) (counters : Counters) :
    (x.marked store counters).Valid where
  config := h.config
  store := hmarked.valid
  tables := by
    rw [Index.marked, hmarked.value?_eq]
    exact h.tables

end Index

end WildcardIndex
