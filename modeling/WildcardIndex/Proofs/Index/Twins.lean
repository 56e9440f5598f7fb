import Mathlib.Data.List.Basic
import WildcardIndex.Proofs.Index.Alike
import WildcardIndex.Proofs.Index.Replay
/-!
# The index — twins

Two indexes are **twins** if nothing but the representation of their sets, and
the setting that chooses it, tells them apart: the slots hold the same values,
the same records are tombstoned, the same places and lengths have a set, and the
counters agree. Alike indexes may differ in what was purged; twins may not, so
the statistics of twins agree and every operation, a compaction too, does the
same to both.
-/

namespace WildcardIndex

/-- Two configurations that differ at most in the backend. -/
def Config.Twin (c d : Config) : Prop := { c with backend := d.backend } = d

namespace Config

variable {c d : Config}

theorem Twin.maxIndexedLength_eq (h : c.Twin d) : c.maxIndexedLength = d.maxIndexedLength := by
  unfold Config.Twin at h
  rw [← h]

theorem Twin.compactionThreshold_eq (h : c.Twin d) :
    c.compactionThreshold = d.compactionThreshold := by
  unfold Config.Twin at h
  rw [← h]

theorem Twin.autoCompact_eq (h : c.Twin d) : c.autoCompact = d.autoCompact := by
  unfold Config.Twin at h
  rw [← h]

theorem Twin.symm (h : c.Twin d) : d.Twin c := by
  unfold Config.Twin at *
  rw [← h]

theorem Twin.indexedPart_eq (h : c.Twin d) (v : Bytes) :
    Index.indexedPart c v = Index.indexedPart d v := by
  rw [Index.indexedPart, Index.indexedPart, h.maxIndexedLength_eq]

end Config

/-! ## Stores -/

namespace Store

variable {I : Type} {b c : Backend} {s s' t t' : Store I} {r : Record} {i : I} {v : Bytes}

/-- Two stores with the same slots, tombstones and waiting slots. -/
structure Twin (s t : Store I) : Prop extends s.Alike t where
  /-- The slots hold the same values. -/
  value?_eq : s.value? = t.value?
  /-- The same records are tombstoned. -/
  mem_tombstones : ∀ r, r ∈ s.tombstones ↔ r ∈ t.tombstones

theorem twin_empty (b c : Backend) : (empty b : Store I).Twin (empty c) where
  content?_eq := by
    funext r
    rw [content?_of_not_mem RecordSet.not_mem_empty, content?_of_not_mem RecordSet.not_mem_empty]
    rfl
  free_eq := rfl
  totalSlots_eq := rfl
  value?_eq := rfl
  mem_tombstones _ := iff_of_false RecordSet.not_mem_empty RecordSet.not_mem_empty

/-- Twins count the same tombstones. -/
theorem Twin.tombstoneCount_eq (h : s.Twin t) (hs : s.Valid b) (ht : t.Valid c) :
    s.tombstoneCount = t.tombstoneCount := by
  rw [hs.count, ht.count,
    RecordSet.toList_eq_of_mem_iff hs.tombstones ht.tombstones h.mem_tombstones]

theorem Twin.took (h : s.Twin t) (hs : Took b i v r s s') (ht : Took c i v r t t') :
    s'.Twin t' where
  toAlike := h.toAlike.took hs ht
  value?_eq := by rw [hs.value?_eq, ht.value?_eq, h.value?_eq]
  mem_tombstones u := by rw [hs.mem_tombstones, ht.mem_tombstones, h.mem_tombstones]

theorem Twin.marked (h : s.Twin t) {rs : List Record} (hs : Marked b rs s s')
    (ht : Marked c rs t t') : s'.Twin t' where
  toAlike := h.toAlike.marked hs ht
  value?_eq := by rw [hs.value?_eq, ht.value?_eq, h.value?_eq]
  mem_tombstones u := by rw [hs.mem_tombstones, ht.mem_tombstones, h.mem_tombstones]

theorem Twin.drained (h : s.Twin t) (hs : Drained b s s') (ht : Drained c t t') : s'.Twin t' where
  toAlike := (hs.alike.trans h.toAlike).trans ht.alike.symm
  value?_eq := by
    -- the same records are purged, so the same slots lose their value
    funext u
    rw [hs.value?_eq, ht.value?_eq, Contents.without, Contents.without, h.value?_eq]
    simp only [h.mem_tombstones]
  mem_tombstones u := iff_of_false (hs.not_mem_tombstones u) (ht.not_mem_tombstones u)

end Store

namespace Index

variable {I σ : Type} {x y x' y' : Index I} {c d : Config} {r : Record} {i : I} {v : Bytes}

/-- Two indexes that differ at most in the representation of their sets. -/
structure Twin (x y : Index I) : Prop where
  /-- The configurations differ at most in the backend. -/
  config : x.config.Twin y.config
  /-- The slots, the tombstones and the waiting slots are the same. -/
  store : x.store.Twin y.store
  /-- The same lengths have a slot. -/
  slots_eq : x.tables.length.slots = y.tables.length.slots
  /-- The same places have a set. -/
  isSome_at? : ∀ k, (x.tables.positional.at? k).isSome = (y.tables.positional.at? k).isSome
  /-- They were changed equally often. -/
  counters_eq : x.counters = y.counters

theorem Twin.with_counters (h : x.Twin y) (counters : Counters) :
    ({ x with counters := counters } : Index I).Twin { y with counters := counters } :=
  ⟨h.config, h.store, h.slots_eq, h.isSome_at?, rfl⟩

theorem twin_fresh (h : c.Twin d) : (fresh c : Index I).Twin (fresh d) where
  config := h
  store := Store.twin_empty c.backend d.backend
  slots_eq := rfl
  isSome_at? k := by simp only [fresh, Tables.empty, PositionalIndex.at?_empty]
  counters_eq := rfl

/-! ## Statistics -/

/-- The statistics, but for the backend and what its sets weigh. -/
def portableStats [SlotSized I] (x : Index I) : Stats :=
  { x.stats with memoryBytes := 0, backend := .roaring }

theorem Twin.portableStats [SlotSized I] (h : x.Twin y) (hx : x.Valid) (hy : y.Valid) :
    x.portableStats = y.portableStats := by
  have hsize := size_congr h.store.toAlike
  unfold size at hsize
  have hfree : x.store.freeSlots = y.store.freeSlots := by
    rw [Store.freeSlots, Store.freeSlots, h.store.free_eq]
  have hmax : x.tables.length.maxLength = y.tables.length.maxLength := by
    rw [LengthIndex.maxLength, LengthIndex.maxLength, h.slots_eq]
  have hcount := PositionalIndex.entryCount_eq hx.tables.positional.toValid
    hy.tables.positional.toValid h.isSome_at?
  simp only [Index.portableStats, stats, hsize, h.store.totalSlots_eq, hfree, hmax,
    h.counters_eq, hcount, h.slots_eq, h.store.tombstoneCount_eq hx.store hy.store]

/-! ## Inserting, marking, compacting -/

theorem Twin.placed (h : x.Twin y) (hx : Placed i v r x x') (hy : Placed i v r y y') :
    x'.Twin y' where
  config := by
    rw [hx.config_eq, hy.config_eq]
    exact h.config
  store := by
    have htook := hy.took
    rw [← h.config.indexedPart_eq] at htook
    exact h.store.took hx.took htook
  slots_eq := by rw [hx.slots_eq, hy.slots_eq, h.slots_eq, h.config.indexedPart_eq]
  isSome_at? k := by
    rw [Bool.eq_iff_iff, hx.isSome_at?, hy.isSome_at?, h.isSome_at?, h.config.indexedPart_eq]
  counters_eq := by rw [hx.counters_eq, hy.counters_eq, h.counters_eq]

theorem Twin.marked (h : x.Twin y) {b b' : Backend} {rs : List Record} {s t : Store I}
    (hs : Store.Marked b rs x.store s) (ht : Store.Marked b' rs y.store t) (counters : Counters) :
    (x.marked s counters).Twin (y.marked t counters) :=
  ⟨h.config, h.store.marked hs ht, h.slots_eq, h.isSome_at?, rfl⟩

theorem Twin.needsCompaction_eq (h : x.Twin y) (hx : x.Valid) (hy : y.Valid) :
    x.needsCompaction = y.needsCompaction := by
  rw [needsCompaction, needsCompaction, h.config.compactionThreshold_eq,
    h.store.tombstoneCount_eq hx.store hy.store]

/-- A compaction purges the tombstones if there are any. -/
theorem Valid.compact_cases (h : x.Valid) :
    (x.store.tombstoneCount = 0 ∧ x.compact.result = 0 ∧ x.compact.index = x) ∨
      x.store.tombstoneCount ≠ 0 ∧ ∃ store, Store.Drained x.config.backend x.store store ∧
        x.compact.result = x.store.tombstoneCount ∧
        x.compact.index = ⟨x.config, x.tables.subtract x.store.tombstones, store,
          { x.counters with compactions := x.counters.compactions + 1 }⟩ := by
  obtain ⟨config, tables, store, counters⟩ := x
  unfold compact
  simp only
  by_cases hcount : store.tombstoneCount = 0
  · rw [if_pos hcount]
    exact .inl ⟨hcount, rfl, rfl⟩
  · obtain ⟨store', hdrain, -, hdrained⟩ := h.store.drain_spec
    simp only at hdrain
    rw [if_neg hcount, hdrain]
    exact .inr ⟨hcount, store', hdrained, rfl, rfl⟩

/-- **A compaction purges twins of the same records.** -/
theorem Twin.compact (h : x.Twin y) (hx : x.Valid) (hy : y.Valid) :
    x.compact.result = y.compact.result ∧ x.compact.index.Twin y.compact.index := by
  have hcount := h.store.tombstoneCount_eq hx.store hy.store
  obtain ⟨hzero, hresult, hindex⟩ | ⟨hpos, store, hdrained, hresult, hindex⟩ := hx.compact_cases
  · obtain ⟨-, hresult', hindex'⟩ | ⟨hpos', -⟩ := hy.compact_cases
    · rw [hresult, hresult', hindex, hindex']
      exact ⟨rfl, h⟩
    · exact absurd (hcount ▸ hzero) hpos'
  · obtain ⟨hzero', -⟩ | ⟨-, store', hdrained', hresult', hindex'⟩ := hy.compact_cases
    · exact absurd (hcount.trans hzero') hpos
    · rw [hresult, hresult', hindex, hindex']
      refine ⟨hcount, h.config, h.store.drained hdrained hdrained', ?_, fun k => ?_, ?_⟩
      · rw [Tables.subtract, Tables.subtract, LengthIndex.slots_subtract,
          LengthIndex.slots_subtract, h.slots_eq]
      · rw [Tables.subtract, Tables.subtract,
          PositionalIndex.at?_subtract hx.tables.positional.toValid,
          PositionalIndex.at?_subtract hy.tables.positional.toValid, Option.isSome_map,
          Option.isSome_map, h.isSome_at?]
      · simp only [h.counters_eq]

theorem Twin.compactIfNeeded (h : x.Twin y) (hx : x.Valid) (hy : y.Valid) :
    x.compactIfNeeded.result = y.compactIfNeeded.result ∧
      x.compactIfNeeded.index.Twin y.compactIfNeeded.index := by
  rw [Index.compactIfNeeded, Index.compactIfNeeded, ← h.needsCompaction_eq hx hy]
  split
  · exact h.compact hx hy
  · exact ⟨rfl, h⟩

theorem Twin.compactAfterwards (h : x.Twin y) (hx : x.Valid) (hy : y.Valid) :
    x.compactAfterwards.index.Twin y.compactAfterwards.index := by
  rw [Index.compactAfterwards, Index.compactAfterwards, ← h.config.autoCompact_eq]
  split
  · exact (h.compactIfNeeded hx hy).2
  · exact h

theorem Twin.insert (h : x.Twin y) (hx : x.Valid) (hy : y.Valid) (i : I) (v : Bytes) :
    (x.insert i v).result = (y.insert i v).result ∧
      (x.insert i v).index.Twin (y.insert i v).index := by
  have hnext := h.store.toAlike.next?_eq
  cases hr : x.store.next? with
  | none =>
    obtain ⟨hresult, hindex⟩ := hx.insert_of_next?_eq_none hr i v
    obtain ⟨hresult', hindex'⟩ := hy.insert_of_next?_eq_none (hnext ▸ hr) i v
    rw [hresult, hresult', hindex, hindex']
    exact ⟨rfl, h⟩
  | some r =>
    obtain ⟨x', hplaced, hresult, hindex⟩ := hx.insert_of_next? hr i v
    obtain ⟨y', hplaced', hresult', hindex'⟩ := hy.insert_of_next? (hnext ▸ hr) i v
    rw [hresult, hresult', hindex, hindex', h.counters_eq]
    exact ⟨rfl, (h.placed hplaced hplaced').with_counters _⟩

theorem Twin.delete (h : x.Twin y) (hx : x.Valid) (hy : y.Valid) (p : σ → I → Bool × σ) (s : σ) :
    (x.delete p s).result = (y.delete p s).result ∧
      (x.delete p s).index.Twin (y.delete p s).index := by
  obtain ⟨store, hmarked, hresult, hindex, -⟩ := hx.delete_spec p s
  obtain ⟨store', hmarked', hresult', hindex', -⟩ := hy.delete_spec p s
  -- the same records are live, so the predicate is asked the same
  rw [← h.store.toAlike.live_eq hx.store hy.store, ← h.counters_eq] at hindex'
  rw [← h.store.toAlike.live_eq hx.store hy.store] at hmarked' hresult'
  rw [hresult, hresult', hindex, hindex']
  exact ⟨rfl, (h.marked hmarked hmarked' _).compactAfterwards (hx.marked hmarked _)
    (hy.marked hmarked' _)⟩

theorem Twin.replace (h : x.Twin y) (hx : x.Valid) (hy : y.Valid) (p : σ → I → Bool × σ) (s : σ)
    (i : I) (v : Bytes) :
    (x.replace p s i v).result = (y.replace p s i v).result ∧
      (x.replace p s i v).index.Twin (y.replace p s i v).index := by
  have hnext := h.store.toAlike.next?_eq
  cases hr : x.store.next? with
  | none =>
    obtain ⟨hresult, hindex⟩ := hx.replace_of_next?_eq_none hr p s i v
    obtain ⟨hresult', hindex'⟩ := hy.replace_of_next?_eq_none (hnext ▸ hr) p s i v
    rw [hresult, hresult', hindex, hindex']
    exact ⟨rfl, h⟩
  | some r =>
    obtain ⟨x', store, hplaced, hmarked, hresult, hindex, -⟩ := hx.replace_of_next? hr p s i v
    obtain ⟨y', store', hplaced', hmarked', hresult', hindex', -⟩ :=
      hy.replace_of_next? (hnext ▸ hr) p s i v
    rw [← h.store.toAlike.live_eq hx.store hy.store] at hmarked' hresult'
    rw [← h.counters_eq] at hindex'
    rw [← hplaced.config_eq] at hmarked
    rw [← hplaced'.config_eq] at hmarked'
    rw [hresult, hresult', hindex, hindex']
    exact ⟨rfl, ((h.placed hplaced hplaced').marked hmarked hmarked' _).compactAfterwards
      (hplaced.valid.marked hmarked _) (hplaced'.valid.marked hmarked' _)⟩

theorem Twin.clear (h : x.Twin y) (hx : x.Valid) (hy : y.Valid) :
    x.clear.index.Twin y.clear.index := by
  rw [hx.clear_eq, hy.clear_eq]
  exact twin_fresh h.config

/-! ## Rebuilding -/

/-- A first scan can only fail for want of a record number. -/
theorem scanFirst_error {done rest : List (I × Bytes)} {scan : FirstScan I} {e : Error}
    (hc : c.validate = .ok ()) (h : Scanned c done scan)
    (hscan : scanFirst c scan rest = .error e) : e = .capacityExceeded UInt32.size := by
  induction rest generalizing done scan with
  | nil => cases hscan
  | cons x rest ih =>
    obtain ⟨i, v⟩ := x
    cases hnext : scan.store.next? with
    | none =>
      have hacquire := h.store.acquire_of_next?_eq_none hnext i (indexedPart c v)
      simp only [scanFirst, hacquire, Except.error.injEq] at hscan
      exact hscan.symm
    | some r =>
      obtain ⟨store', hacquire, htook⟩ := h.store.acquire_of_next? hnext i (indexedPart c v)
      simp only [scanFirst, hacquire] at hscan
      exact ih (h.concat hc hnext htook _) hscan

/-- How far a second scan gets depends on the values of the slots alone. -/
theorem scanSecond_congr_value (hconfig : c.Twin d) {store store' : Store I}
    (hvalue : store.value? = store'.value?) (length length' : LengthIndex) (seen : Nat)
    (records : List (I × Bytes)) :
    (scanSecond c store length seen records).map Prod.snd =
      (scanSecond d store' length' seen records).map Prod.snd := by
  induction records generalizing length length' seen with
  | nil => rfl
  | cons e records ih =>
    obtain ⟨i, v⟩ := e
    simp only [scanSecond, hvalue, hconfig.indexedPart_eq]
    split
    · exact ih _ _ _
    · rfl

/-- The slots of a first scan do not depend on the backend. -/
theorem scanFirst_twin {records : List (I × Bytes)} {scan : FirstScan I} (hconfig : c.Twin d)
    (hc : c.validate = .ok ()) (hd : d.validate = .ok ())
    (hscan : scanFirst c (scanNothing c) records = .ok scan) :
    ∃ scan', scanFirst d (scanNothing d) records = .ok scan' ∧
      scan.store.value? = scan'.store.value? ∧ scan.store.totalSlots = scan'.store.totalSlots := by
  have hscanned := scanFirst_scanned hc hscan
  have hroom : records.length ≤ UInt32.size := hscanned.totalSlots_eq ▸ hscanned.store.size_le
  obtain ⟨scan', hscan'⟩ := exists_scanFirst_scanNothing (I := I) hd hroom
  have hscanned' := scanFirst_scanned hd hscan'
  refine ⟨scan', hscan', funext fun r => ?_, ?_⟩
  · rw [hscanned.value?_eq, hscanned'.value?_eq]
    simp only [scanned?, hconfig.indexedPart_eq]
  · rw [hscanned.totalSlots_eq, hscanned'.totalSlots_eq]

/-- **Whether and how a rebuild fails does not depend on the backend.** -/
theorem build_result_twin (hconfig : c.Twin d) (hc : c.validate = .ok ())
    (hd : d.validate = .ok ()) (source : Source I) :
    ((build c source).1.map fun _ => ()) = (build d source).1.map fun _ => () := by
  unfold build
  rw [← scanNothing, ← scanNothing]
  cases hscan : scanFirst c (scanNothing c) source.first with
  | error e =>
    -- a first scan fails for too many records, which it does in either backend
    cases hscan' : scanFirst d (scanNothing d) source.first with
    | error e' =>
      rw [scanFirst_error hc (scanned_nil c) hscan, scanFirst_error hd (scanned_nil d) hscan']
    | ok scan' =>
      obtain ⟨scan, hok, -⟩ := scanFirst_twin hconfig.symm hd hc hscan'
      rw [hscan] at hok
      cases hok
  | ok scan =>
    obtain ⟨scan', hscan', hvalue, htotal⟩ := scanFirst_twin hconfig hc hd hscan
    have hsecond := scanSecond_congr_value hconfig hvalue (lengthSlots c scan) (lengthSlots d scan')
      0 source.second
    rw [hscan']
    simp only [← htotal]
    generalize scanSecond c scan.store (lengthSlots c scan) 0 source.second = o at hsecond ⊢
    generalize scanSecond d scan'.store (lengthSlots d scan') 0 source.second = o' at hsecond ⊢
    cases o with
    | error e =>
      cases o' with
      | error e' =>
        rw [Except.map, Except.map, Except.error.injEq] at hsecond
        rw [hsecond]
      | ok found => cases hsecond
    | ok found =>
      cases o' with
      | error e' => cases hsecond
      | ok found' =>
        -- both scans saw as many records
        rw [Except.map, Except.map, Except.ok.injEq] at hsecond
        obtain ⟨length, seen⟩ := found
        obtain ⟨length', seen'⟩ := found'
        simp only at hsecond
        subst hsecond
        simp only
        split <;> rfl

theorem rebuild_result (x : Index I) (source : Source I) :
    (x.rebuild source).result = (build x.config source).1.map fun _ => () := by
  unfold rebuild
  generalize build x.config source = o
  obtain ⟨_ | _, _⟩ := o <;> rfl

theorem Twin.run_inserts (h : x.Twin y) (hx : x.Valid) (hy : y.Valid) (records : List (I × Bytes)) :
    (x.run (inserts records : List (Operation I σ))).2.Twin
      (y.run (inserts records : List (Operation I σ))).2 := by
  induction records generalizing x y with
  | nil => exact h
  | cons e records ih =>
    obtain ⟨i, v⟩ := e
    exact ih (h.insert hx hy i v).2 (hx.perform (.insert i v : Operation I σ)).1
      (hy.perform (.insert i v : Operation I σ)).1

/-- **A rebuild leaves twins**: it is a replay of its first scan. -/
theorem Twin.rebuild (h : x.Twin y) (hx : x.Valid) (hy : y.Valid) (source : Source I) :
    (x.rebuild source).result = (y.rebuild source).result ∧
      (x.rebuild source).index.Twin (y.rebuild source).index := by
  have hresult := build_result_twin h.config hx.config hy.config source
  rw [rebuild_result, rebuild_result]
  refine ⟨hresult, ?_⟩
  cases hbuild : (build x.config source).1 with
  | error e =>
    cases hbuild' : (build y.config source).1 with
    | error e' =>
      rw [(rebuild_of_error hbuild).2, (rebuild_of_error hbuild').2]
      exact h
    | ok y' =>
      rw [hbuild, hbuild'] at hresult
      cases hresult
  | ok x' =>
    cases hbuild' : (build y.config source).1 with
    | error e' =>
      rw [hbuild, hbuild'] at hresult
      cases hresult
    | ok y' =>
      -- both are what the same inserts make of fresh twins
      rw [(rebuild_of_ok hbuild).2, (rebuild_of_ok hbuild').2,
        build_eq_replay (σ := Unit) hx.config hbuild, build_eq_replay (σ := Unit) hy.config hbuild']
      exact ((twin_fresh h.config).run_inserts (valid_fresh hx.config) (valid_fresh hy.config)
        source.first).with_counters {}

/-- **Twins reply the same to every operation**, and stay twins. -/
theorem Twin.perform (h : x.Twin y) (hx : x.Valid) (hy : y.Valid) (op : Operation I σ) :
    (x.perform op).1 = (y.perform op).1 ∧ (x.perform op).2.Twin (y.perform op).2 := by
  cases op with
  | insert i v =>
    obtain ⟨hresult, htwin⟩ := h.insert hx hy i v
    exact ⟨congrArg Reply.inserted hresult, htwin⟩
  | delete p s =>
    obtain ⟨hresult, htwin⟩ := h.delete hx hy p s
    simp only [Index.perform, hresult]
    exact ⟨trivial, htwin⟩
  | replace p s i v =>
    obtain ⟨hresult, htwin⟩ := h.replace hx hy p s i v
    simp only [Index.perform, hresult]
    exact ⟨trivial, htwin⟩
  | compact =>
    obtain ⟨hresult, htwin⟩ := h.compact hx hy
    exact ⟨congrArg Reply.compacted hresult, htwin⟩
  | clear => exact ⟨rfl, h.clear hx hy⟩
  | rebuild source =>
    obtain ⟨hresult, htwin⟩ := h.rebuild hx hy source
    exact ⟨congrArg Reply.rebuilt hresult, htwin⟩

end Index

end WildcardIndex
