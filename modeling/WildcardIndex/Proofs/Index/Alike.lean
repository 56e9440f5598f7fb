import Mathlib.Data.List.Basic
import WildcardIndex.Index.Stats
import WildcardIndex.Proofs.Counting
import WildcardIndex.Proofs.Index.Answers
/-!
# The index — alike indexes answer alike

Alike indexes may hold different remains of what was deleted. Nothing that is
asked of them tells: answers, identifiers and sizes are read off what the stores
show, and the statistics off the places and the slots there are.
-/

namespace WildcardIndex

namespace Index

variable {I σ : Type} {x y x' y' : Index I} {r : Record} {identifier : I} {v : Bytes}
variable {c d : Config}

/-! ## What is asked

An answer is read off the live records, so indexes with the same live records
answer the same, whatever else they hold and in whatever representation. -/

theorem toList_matching_congr (h : x.store.content? = y.store.content?) (hx : x.Valid)
    (hy : y.Valid) (pattern : Bytes) : (x.matching pattern).toList = (y.matching pattern).toList := by
  refine RecordSet.toList_eq_of_mem_iff (hx.valid_matching pattern) (hy.valid_matching pattern) ?_
  intro r
  rw [hx.mem_matching, hy.mem_matching, h]

theorem matchingBy_congr (h : x.store.content? = y.store.content?) (hx : x.Valid) (hy : y.Valid)
    (compare : I → I → Ordering) (pattern : Bytes) :
    x.matchingBy compare pattern = y.matchingBy compare pattern := by
  have hlive := hx.isSome_content?_of_matching pattern
  have hlive' := hy.isSome_content?_of_matching pattern
  rw [Index.matchingBy, Index.matchingBy, identifiersBy, identifiersBy,
    Store.resolve_of_live hlive, Store.resolve_of_live hlive', toList_matching_congr h hx hy, h]

/-- The records with a byte are in a set of the backend, also if none was ever
made. -/
theorem Valid.valid_present (h : x.Valid) (a : UInt8) :
    ((x.tables.positional.presence? a).getD (.empty x.tables.positional.backend)).Valid
      x.config.backend := by
  cases hs : x.tables.positional.presence? a with
  | none =>
    rw [h.tables.positional.backend]
    exact RecordSet.valid_empty _
  | some s => exact h.tables.positional.sets (.anywhere a) s hs

theorem Valid.containing_spec (h : x.Valid) (a : UInt8) :
    (x.containing a).Valid x.config.backend ∧ ∀ r, r ∈ x.containing a ↔
      ∃ i v, x.store.content? r = some (i, v) ∧ a ∈ v := by
  have hpresent := h.valid_present a
  refine ⟨hpresent.diff _, fun r => ?_⟩
  have hmem : r ∈ (x.tables.positional.presence? a).getD (.empty x.tables.positional.backend) ↔
      ∃ v, x.store.value? r = some v ∧ a ∈ v := by
    rw [← h.tables.mirrors.presence a r]
    unfold PositionalIndex.presence?
    cases x.tables.positional.presence.get a <;> simp
  rw [containing, RecordSet.mem_diff (hpresent.backend_eq_backend h.store.tombstones), hmem]
  constructor
  · rintro ⟨⟨v, hv, ha⟩, hr⟩
    obtain ⟨i, hi⟩ := Store.exists_content?_iff.2 ⟨hr, hv⟩
    exact ⟨i, v, hi, ha⟩
  · rintro ⟨i, v, hi, ha⟩
    obtain ⟨hr, hv⟩ := Store.exists_content?_iff.1 ⟨i, hi⟩
    exact ⟨⟨v, hv, ha⟩, hr⟩

theorem toList_containing_congr (h : x.store.content? = y.store.content?) (hx : x.Valid)
    (hy : y.Valid) (a : UInt8) : (x.containing a).toList = (y.containing a).toList := by
  obtain ⟨hvalid, hmem⟩ := hx.containing_spec a
  obtain ⟨hvalid', hmem'⟩ := hy.containing_spec a
  refine RecordSet.toList_eq_of_mem_iff hvalid hvalid' fun r => ?_
  rw [hmem, hmem', h]

/-- The identifier of a record is that of its content. -/
theorem identifier?_eq (x : Index I) (r : Record) :
    x.identifier? r = (x.store.content? r).map Prod.fst := by
  unfold identifier?
  cases hcontent : x.store.content? r with
  | none =>
    rw [if_neg fun hlive => ?_]
    · rfl
    · rw [Store.state?_eq_live_iff, hcontent] at hlive
      cases hlive
  | some e =>
    obtain ⟨i, v⟩ := e
    rw [if_pos (Store.state?_eq_live_iff.2 (by rw [hcontent]; rfl))]
    exact (Store.content?_eq_some.1 hcontent).2.1

theorem identifier?_congr (h : x.store.content? = y.store.content?) (r : Record) :
    x.identifier? r = y.identifier? r := by
  rw [Index.identifier?_eq, Index.identifier?_eq, h]

theorem size_congr (h : x.store.Alike y.store) : x.size = y.size := by
  rw [size, size, Store.activeRecords, Store.activeRecords, Store.freeSlots, Store.freeSlots,
    h.totalSlots_eq, h.free_eq]

/-- The statistics, but for what a compaction is there to change. -/
def lastingStats [SlotSized I] (x : Index I) : Stats :=
  { x.stats with tombstones := 0, compactions := 0, memoryBytes := 0 }

theorem Alike.lastingStats [SlotSized I] (h : x.Alike y) (hx : x.Valid) (hy : y.Valid) :
    x.lastingStats = y.lastingStats := by
  have hsize := size_congr h.store
  unfold size at hsize
  have hfree : x.store.freeSlots = y.store.freeSlots := by
    rw [Store.freeSlots, Store.freeSlots, h.store.free_eq]
  have hmax : x.tables.length.maxLength = y.tables.length.maxLength := by
    rw [LengthIndex.maxLength, LengthIndex.maxLength, h.slots_eq]
  have hcount := PositionalIndex.entryCount_eq hx.tables.positional.toValid
    hy.tables.positional.toValid h.isSome_at?
  have hbackend : x.tables.positional.backend = y.tables.positional.backend := by
    rw [hx.tables.positional.backend, hy.tables.positional.backend, h.config.backend_eq]
  simp only [Index.lastingStats, stats, hsize, h.store.totalSlots_eq, hfree, hmax, h.inserts_eq,
    h.updates_eq, h.deletes_eq, hcount, h.slots_eq, hbackend]

/-! ## What is done -/

/-- **Placing a value in alike indexes** leaves them alike. -/
theorem Alike.placed (h : x.Alike y) (hx : Placed identifier v r x x')
    (hy : Placed identifier v r y y') : x'.Alike y' where
  config := by
    rw [hx.config_eq, hy.config_eq]
    exact h.config
  store := by
    have htook := hy.took
    rw [← h.config.indexedPart_eq] at htook
    exact h.store.took hx.took htook
  slots_eq := by rw [hx.slots_eq, hy.slots_eq, h.slots_eq, h.config.indexedPart_eq]
  isSome_at? k := by
    rw [Bool.eq_iff_iff, hx.isSome_at?, hy.isSome_at?, h.isSome_at?, h.config.indexedPart_eq]
  inserts_eq := by rw [hx.counters_eq, hy.counters_eq, h.inserts_eq]
  updates_eq := by rw [hx.counters_eq, hy.counters_eq, h.updates_eq]
  deletes_eq := by rw [hx.counters_eq, hy.counters_eq, h.deletes_eq]

/-- So does marking the same records, and counting it in the same way. -/
theorem Alike.marked (h : x.Alike y) {b b' : Backend} {rs : List Record} {s t : Store I}
    {counters counters' : Counters} (hs : Store.Marked b rs x.store s)
    (ht : Store.Marked b' rs y.store t) (hinserts : counters.inserts = counters'.inserts)
    (hupdates : counters.updates = counters'.updates)
    (hdeletes : counters.deletes = counters'.deletes) :
    (x.marked s counters).Alike (y.marked t counters') where
  config := h.config
  store := h.store.marked hs ht
  slots_eq := h.slots_eq
  isSome_at? := h.isSome_at?
  inserts_eq := hinserts
  updates_eq := hupdates
  deletes_eq := hdeletes

theorem Alike.clear (h : x.Alike y) : x.clear.index.Alike y.clear.index where
  config := h.config
  store := by
    refine ⟨funext fun r => ?_, rfl, rfl⟩
    rw [Store.content?_of_not_mem RecordSet.not_mem_empty,
      Store.content?_of_not_mem RecordSet.not_mem_empty]
    simp [Index.clear, Store.clear, Store.empty]
  slots_eq := rfl
  isSome_at? k := by
    simp only [Index.clear, Tables.clear, PositionalIndex.clear, PositionalIndex.at?_empty]
  inserts_eq := rfl
  updates_eq := rfl
  deletes_eq := rfl

/-! ## Rebuilding -/

theorem scanFirst_congr (h : c.Alike d) (scan : FirstScan I) (records : List (I × Bytes)) :
    scanFirst c scan records = scanFirst d scan records := by
  induction records generalizing scan with
  | nil => rfl
  | cons x records ih =>
    obtain ⟨i, v⟩ := x
    simp only [scanFirst, h.indexedPart_eq, ih]

theorem scanSecond_congr (h : c.Alike d) (store : Store I) (length : LengthIndex) (seen : Nat)
    (records : List (I × Bytes)) :
    scanSecond c store length seen records = scanSecond d store length seen records := by
  induction records generalizing length seen with
  | nil => rfl
  | cons x records ih =>
    obtain ⟨i, v⟩ := x
    simp only [scanSecond, h.indexedPart_eq, ih]

/-- **A rebuild does not depend on when to compact.** -/
theorem build_congr (h : c.Alike d) (source : Source I) :
    (build d source).1 = (build c source).1.map fun x => { x with config := d } := by
  simp only [build, ← h.backend_eq, ← scanFirst_congr h]
  split
  · rfl
  · rename_i scan hscan
    have hslots : lengthSlots d scan = lengthSlots c scan := by
      rw [lengthSlots, lengthSlots, h.backend_eq]
    rw [hslots, ← scanSecond_congr h]
    split
    · rfl
    · split
      · rfl
      · rfl

/-! ## Performing an operation -/

theorem Alike.insert (h : x.Alike y) (hx : x.Valid) (hy : y.Valid) (i : I) (v : Bytes) :
    (x.insert i v).result = (y.insert i v).result ∧
      (x.insert i v).index.Alike (y.insert i v).index := by
  have hnext := h.store.next?_eq
  cases hr : x.store.next? with
  | none =>
    obtain ⟨hresult, hindex⟩ := hx.insert_of_next?_eq_none hr i v
    obtain ⟨hresult', hindex'⟩ := hy.insert_of_next?_eq_none (hnext ▸ hr) i v
    rw [hresult, hresult', hindex, hindex']
    exact ⟨rfl, h⟩
  | some r =>
    obtain ⟨x', hplaced, hresult, hindex⟩ := hx.insert_of_next? hr i v
    obtain ⟨y', hplaced', hresult', hindex'⟩ := hy.insert_of_next? (hnext ▸ hr) i v
    have halike := h.placed hplaced hplaced'
    have hinserts : x.counters.inserts + 1 = y.counters.inserts + 1 := by rw [h.inserts_eq]
    rw [hresult, hresult', hindex, hindex']
    exact ⟨rfl, halike.config, halike.store, halike.slots_eq, halike.isSome_at?, hinserts,
      h.updates_eq, h.deletes_eq⟩

/-- Deleting may compact one index and not the other. What it marks is the same. -/
theorem Alike.delete (h : x.Alike y) (hx : x.Valid) (hy : y.Valid) (p : σ → I → Bool × σ) (s : σ) :
    (x.delete p s).result = (y.delete p s).result ∧
      (x.delete p s).index.Alike (y.delete p s).index := by
  obtain ⟨store, hmarked, hresult, -, hcompacted⟩ := hx.delete_spec p s
  obtain ⟨store', hmarked', hresult', -, hcompacted'⟩ := hy.delete_spec p s
  rw [← h.store.live_eq hx.store hy.store] at hmarked' hresult' hcompacted'
  rw [hresult, hresult']
  refine ⟨rfl, (hcompacted.alike.trans ?_).trans hcompacted'.alike.symm⟩
  exact h.marked hmarked hmarked' h.inserts_eq h.updates_eq (by simp only [h.deletes_eq])

theorem Alike.replace (h : x.Alike y) (hx : x.Valid) (hy : y.Valid) (p : σ → I → Bool × σ) (s : σ)
    (i : I) (v : Bytes) :
    (x.replace p s i v).result = (y.replace p s i v).result ∧
      (x.replace p s i v).index.Alike (y.replace p s i v).index := by
  have hnext := h.store.next?_eq
  cases hr : x.store.next? with
  | none =>
    obtain ⟨hresult, hindex⟩ := hx.replace_of_next?_eq_none hr p s i v
    obtain ⟨hresult', hindex'⟩ := hy.replace_of_next?_eq_none (hnext ▸ hr) p s i v
    rw [hresult, hresult', hindex, hindex']
    exact ⟨rfl, h⟩
  | some r =>
    obtain ⟨x', store, hplaced, hmarked, hresult, -, hcompacted⟩ := hx.replace_of_next? hr p s i v
    obtain ⟨y', store', hplaced', hmarked', hresult', -, hcompacted'⟩ :=
      hy.replace_of_next? (hnext ▸ hr) p s i v
    rw [← h.store.live_eq hx.store hy.store] at hmarked' hresult'
    rw [hresult, hresult']
    refine ⟨rfl, (hcompacted.alike.trans ?_).trans hcompacted'.alike.symm⟩
    exact (h.placed hplaced hplaced').marked hmarked hmarked' h.inserts_eq
      (by simp only [h.updates_eq]) h.deletes_eq

theorem Alike.rebuild (h : x.Alike y) (hx : x.Valid) (source : Source I) :
    (x.rebuild source).result = (y.rebuild source).result ∧
      (x.rebuild source).index.Alike (y.rebuild source).index := by
  have hbuild := build_congr h.config source
  cases hx' : (build x.config source).1 with
  | error e =>
    rw [hx'] at hbuild
    obtain ⟨hresult, hindex⟩ := rebuild_of_error hx'
    obtain ⟨hresult', hindex'⟩ := rebuild_of_error hbuild
    rw [hresult, hresult', hindex, hindex']
    exact ⟨rfl, h⟩
  | ok x' =>
    rw [hx'] at hbuild
    obtain ⟨hresult, hindex⟩ := rebuild_of_ok hx'
    obtain ⟨hresult', hindex'⟩ := rebuild_of_ok hbuild
    have hconfig := (build_spec hx.config hx').config_eq
    rw [hresult, hresult', hindex, hindex']
    refine ⟨rfl, ?_, .refl _, rfl, fun k => rfl, rfl, rfl, rfl⟩
    rw [hconfig]
    exact h.config

/-- **Alike indexes reply alike to every operation but a compaction**, and stay
alike. -/
theorem Alike.perform (h : x.Alike y) (hx : x.Valid) (hy : y.Valid) (op : Operation I σ)
    (hop : op ≠ .compact) :
    (x.perform op).1 = (y.perform op).1 ∧ (x.perform op).2.Alike (y.perform op).2 := by
  cases op with
  | insert i v =>
    obtain ⟨hresult, halike⟩ := h.insert hx hy i v
    exact ⟨congrArg Reply.inserted hresult, halike⟩
  | delete p s =>
    obtain ⟨hresult, halike⟩ := h.delete hx hy p s
    simp only [Index.perform, hresult]
    exact ⟨trivial, halike⟩
  | replace p s i v =>
    obtain ⟨hresult, halike⟩ := h.replace hx hy p s i v
    simp only [Index.perform, hresult]
    exact ⟨trivial, halike⟩
  | compact => exact absurd rfl hop
  | clear => exact ⟨rfl, h.clear⟩
  | rebuild source =>
    obtain ⟨hresult, halike⟩ := h.rebuild hx source
    exact ⟨congrArg Reply.rebuilt hresult, halike⟩

end Index

end WildcardIndex
