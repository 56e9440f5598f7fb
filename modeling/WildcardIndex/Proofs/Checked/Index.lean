import Mathlib.Data.List.Basic
import WildcardIndex.Index.Search
import WildcardIndex.Index.Stats
import WildcardIndex.Proofs.Checked.Search
import WildcardIndex.Proofs.Index.Run
import WildcardIndex.Proofs.Store.Lifecycle
/-!
# Checked — the operations of an index

An operation takes for granted that a slot that waits is there, that a record
that is tombstoned was counted, and that what is filed fits the positions. All of
that holds of a valid index. Deleting, compacting and clearing take nothing for
granted: they ask for every slot, and change whole tables.
-/

namespace WildcardIndex

namespace Checked

variable {I σ : Type} {b : Backend} {c : Config} {x : Index I} {store : Store I}

/-! ## Slots -/

/-- Gives a value a slot. -/
def acquire (s : Store I) (identifier : I) (value : Bytes) :
    Checked (Except Error Acquired × Store I) :=
  match s with
  | ⟨slots, tombstones, count, r :: free⟩ =>
    if slots.size ≤ r.toNat then
      pure (.error (.invariantViolated (.freeSlotBeyond r slots.size)),
        ⟨slots, tombstones, count, r :: free⟩)
    else do
      let slot ← cell slots r.toNat
      pure (.ok ⟨r, slot.value, true⟩,
        { slots := ← modified (fun _ => ⟨identifier, some value⟩) r.toNat slots
          tombstones := tombstones.erase r
          tombstoneCount := ← if tombstones.contains r then difference count 1 else pure count
          free := free })
  | ⟨slots, tombstones, count, []⟩ =>
    pure ((⟨slots, tombstones, count, []⟩ : Store I).acquire identifier value)

/-- The number of live records. -/
def activeRecords (s : Store I) : Checked Nat := difference s.totalSlots s.freeSlots

/-- **A slot that waits is there**, and counted if it is tombstoned. -/
theorem acquire_eq_ok (h : store.Valid b) (identifier : I) (value : Bytes) :
    acquire store identifier value = .ok (store.acquire identifier value) := by
  have hcount := fun r => h.tombstoneCount_pos (r := r)
  obtain ⟨slots, tombstones, count, free⟩ := store
  cases free with
  | nil => rfl
  | cons r free =>
    unfold acquire Store.acquire
    simp only
    by_cases hr : slots.size ≤ r.toNat
    · rw [if_pos hr, Array.getElem?_eq_none hr]
      rfl
    · have hlt := Nat.not_le.1 hr
      have hslot := Array.getElem?_eq_getElem hlt
      rw [if_neg hr, cell_eq_ok hslot, ok_bind, modified_eq_ok hlt, ok_bind, hslot]
      simp only
      split
      · rename_i hmarked
        rw [difference_eq_ok (hcount r hmarked), ok_bind]
        rfl
      · rfl

/-- What is checked is that a record is counted if its tombstone is taken away. -/
theorem isOk_acquire_iff {identifier : I} {value : Bytes} :
    (acquire store identifier value).isOk ↔ ∀ r, store.free.head? = some r →
      r.toNat < store.slots.size → r ∈ store.tombstones → 0 < store.tombstoneCount := by
  obtain ⟨slots, tombstones, count, free⟩ := store
  cases free with
  | nil => exact ⟨fun _ r hr => (nomatch hr), fun _ => rfl⟩
  | cons r free =>
    simp only [acquire, List.head?_cons, Option.some.injEq, forall_eq']
    by_cases hr : slots.size ≤ r.toNat
    · rw [if_pos hr]
      exact ⟨fun _ hlt => absurd hlt (Nat.not_lt.2 hr), fun _ => rfl⟩
    have hlt := Nat.not_le.1 hr
    rw [if_neg hr, cell_eq_ok (Array.getElem?_eq_getElem hlt), ok_bind, modified_eq_ok hlt, ok_bind]
    by_cases hmarked : tombstones.contains r = true
    · rw [if_pos hmarked]
      refine ⟨fun h _ _ => ?_, fun h => ?_⟩
      · obtain ⟨_, hcount, -⟩ := isOk_bind_iff.1 h
        exact isOk_difference_iff.1 (isOk_of_eq_ok hcount)
      · rw [difference_eq_ok (h hlt hmarked), ok_bind]
        rfl
    · rw [if_neg hmarked]
      exact ⟨fun _ _ hmem => absurd hmem hmarked, fun _ => rfl⟩

theorem isOk_activeRecords_iff : (activeRecords store).isOk ↔ store.freeSlots ≤ store.totalSlots :=
  isOk_difference_iff

theorem activeRecords_eq_ok (h : store.Valid b) : activeRecords store = .ok store.activeRecords := by
  have := h.length_live_add
  exact difference_eq_ok (by omega)

/-! ## Placing a value -/

/-- The part of a value that is indexed. -/
def indexedPart (c : Config) (v : Bytes) : Checked Bytes :=
  firstOf (min v.length c.maxIndexedLength) v

/-- Puts a value into a slot and into the tables. -/
def place (x : Index I) (identifier : I) (v : Bytes) :
    Checked (Outcome I (Except Error Record)) := do
  let ⟨config, tables, store, counters⟩ := x
  let kept ← indexedPart config v
  let cut := Index.truncationEvents v kept
  match ← acquire store identifier kept with
  | (.error e, store) => pure ⟨.error e, ⟨config, tables, store, counters⟩, cut⟩
  | (.ok a, store) =>
    let tables ← match a.stale with
      | some stale => remove tables a.record stale
      | none => pure tables
    let growth := Index.growthEvents tables.length kept.length
    let tables ← add tables a.record kept
    pure ⟨.ok a.record, ⟨config, tables, store, counters⟩, cut ++ Index.slotEvents a ++ growth⟩

theorem indexedPart_eq_ok (c : Config) (v : Bytes) :
    indexedPart c v = .ok (Index.indexedPart c v) := by
  rw [indexedPart, firstOf_eq_ok (Nat.min_le_left _ _), Index.indexedPart, Nat.min_comm,
    ← List.take_take, List.take_length]

/-- **Placing a value does not slip**: what the slot still held was filed, so it
fits the positions as the new value does. -/
theorem place_eq_ok (h : x.Valid) (identifier : I) (v : Bytes) :
    place x identifier v = .ok (x.place identifier v) := by
  have hlength := Index.length_indexedPart_lt h.config v
  obtain ⟨config, tables, store, counters⟩ := x
  simp only at hlength
  simp only [place, Index.place, indexedPart_eq_ok, ok_bind, acquire_eq_ok h.store]
  cases hnext : store.next? with
  | none =>
    have hacquire := h.store.acquire_of_next?_eq_none hnext identifier (Index.indexedPart config v)
    simp only at hacquire
    rw [hacquire]
    rfl
  | some r =>
    obtain ⟨store', hacquire, -⟩ :=
      h.store.acquire_of_next? hnext identifier (Index.indexedPart config v)
    simp only at hacquire
    rw [hacquire]
    cases hstale : store.value? r with
    | none =>
      simp only [add_eq_ok h.tables.length.toValid hlength, ok_bind, pure_bind]
      rfl
    | some stale =>
      have hfit : stale.length < Tables.positionLimit := h.tables.length_lt hstale
      have hscrubbed : (tables.remove r stale).length.Valid config.backend :=
        h.tables.length.toValid.remove r stale.length
      simp only [remove_eq_ok hfit, add_eq_ok hscrubbed hlength, ok_bind]
      rfl

/-! ## Changing an index -/

/-- Indexes a value under an identifier. -/
def insert (x : Index I) (identifier : I) (v : Bytes) :
    Checked (Outcome I (Except Error Record)) := do
  match ← place x identifier v with
  | ⟨.ok r, ⟨config, tables, store, counters⟩, events⟩ =>
    pure ⟨.ok r, ⟨config, tables, store, { counters with inserts := counters.inserts + 1 }⟩, events⟩
  | failed => pure failed

/-- Puts a new record in the place of what a predicate chooses. -/
def replace (x : Index I) (p : σ → I → Bool × σ) (s : σ) (identifier : I) (v : Bytes) :
    Checked (Outcome I (Except Error Record × σ)) := do
  match ← place x identifier v with
  | ⟨.error e, x, events⟩ => pure ⟨(.error e, s), x, events⟩
  | ⟨.ok r, ⟨config, tables, store, counters⟩, events⟩ =>
    let (removed, s, store) := Index.markChosen store p s (store.live.filter (·.1 != r))
    let counters := { counters with updates := counters.updates + 1 }
    let ⟨_, x, compaction⟩ := Index.compactAfterwards ⟨config, tables, store, counters⟩
    pure ⟨(.ok r, s), x, events ++ .replaced r removed :: compaction⟩

theorem insert_eq_ok (h : x.Valid) (identifier : I) (v : Bytes) :
    insert x identifier v = .ok (x.insert identifier v) := by
  rw [insert, place_eq_ok h, ok_bind, Index.insert]
  generalize x.place identifier v = o
  obtain ⟨result, ⟨config, tables, store, counters⟩, events⟩ := o
  cases result <;> rfl

theorem replace_eq_ok (h : x.Valid) (p : σ → I → Bool × σ) (s : σ) (identifier : I) (v : Bytes) :
    replace x p s identifier v = .ok (x.replace p s identifier v) := by
  rw [replace, place_eq_ok h, ok_bind, Index.replace]
  generalize x.place identifier v = o
  obtain ⟨result, ⟨config, tables, store, counters⟩, events⟩ := o
  cases result <;> rfl

/-! ## Rebuilding -/

/-- Takes in the records of the first scan. -/
def scanFirst (c : Config) (scan : Index.FirstScan I) :
    List (I × Bytes) → Checked (Except Error (Index.FirstScan I))
  | [] => pure (.ok scan)
  | (identifier, v) :: rest => do
    let ⟨store, positional, longest, truncated⟩ := scan
    let kept ← indexedPart c v
    match ← acquire store identifier kept with
    | (.error e, _) => pure (.error e)
    | (.ok a, store) =>
      let positional ← throughValue (addByte a.record) kept.length positional kept
      scanFirst c
        { store := store
          positional := positional
          longest := max longest kept.length
          truncated := if kept.length < v.length then truncated + 1 else truncated } rest

/-- Takes in the records of the second scan, of which `seen` came before. -/
def scanSecond (c : Config) (store : Store I) (length : LengthIndex) (seen : Nat) :
    List (I × Bytes) → Checked (Except Error (LengthIndex × Nat))
  | [] => pure (.ok (length, seen))
  | (_, v) :: rest => do
    let kept ← indexedPart c v
    if store.value? seen.toUInt32 = some kept then
      let length ← addLength length seen.toUInt32 kept.length
      scanSecond c store length (seen + 1) rest
    else pure (.error (.sourceChanged (.differs seen)))

/-- Reads both scans of a source. -/
def build (c : Config) (source : Source I) : Checked (Except Error (Index I) × List Event) := do
  let started := Event.rebuildStarted c.backend
  match ← scanFirst c ⟨.empty c.backend, .empty c.backend, 0, 0⟩ source.first with
  | .error e => pure (.error e, [started])
  | .ok scan =>
    let growth := if scan.store.totalSlots = 0 then []
      else Index.growthEvents (.empty c.backend) scan.longest
    match ← scanSecond c scan.store (Index.lengthSlots c scan) 0 source.second with
    | .error e => pure (.error e, started :: growth)
    | .ok (length, seen) =>
      if seen = scan.store.totalSlots then
        let cut := if 0 < scan.truncated then
          [Event.rebuildTruncated scan.truncated c.maxIndexedLength] else []
        pure (.ok ⟨c, ⟨scan.positional, length⟩, scan.store, {}⟩,
          started :: growth ++ cut ++ [.rebuildFinished seen scan.longest])
      else
        pure (.error (.sourceChanged (.shorter scan.store.totalSlots seen)), started :: growth)

/-- Replaces what an index holds by the records of a source. -/
def rebuild (x : Index I) (source : Source I) : Checked (Outcome I (Except Error Unit)) := do
  match ← build x.config source with
  | (.ok rebuilt, events) => pure ⟨.ok (), rebuilt, events⟩
  | (.error e, events) => pure ⟨.error e, x, events⟩

theorem scanFirst_eq_ok (hc : c.validate = .ok ()) {scan : Index.FirstScan I}
    (h : scan.store.Valid c.backend) (records : List (I × Bytes)) :
    scanFirst c scan records = .ok (Index.scanFirst c scan records) := by
  induction records generalizing scan with
  | nil => rfl
  | cons e rest ih =>
    obtain ⟨identifier, v⟩ := e
    have hlength := Index.length_indexedPart_lt hc v
    rw [scanFirst, indexedPart_eq_ok, ok_bind, acquire_eq_ok h, ok_bind, Index.scanFirst]
    cases hnext : scan.store.next? with
    | none =>
      simp only [h.acquire_of_next?_eq_none hnext]
      rfl
    | some r =>
      obtain ⟨store, hacquire, htook⟩ := h.acquire_of_next? hnext identifier (Index.indexedPart c v)
      simp only [hacquire]
      rw [throughValue_eq_ok (fun x c i j hi hj => addByte_eq_ok r x c hi hj) hlength, ok_bind]
      exact ih htook.valid

theorem scanSecond_eq_ok {length : LengthIndex} (h : length.Valid b) (seen : Nat)
    (records : List (I × Bytes)) :
    scanSecond c store length seen records = .ok (Index.scanSecond c store length seen records) := by
  induction records generalizing length seen with
  | nil => rfl
  | cons e rest ih =>
    obtain ⟨identifier, v⟩ := e
    rw [scanSecond, indexedPart_eq_ok, ok_bind, Index.scanSecond]
    split
    · rw [addLength_eq_ok h, ok_bind]
      exact ih (h.add _ _) (seen + 1)
    · rfl

/-- **Neither scan slips**, whether they agree or not. -/
theorem build_eq_ok (hc : c.validate = .ok ()) (source : Source I) :
    build c source = .ok (Index.build c source) := by
  unfold build Index.build
  rw [scanFirst_eq_ok hc (Store.valid_empty c.backend), ok_bind]
  cases hscan : Index.scanFirst c ⟨.empty c.backend, .empty c.backend, 0, 0⟩ source.first with
  | error e => rfl
  | ok scan =>
    have hscanned := Index.scanFirst_spec hc (Index.scanned_nil c) hscan
    have hslots := (Index.represents_lengthSlots hscanned).1.toValid
    simp only
    rw [scanSecond_eq_ok hslots, ok_bind]
    cases Index.scanSecond c scan.store (Index.lengthSlots c scan) 0 source.second with
    | error e => rfl
    | ok result =>
      simp only
      split <;> rfl

theorem rebuild_eq_ok (h : x.Valid) (source : Source I) :
    rebuild x source = .ok (x.rebuild source) := by
  rw [rebuild, build_eq_ok h.config, ok_bind, Index.rebuild]
  generalize Index.build x.config source = o
  obtain ⟨result, events⟩ := o
  cases result <;> rfl

/-! ## Operations -/

/-- Performs an operation. -/
def perform (x : Index I) : Operation I σ → Checked (Reply σ × Index I)
  | .insert identifier v => do
    let o ← insert x identifier v
    pure (.inserted o.result, o.index)
  | .replace p s identifier v => do
    let o ← replace x p s identifier v
    pure (.replaced o.result.1 o.result.2, o.index)
  | .rebuild source => do
    let o ← rebuild x source
    pure (.rebuilt o.result, o.index)
  -- the others have no step that could slip
  | op => pure (x.perform op)

/-- Performs operations one after the other. -/
def run (x : Index I) : List (Operation I σ) → Checked (List (Reply σ) × Index I)
  | [] => pure ([], x)
  | op :: ops => do
    let (reply, x) ← perform x op
    let (replies, x) ← run x ops
    pure (reply :: replies, x)

/-- **No operation on a valid index slips.** -/
theorem perform_eq_ok (h : x.Valid) (op : Operation I σ) : perform x op = .ok (x.perform op) := by
  cases op with
  | insert identifier v =>
    rw [perform, insert_eq_ok h, ok_bind]
    rfl
  | replace p s identifier v =>
    rw [perform, replace_eq_ok h, ok_bind]
    rfl
  | rebuild source =>
    rw [perform, rebuild_eq_ok h, ok_bind]
    rfl
  | delete p s => rfl
  | compact => rfl
  | clear => rfl

/-- **So no run does**: every operation leaves a valid index to the next. -/
theorem run_eq_ok (h : x.Valid) (ops : List (Operation I σ)) : run x ops = .ok (x.run ops) := by
  induction ops generalizing x with
  | nil => rfl
  | cons op ops ih =>
    rw [run, perform_eq_ok h, ok_bind]
    simp only [ih (h.perform op).1, ok_bind]
    rfl

/-! ## Questions -/

/-- The statistics of an index. -/
def stats [SlotSized I] (x : Index I) : Checked Stats := do
  pure { x.stats with activeRecords := ← activeRecords x.store }

/-- The live records whose indexed value has a byte anywhere. -/
def containing (x : Index I) (c : UInt8) : Checked RecordSet := do
  let found ← cellOf x.tables.positional.presence c
  pure ((found.getD (.empty x.tables.positional.backend)).diff x.store.tombstones)

/-- The live records whose indexed value matches a pattern. -/
def matching (x : Index I) (pattern : Bytes) : Checked RecordSet :=
  answer x.tables x.store.tombstones (.ofBytes pattern)

theorem stats_eq_ok [SlotSized I] (h : x.Valid) : stats x = .ok x.stats := by
  rw [stats, activeRecords_eq_ok h.store, ok_bind]
  rfl

theorem containing_eq_ok (x : Index I) (c : UInt8) : containing x c = .ok (x.containing c) := by
  rw [containing, cellOf_eq_ok, ok_bind]
  rfl

/-- **No pattern that fits the positions slips.** -/
theorem matching_eq_ok (h : x.Valid) {pattern : Bytes}
    (hpattern : pattern.length ≤ Tables.positionLimit) :
    matching x pattern = .ok (x.matching pattern) :=
  answer_eq_ok h.tables.slots_le
    (fun _ hpart => (Pattern.length_le_of_mem_parts hpart).trans hpattern) _

end Checked

end WildcardIndex
