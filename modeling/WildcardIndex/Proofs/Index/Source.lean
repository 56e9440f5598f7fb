import Mathlib.Data.List.Basic
import WildcardIndex.Proofs.Index.Rebuild
import WildcardIndex.Proofs.Index.Run
/-!
# The index — when a rebuild notices a changed source

The second scan of a source is held against the slots the first one filled, and
it is held against their values alone. So a rebuild goes through exactly if both
scans have the same values, as far as they are indexed. What else may change
between the scans is not noticed: the bytes past the cut, as they should not be,
and the identifiers.
-/

namespace WildcardIndex

namespace Index

variable {I : Type} {x : Index I} {c : Config} {scan scan' : FirstScan I}
variable {done rest records : List (I × Bytes)} {source : Source I}

/-- The records of a scan as an index takes them in, their values cut. -/
def indexedRecords (c : Config) (records : List (I × Bytes)) : List (I × Bytes) :=
  records.map fun (i, v) => (i, indexedPart c v)

/-- The values of a scan as an index takes them in. -/
def indexedValues (c : Config) (records : List (I × Bytes)) : List Bytes :=
  records.map fun (_, v) => indexedPart c v

theorem indexedValues_cons (i : I) (v : Bytes) :
    indexedValues c ((i, v) :: records) = indexedPart c v :: indexedValues c records := rfl

@[simp] theorem length_indexedValues : (indexedValues c records).length = records.length :=
  List.length_map _

theorem snd_indexedRecords (c : Config) (records : List (I × Bytes)) :
    (indexedRecords c records).map Prod.snd = indexedValues c records := List.map_map

theorem fst_indexedRecords (c : Config) (records : List (I × Bytes)) :
    (indexedRecords c records).map Prod.fst = records.map Prod.fst := List.map_map

/-! ## The first scan -/

/-- What a first scan starts from. -/
def scanNothing (c : Config) : FirstScan I := ⟨.empty c.backend, .empty c.backend, 0, 0⟩

/-- A first scan with room for the records to come takes them in. -/
theorem exists_scanFirst (hc : c.validate = .ok ()) (h : Scanned c done scan)
    (hroom : done.length + rest.length ≤ UInt32.size) :
    ∃ scan', scanFirst c scan rest = .ok scan' := by
  induction rest generalizing done scan with
  | nil => exact ⟨scan, rfl⟩
  | cons e rest ih =>
    obtain ⟨i, v⟩ := e
    rw [List.length_cons] at hroom
    -- nothing waits, and there is a number left for a new slot
    have hlt : scan.store.totalSlots < UInt32.size := by
      rw [h.totalSlots_eq]
      omega
    have hnext : scan.store.next? = some scan.store.totalSlots.toUInt32 := by
      rw [Store.next?, h.free_eq]
      exact if_pos hlt
    obtain ⟨store', hacquire, htook⟩ := h.store.acquire_of_next? hnext i (indexedPart c v)
    simp only [scanFirst, hacquire]
    refine ih (h.concat hc hnext htook _) ?_
    rw [List.length_append, List.length_singleton]
    omega

theorem scanFirst_scanned (hc : c.validate = .ok ())
    (hscan : scanFirst c (scanNothing c) records = .ok scan) : Scanned c records scan :=
  scanFirst_spec hc (scanned_nil c) hscan

/-- From the start, there has to be a number for each record. -/
theorem exists_scanFirst_scanNothing (hc : c.validate = .ok ())
    (hroom : records.length ≤ UInt32.size) :
    ∃ scan, scanFirst c (scanNothing c) records = .ok scan := by
  refine exists_scanFirst hc (scanned_nil c) ?_
  rw [List.length_nil]
  omega

/-- The slots hold the values of the scan, in order. -/
theorem Scanned.value?_toUInt32 (h : Scanned c done scan) {seen : Nat} (hseen : seen < done.length) :
    scan.store.value? seen.toUInt32 = (indexedValues c done)[seen]? := by
  have hsize := h.store.size_le
  have htotal := h.totalSlots_eq
  rw [h.value?_eq, scanned?, Store.toNat_toUInt32 (by omega), Option.map_map, indexedValues,
    List.getElem?_map]
  rfl

/-! ## The second scan -/

/-- A second scan that fails found another value, or one too many. -/
theorem scanSecond_error {store : Store I} {length : LengthIndex} {seen : Nat} {e : Error}
    (hscan : scanSecond c store length seen rest = .error e) :
    ∃ cause, e = .sourceChanged cause := by
  induction rest generalizing length seen with
  | nil => cases hscan
  | cons x rest ih =>
    obtain ⟨i, v⟩ := x
    simp only [scanSecond] at hscan
    split at hscan
    · exact ih hscan
    · rw [Except.error.injEq] at hscan
      exact ⟨_, hscan.symm⟩

/-- **The second scan gets to the last slot exactly if it has the values of the
first.** Having seen some records, it has the values of the others to come. -/
theorem Scanned.scanSecond_iff (h : Scanned c done scan) (length : LengthIndex) {seen : Nat}
    (hseen : seen ≤ done.length) :
    (∃ length', scanSecond c scan.store length seen rest = .ok (length', done.length)) ↔
      indexedValues c rest = (indexedValues c done).drop seen := by
  induction rest generalizing length seen with
  | nil =>
    have hdrop : [] = (indexedValues c done).drop seen ↔ done.length ≤ seen := by
      rw [eq_comm, List.drop_eq_nil_iff, length_indexedValues]
    simp only [scanSecond, Except.ok.injEq, Prod.mk.injEq, exists_eq_left', indexedValues,
      List.map_nil]
    rw [← indexedValues, hdrop]
    omega
  | cons e rest ih =>
    obtain ⟨i, v⟩ := e
    rcases Nat.lt_or_eq_of_le hseen with hlt | heq
    · -- the next slot has the next of the first scan's values
      have hvalue := h.value?_toUInt32 hlt
      have hlt' : seen < (indexedValues c done).length := by rwa [length_indexedValues]
      rw [List.getElem?_eq_getElem hlt'] at hvalue
      rw [List.drop_eq_getElem_cons hlt', indexedValues, List.map_cons, List.cons.injEq,
        ← indexedValues]
      simp only [scanSecond, hvalue, Option.some.injEq]
      by_cases hv : (indexedValues c done)[seen] = indexedPart c v
      · rw [if_pos hv, ih _ hlt, and_iff_right hv.symm]
      · rw [if_neg hv]
        refine iff_of_false ?_ fun h => hv h.1.symm
        rintro ⟨length', herror⟩
        cases herror
    · -- every slot was seen, and there is a record more
      rw [List.drop_of_length_le (by rw [length_indexedValues, heq])]
      refine iff_of_false ?_ (List.cons_ne_nil _ _)
      rintro ⟨length', hscan⟩
      have := scanSecond_eq hscan
      rw [List.length_cons] at this
      omega

/-! ## Both scans -/

/-- **A rebuild goes through exactly if both scans do**, the second up to the
last slot. It makes its index of the positions and slots of the first and the
lengths of the second. -/
theorem build_eq_ok_iff {y : Index I} :
    (build c source).1 = .ok y ↔ ∃ scan length,
      scanFirst c (scanNothing c) source.first = .ok scan ∧
        scanSecond c scan.store (lengthSlots c scan) 0 source.second =
          .ok (length, scan.store.totalSlots) ∧
        y = ⟨c, ⟨scan.positional, length⟩, scan.store, {}⟩ := by
  unfold build
  rw [← scanNothing]
  simp only
  cases hscan : scanFirst c (scanNothing c) source.first with
  | error e => simp
  | ok scan =>
    cases hsecond : scanSecond c scan.store (lengthSlots c scan) 0 source.second with
    | error e => simp [hsecond]
    | ok found =>
      obtain ⟨length, seen⟩ := found
      by_cases hseen : seen = scan.store.totalSlots
      · simp [hsecond, hseen, eq_comm]
      · simp [hsecond, hseen]

/-- Both scans of a rebuild that goes through have the same values. -/
theorem build_values (hc : c.validate = .ok ()) {y : Index I} (hbuild : (build c source).1 = .ok y) :
    indexedValues c source.second = indexedValues c source.first := by
  obtain ⟨scan, length, hscan, hsecond, -⟩ := build_eq_ok_iff.1 hbuild
  have hscanned := scanFirst_scanned hc hscan
  rw [hscanned.totalSlots_eq] at hsecond
  exact (hscanned.scanSecond_iff _ (Nat.zero_le _)).1 ⟨length, hsecond⟩

/-- And with room for the first scan, that is all it takes. -/
theorem exists_build_iff (hc : c.validate = .ok ()) (hroom : source.first.length ≤ UInt32.size) :
    (∃ y, (build c source).1 = .ok y) ↔
      indexedValues c source.second = indexedValues c source.first := by
  refine ⟨fun ⟨y, hbuild⟩ => build_values hc hbuild, fun hvalues => ?_⟩
  obtain ⟨scan, hscan⟩ := exists_scanFirst_scanNothing hc hroom
  have hscanned := scanFirst_scanned hc hscan
  obtain ⟨length, hsecond⟩ :=
    (hscanned.scanSecond_iff (lengthSlots c scan) (Nat.zero_le _)).2 hvalues
  rw [← hscanned.totalSlots_eq] at hsecond
  exact ⟨_, build_eq_ok_iff.2 ⟨scan, length, hscan, hsecond, rfl⟩⟩

/-- With room for its first scan, a rebuild can only fail because the source
changed. -/
theorem build_error (hc : c.validate = .ok ()) (hroom : source.first.length ≤ UInt32.size)
    {e : Error} (hbuild : (build c source).1 = .error e) : ∃ cause, e = .sourceChanged cause := by
  obtain ⟨scan, hscan⟩ := exists_scanFirst_scanNothing hc hroom
  rw [scanNothing] at hscan
  unfold build at hbuild
  simp only [hscan] at hbuild
  split at hbuild
  · rename_i e' hsecond
    rw [Except.error.injEq] at hbuild
    exact hbuild ▸ scanSecond_error hsecond
  · split at hbuild
    · cases hbuild
    · rw [Except.error.injEq] at hbuild
      exact ⟨_, hbuild.symm⟩

/-- A rebuild fails for a changed source exactly if the values of the scans
differ, as far as they are indexed. -/
theorem sourceChanged_iff (hc : x.config.validate = .ok ())
    (hroom : source.first.length ≤ UInt32.size) :
    (∃ cause, (x.rebuild source).result = .error (.sourceChanged cause)) ↔
      indexedValues x.config source.second ≠ indexedValues x.config source.first := by
  rw [Ne, ← exists_build_iff hc hroom]
  cases hbuild : (build x.config source).1 with
  | ok y =>
    rw [(rebuild_of_ok hbuild).1]
    refine iff_of_false ?_ fun h => h ⟨y, rfl⟩
    rintro ⟨cause, herror⟩
    cases herror
  | error e =>
    obtain ⟨cause, rfl⟩ := build_error hc hroom hbuild
    rw [(rebuild_of_error hbuild).1]
    refine iff_of_true ⟨cause, rfl⟩ ?_
    rintro ⟨y, hok⟩
    cases hok

/-- Records are the same if their identifiers and their values are. -/
theorem indexedRecords_eq_iff {records' : List (I × Bytes)} :
    indexedRecords c records = indexedRecords c records' ↔
      records.map Prod.fst = records'.map Prod.fst ∧
        indexedValues c records = indexedValues c records' := by
  rw [← fst_indexedRecords c, ← fst_indexedRecords c records', ← snd_indexedRecords,
    ← snd_indexedRecords]
  constructor
  · intro h
    rw [h]
    exact ⟨rfl, rfl⟩
  · rintro ⟨hfst, hsnd⟩
    rw [← List.zip_unzip (indexedRecords c records), ← List.zip_unzip (indexedRecords c records'),
      List.unzip_fst, List.unzip_snd, List.unzip_fst, List.unzip_snd, hfst, hsnd]

/-- **A rebuild notices a changed value, and nothing but that.** So it fails
exactly if the scans differ as records, unless they have the same values under
other identifiers: such a change goes by. -/
theorem rebuild_notices (x : Index I) (source : Source I) (hc : x.config.validate = .ok ())
    (hroom : source.first.length ≤ UInt32.size) :
    ((∃ cause, (x.rebuild source).result = .error (.sourceChanged cause)) ↔
        indexedValues x.config source.second ≠ indexedValues x.config source.first) ∧
      (((∃ cause, (x.rebuild source).result = .error (.sourceChanged cause)) ↔
          indexedRecords x.config source.second ≠ indexedRecords x.config source.first) ↔
        (indexedValues x.config source.second = indexedValues x.config source.first →
          source.second.map Prod.fst = source.first.map Prod.fst)) := by
  have hiff := sourceChanged_iff hc hroom
  refine ⟨hiff, ?_⟩
  rw [hiff, not_iff_not, indexedRecords_eq_iff]
  constructor
  · intro hagree hvalues
    exact (hagree.1 hvalues).1
  · intro hidentifiers
    exact ⟨fun hvalues => ⟨hidentifiers hvalues, hvalues⟩, And.right⟩

/-- A record that is gone from the second scan is noticed. -/
theorem rebuild_notices_shorter :
    ∃ cause, ((fresh {} : Index Nat).rebuild ⟨[(1, [97])], []⟩).result =
      .error (.sourceChanged cause) := by
  refine (rebuild_notices (fresh {}) ⟨[(1, [97])], []⟩ rfl ?_).1.2 ?_
  · decide
  · decide

/-- The same value under another identifier goes by. -/
theorem rebuild_of_other_identifier :
    ((fresh {} : Index Nat).rebuild ⟨[(1, [97])], [(2, [97])]⟩).result = .ok () ∧
      indexedRecords {} [((2 : Nat), [97])] ≠ indexedRecords {} [(1, [97])] := by
  constructor
  · rfl
  · decide

end Index

end WildcardIndex
