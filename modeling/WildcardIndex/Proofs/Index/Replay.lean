import Mathlib.Data.List.Basic
import WildcardIndex.Proofs.Index.Source
/-!
# The index — a rebuild is a replay

Inserting the records of a source one after the other makes slots, positions and
lengths together. A rebuild makes the lengths last, from the second scan, into
slots that are there from the start. As a slot made ahead makes no difference,
both come to the same index, set by set and slot by slot.
-/

namespace WildcardIndex

namespace LengthIndex

variable {b : Backend} {x : LengthIndex}

/-- Adds consecutive records under the lengths of some values, `n` being the
first. -/
def file (x : LengthIndex) (n : Nat) : List Bytes → LengthIndex
  | [] => x
  | v :: vs => (x.add n.toUInt32 v.length).file (n + 1) vs

theorem Valid.file_grow (h : x.Valid b) (k n : Nat) (vs : List Bytes) :
    (x.grow k).file n vs = (x.file n vs).grow k := by
  induction vs generalizing x n with
  | nil => rfl
  | cons v vs ih =>
    rw [file, file, h.add_grow]
    exact ih (h.add _ _) (n + 1)

theorem slots_le_file (x : LengthIndex) (n : Nat) (vs : List Bytes) :
    x.slots ≤ (x.file n vs).slots := by
  induction vs generalizing x n with
  | nil => exact Nat.le_refl _
  | cons v vs ih =>
    have := slots_add x n.toUInt32 v.length
    have := ih (x.add n.toUInt32 v.length) (n + 1)
    rw [file]
    omega

end LengthIndex

namespace Index

variable {I σ : Type} {x : Index I} {c : Config} {scan scan' : FirstScan I}
variable {rest : List (I × Bytes)} {source : Source I} {length length' : LengthIndex}

/-- The operations that insert some records, in order. -/
def inserts (records : List (I × Bytes)) : List (Operation I σ) :=
  records.map fun (i, v) => .insert i v

/-! ## The second scan -/

/-- A second scan that succeeds files what it has seen. -/
theorem scanSecond_eq_file {store : Store I} {seen n : Nat}
    (hscan : scanSecond c store length seen rest = .ok (length', n)) :
    length' = length.file seen (indexedValues c rest) := by
  induction rest generalizing length seen with
  | nil =>
    rw [scanSecond, Except.ok.injEq, Prod.mk.injEq] at hscan
    exact hscan.1.symm
  | cons e rest ih =>
    obtain ⟨i, v⟩ := e
    simp only [scanSecond] at hscan
    split at hscan
    · exact ih hscan
    · cases hscan

/-- What the first scan found longest has a slot once the values are filed. -/
theorem longest_lt_slots (length : LengthIndex) (n : Nat)
    (hscan : scanFirst c scan rest = .ok scan') (h : scan.longest < max 1 length.slots) :
    scan'.longest < max 1 (length.file n (indexedValues c rest)).slots := by
  induction rest generalizing scan length n with
  | nil =>
    rw [scanFirst, Except.ok.injEq] at hscan
    exact hscan ▸ h
  | cons e rest ih =>
    obtain ⟨i, v⟩ := e
    simp only [scanFirst] at hscan
    split at hscan
    · cases hscan
    · refine ih (length.add n.toUInt32 (indexedPart c v).length) (n + 1) hscan ?_
      have := LengthIndex.slots_add length n.toUInt32 (indexedPart c v).length
      simp only
      omega

/-- **The slots made ahead are those the values need**, so filing into them is
filing into none. -/
theorem file_lengthSlots (hscan : scanFirst c (scanNothing c) rest = .ok scan)
    (htotal : scan.store.totalSlots = rest.length) :
    (lengthSlots c scan).file 0 (indexedValues c rest) =
      (LengthIndex.empty c.backend).file 0 (indexedValues c rest) := by
  unfold lengthSlots
  split
  · rfl
  · rename_i hsome
    rw [LengthIndex.ofMaxLength, (LengthIndex.valid_empty c.backend).file_grow]
    refine LengthIndex.grow_of_lt ?_
    have hlongest := longest_lt_slots (.empty c.backend) 0 hscan Nat.zero_lt_one
    cases rest with
    | nil => exact absurd htotal hsome
    | cons e rest =>
      -- a record was filed, so there is a slot at least, and `longest` has one
      have hadd := LengthIndex.slots_add (.empty c.backend) 0 (indexedPart c e.2).length
      have hle := LengthIndex.slots_le_file
        ((LengthIndex.empty c.backend).add 0 (indexedPart c e.2).length) 1 (indexedValues c rest)
      change _ ≤ ((LengthIndex.empty c.backend).file 0 (indexedValues c (e :: rest))).slots at hle
      omega

/-! ## Inserting the records of the first scan -/

/-- A cleared index is a fresh one of its configuration. -/
theorem Valid.clear_eq (h : x.Valid) : x.clear.index = fresh x.config := by
  rw [Index.clear, fresh, Tables.clear, PositionalIndex.clear, LengthIndex.clear, Store.clear,
    h.tables.positional.backend, h.tables.length.backend, h.store.tombstones.backend_eq]
  rfl

/-- A value that gets a slot with nothing left in it is added to the tables. -/
theorem index_insert {tables : Tables} {store store' : Store I} {counters : Counters} {i : I}
    {v : Bytes} {r : Record} {reused : Bool}
    (hacquire : store.acquire i (indexedPart c v) = (.ok ⟨r, none, reused⟩, store')) :
    ((⟨c, tables, store, counters⟩ : Index I).insert i v).index =
      ⟨c, tables.add r (indexedPart c v), store',
        { counters with inserts := counters.inserts + 1 }⟩ := by
  simp only [insert, place, hacquire]

/-- **Inserting does what the first scan does**, as long as no slot waits, and
files the lengths besides. -/
theorem run_inserts (hfree : scan.store.free = []) (hscan : scanFirst c scan rest = .ok scan')
    (length : LengthIndex) (counters : Counters) :
    ((⟨c, ⟨scan.positional, length⟩, scan.store, counters⟩ : Index I).run
        (inserts rest : List (Operation I σ))).2 =
      ⟨c, ⟨scan'.positional, length.file scan.store.totalSlots (indexedValues c rest)⟩, scan'.store,
        { counters with inserts := counters.inserts + rest.length }⟩ := by
  induction rest generalizing scan length counters with
  | nil =>
    rw [scanFirst, Except.ok.injEq] at hscan
    subst hscan
    rfl
  | cons e rest ih =>
    obtain ⟨i, v⟩ := e
    by_cases hlt : scan.store.totalSlots < UInt32.size
    · have hacquire := Store.acquire_of_free_nil i (indexedPart c v) hfree
        (Store.toNat_toUInt32 hlt)
      simp only [scanFirst, hacquire] at hscan
      have hrest := ih rfl hscan (length.add scan.store.totalSlots.toUInt32 (indexedPart c v).length)
        { counters with inserts := counters.inserts + 1 }
      -- the next new slot comes right behind this one
      simp only [Store.totalSlots, Array.size_push] at hrest hacquire
      rw [inserts, List.map_cons, ← inserts, Index.run, Index.perform, index_insert hacquire,
        List.length_cons, Nat.add_comm rest.length, ← Nat.add_assoc]
      exact hrest
    · simp only [scanFirst, Store.acquire_of_full hfree hlt] at hscan
      cases hscan

/-- **A rebuild that goes through is a replay of its first scan**, with the
counters at zero. -/
theorem build_eq_replay (hc : c.validate = .ok ()) {y : Index I}
    (hbuild : (build c source).1 = .ok y) :
    y = { ((fresh c).run (inserts source.first : List (Operation I σ))).2 with counters := {} } := by
  have hvalues := build_values hc hbuild
  obtain ⟨scan, length, hscan, hsecond, rfl⟩ := build_eq_ok_iff.1 hbuild
  have htotal : scan.store.totalSlots = source.first.length :=
    (scanFirst_scanned hc hscan).totalSlots_eq
  have hrun : ((fresh c).run (inserts source.first : List (Operation I σ))).2 =
      ⟨c, ⟨scan.positional,
        (LengthIndex.empty c.backend).file 0 (indexedValues c source.first)⟩, scan.store,
        { inserts := 0 + source.first.length }⟩ := run_inserts rfl hscan _ {}
  rw [hrun, scanSecond_eq_file hsecond, hvalues, file_lengthSlots hscan htotal]

/-- **A rebuild is atomic and a replay.** An index some operations have led to
is left as it is by a rebuild that fails. One that goes through has found the
same values twice, and leaves the index that dropping every record and inserting
those of the first scan would, with the counters at zero. -/
theorem rebuild_replays {x₀ : Index I} (hc : withConfig c = .ok x₀) (ops : List (Operation I σ))
    (source : Source I) :
    let x := (x₀.run ops).2
    let rebuilt := x.rebuild source
    (∀ e, rebuilt.result = .error e → rebuilt.index = x) ∧
      (rebuilt.result = .ok () →
        source.first.length = source.second.length ∧
          indexedValues x.config source.first = indexedValues x.config source.second ∧
          rebuilt.index =
            { (x.run (.clear :: inserts source.first : List (Operation I σ))).2 with
              counters := {} }) := by
  intro x rebuilt
  obtain ⟨hvalidate, rfl⟩ := fresh_of_withConfig hc
  have hvalid : x.Valid := (valid_fresh hvalidate).run ops
  cases hbuild : (build x.config source).1 with
  | error e =>
    obtain ⟨hresult, hindex⟩ := rebuild_of_error hbuild
    refine ⟨fun _ _ => hindex, fun hok => ?_⟩
    rw [hresult] at hok
    cases hok
  | ok y =>
    obtain ⟨hresult, hindex⟩ := rebuild_of_ok hbuild
    have hvalues := build_values hvalid.config hbuild
    have hlength := congrArg List.length hvalues
    rw [length_indexedValues, length_indexedValues] at hlength
    refine ⟨fun e he => ?_, fun _ => ⟨hlength.symm, hvalues.symm, ?_⟩⟩
    · rw [hresult] at he
      cases he
    · rw [hindex, build_eq_replay (σ := σ) hvalid.config hbuild, Index.run, Index.perform,
        hvalid.clear_eq]

/-- A rebuild replaces one record by two. -/
theorem rebuild_of_two_records :
    let x := ((fresh {} : Index Nat).run [(.insert 1 [97] : Operation Nat Unit)]).2
    let rebuilt := x.rebuild (.stable [(2, []), (3, [98, 99])])
    rebuilt.result = .ok () ∧ rebuilt.index =
      { (x.run [(.clear : Operation Nat Unit), .insert 2 [], .insert 3 [98, 99]]).2 with
        counters := {} } := by
  intro x rebuilt
  have hresult : rebuilt.result = .ok () := rfl
  exact ⟨hresult, ((rebuild_replays (c := {}) rfl [(.insert 1 [97] : Operation Nat Unit)]
    (.stable [(2, []), (3, [98, 99])])).2 hresult).2.2⟩

end Index

end WildcardIndex
