import Mathlib.Data.List.Basic
import WildcardIndex.Index.Rebuild
import WildcardIndex.Proofs.Index.Valid
/-!
# The index — what a rebuild holds

The first scan gives the records of a source their slots in order, so the slots
afterwards are the scan itself. The second scan files lengths only under records
whose value it has seen again; if it ends with the number of records there are,
every record is filed.
-/

namespace WildcardIndex

namespace Index

variable {I : Type} {c d : Config} {b : Backend} {r : Record} {scan scan' : FirstScan I}
variable {done rest : List (I × Bytes)} {n : Nat}

/-- What a record has once some records of a scan were taken in. -/
def scanned? (c : Config) (done : List (I × Bytes)) : Contents (I × Bytes) := fun r =>
  done[r.toNat]?.map fun (i, v) => (i, indexedPart c v)

/-- A first scan that has taken in some records: they have the first slots, in
order, and nothing else does. -/
structure Scanned (c : Config) (done : List (I × Bytes)) (scan : FirstScan I) : Prop where
  /-- The store is valid. -/
  store : scan.store.Valid c.backend
  /-- There is a slot for each record. -/
  totalSlots_eq : scan.store.totalSlots = done.length
  /-- No slot waits. -/
  free_eq : scan.store.free = []
  /-- No record is tombstoned. -/
  not_mem_tombstones : ∀ r, r ∉ scan.store.tombstones
  /-- The live records are those taken in. -/
  content?_eq : scan.store.content? = scanned? c done
  /-- The positions hold their values. -/
  positional : scan.positional.Represents c.backend scan.store.value?
  /-- The longest length is a length. -/
  longest_lt : scan.longest < Tables.positionLimit

theorem scanned_nil (c : Config) : Scanned c [] (⟨.empty c.backend, .empty c.backend, 0, 0⟩ :
    FirstScan I) where
  store := Store.valid_empty c.backend
  totalSlots_eq := rfl
  free_eq := rfl
  not_mem_tombstones _ := RecordSet.not_mem_empty
  content?_eq := by
    funext r
    rw [Store.content?_of_not_mem RecordSet.not_mem_empty]
    simp [Store.empty, scanned?]
  positional := by
    have hnone : (Store.empty c.backend : Store I).value? = Contents.none := by
      funext r
      simp [Store.empty, Store.value?, Contents.none]
    rw [hnone]
    exact PositionalIndex.represents_empty c.backend
  longest_lt := show 0 < Tables.positionLimit by decide

/-- Without tombstones a slot holds the value of its record. -/
theorem Scanned.value?_eq (h : Scanned c done scan) (r : Record) :
    scan.store.value? r = (scanned? c done r).map Prod.snd := by
  rw [← h.content?_eq, Store.content?_of_not_mem (h.not_mem_tombstones r), Store.value?]
  cases scan.store.slots[r.toNat]? with
  | none => rfl
  | some slot => cases hv : slot.value <;> simp [hv]

/-- Of the records taken in, one more is the last. -/
theorem scanned?_concat (c : Config) (done : List (I × Bytes)) (i : I) (v : Bytes)
    (hr : r.toNat = done.length) :
    scanned? c (done ++ [(i, v)]) =
      Contents.set (scanned? c done) r (some (i, indexedPart c v)) := by
  funext u
  by_cases hu : u = r
  · subst hu
    rw [Contents.set_self, scanned?, hr, List.getElem?_concat_length]
    rfl
  · have hne : u.toNat ≠ done.length := fun heq => hu (UInt32.toNat_inj.1 (heq.trans hr.symm))
    rw [Contents.set_of_ne hu, scanned?, scanned?]
    rcases Nat.lt_or_gt_of_ne hne with hlt | hgt
    · rw [List.getElem?_append_left hlt]
    · have hle : (done ++ [(i, v)]).length ≤ u.toNat := by
        rw [List.length_append, List.length_singleton]
        omega
      rw [List.getElem?_eq_none hle, List.getElem?_eq_none (by omega)]

/-- One record more is taken in right behind the others, as no slot waits. -/
theorem Scanned.concat (h : Scanned c done scan) (hc : c.validate = .ok ()) {i : I} {v : Bytes}
    {store : Store I} (hnext : scan.store.next? = some r)
    (htook : Store.Took c.backend i (indexedPart c v) r scan.store store) (truncated : Nat) :
    Scanned c (done ++ [(i, v)]) ⟨store, scan.positional.add r (indexedPart c v),
      max scan.longest (indexedPart c v).length, truncated⟩ := by
  -- nothing waits, so the record is the number of records so far
  have hr : r.toNat = done.length := by
    obtain ⟨-, hnat⟩ | ⟨free, hfree⟩ := Store.next?_cases hnext
    · exact hnat.trans h.totalSlots_eq
    · rw [h.free_eq] at hfree
      cases hfree
  have hnone : scan.store.value? r = none := by
    rw [h.value?_eq, ← h.content?_eq, htook.fresh, Option.map_none]
  have hlongest := h.longest_lt
  have hlength := length_indexedPart_lt hc v
  refine ⟨htook.valid, ?_, ?_, fun u hu => ?_, ?_, ?_, Nat.max_lt.2 ⟨hlongest, hlength⟩⟩
  · rw [htook.totalSlots_eq, h.totalSlots_eq, hr, List.length_append, List.length_singleton]
    omega
  · rw [htook.free_eq, h.free_eq, List.tail_nil]
  · exact h.not_mem_tombstones u ((htook.mem_tombstones u).1 hu).2
  · rw [htook.content?_eq, h.content?_eq, scanned?_concat c done i v hr]
  · rw [htook.value?_eq]
    exact h.positional.add hnone _

/-- **The first scan takes its records in one after the other.** -/
theorem scanFirst_spec (hc : c.validate = .ok ()) (h : Scanned c done scan)
    (hscan : scanFirst c scan rest = .ok scan') : Scanned c (done ++ rest) scan' := by
  induction rest generalizing done scan with
  | nil =>
    rw [scanFirst, Except.ok.injEq] at hscan
    rw [List.append_nil, ← hscan]
    exact h
  | cons x rest ih =>
    obtain ⟨i, v⟩ := x
    rw [List.append_cons]
    cases hnext : scan.store.next? with
    | none =>
      have hacquire := h.store.acquire_of_next?_eq_none hnext i (indexedPart c v)
      simp only [scanFirst, hacquire] at hscan
      cases hscan
    | some r =>
      obtain ⟨store', hacquire, htook⟩ := h.store.acquire_of_next? hnext i (indexedPart c v)
      simp only [scanFirst, hacquire] at hscan
      exact ih (h.concat hc hnext htook _) hscan

/-- What the lengths of a second scan hold after some of its records. -/
def scannedLength (store : Store I) (seen : Nat) : Contents Nat := fun r =>
  if r.toNat < seen then (store.value? r).map List.length else none

/-- A second scan that succeeds has seen one record for each it took in. -/
theorem scanSecond_eq {store : Store I} {length length' : LengthIndex} {seen n : Nat}
    (hscan : scanSecond c store length seen rest = .ok (length', n)) : n = seen + rest.length := by
  induction rest generalizing length seen with
  | nil =>
    rw [scanSecond, Except.ok.injEq, Prod.mk.injEq] at hscan
    exact hscan.2.symm
  | cons x rest ih =>
    obtain ⟨i, v⟩ := x
    simp only [scanSecond] at hscan
    split at hscan
    · rw [ih hscan, List.length_cons]
      omega
    · cases hscan

/-- **The second scan files the lengths of the records it sees**, as long as it
does not see more than there are. -/
theorem scanSecond_spec (hc : c.validate = .ok ()) {store : Store I} (hstore : store.Valid b)
    {length length' : LengthIndex} {seen n : Nat}
    (h : length.Represents b (scannedLength store seen)) (hslots : length.slots ≤ Tables.positionLimit)
    (hscan : scanSecond c store length seen rest = .ok (length', n)) (hn : n ≤ store.totalSlots) :
    length'.Represents b (scannedLength store n) ∧ length'.slots ≤ Tables.positionLimit := by
  induction rest generalizing length seen with
  | nil =>
    rw [scanSecond, Except.ok.injEq, Prod.mk.injEq] at hscan
    obtain ⟨rfl, rfl⟩ := hscan
    exact ⟨h, hslots⟩
  | cons x rest ih =>
    have hseen := scanSecond_eq hscan
    rw [List.length_cons] at hseen
    obtain ⟨i, v⟩ := x
    simp only [scanSecond] at hscan
    split at hscan
    · rename_i hvalue
      have hsize := hstore.size_le
      have hr : seen.toUInt32.toNat = seen := Store.toNat_toUInt32 (by omega)
      have hlength := length_indexedPart_lt hc v
      -- the record is the next one, and it has not been filed yet
      have hnone : scannedLength store seen seen.toUInt32 = none := by
        rw [scannedLength, hr, if_neg (Nat.lt_irrefl seen)]
      have hadd := h.add hnone (indexedPart c v).length
      have hset : (scannedLength store seen).set seen.toUInt32 (some (indexedPart c v).length) =
          scannedLength store (seen + 1) := by
        funext u
        by_cases hu : u = seen.toUInt32
        · subst hu
          rw [Contents.set_self, scannedLength, hr, if_pos (Nat.lt_succ_self seen), hvalue]
          rfl
        · have hne : u.toNat ≠ seen := fun heq => hu (UInt32.toNat_inj.1 (heq.trans hr.symm))
          rw [Contents.set_of_ne hu, scannedLength, scannedLength]
          by_cases hlt : u.toNat < seen
          · rw [if_pos hlt, if_pos (by omega)]
          · rw [if_neg hlt, if_neg (by omega)]
      rw [hset] at hadd
      refine ih hadd ?_ hscan
      rw [LengthIndex.slots_add]
      omega
    · cases hscan

/-- The slots made ahead hold nothing. -/
theorem represents_lengthSlots (h : Scanned c done scan) :
    (lengthSlots c scan).Represents c.backend (scannedLength scan.store 0) ∧
      (lengthSlots c scan).slots ≤ Tables.positionLimit := by
  have hnone : scannedLength scan.store 0 = Contents.none := by
    funext u
    exact if_neg (Nat.not_lt_zero _)
  have hlongest := h.longest_lt
  rw [hnone]
  unfold lengthSlots
  split
  · exact ⟨LengthIndex.represents_empty _, Nat.zero_le _⟩
  · refine ⟨(LengthIndex.represents_empty _).grow _, ?_⟩
    rw [LengthIndex.ofMaxLength, LengthIndex.slots_grow]
    simp only [LengthIndex.empty, LengthIndex.slots, Array.size_empty]
    omega

/-- An index that holds a scan and nothing else. -/
structure Rebuilt (c : Config) (records : List (I × Bytes)) (x : Index I) : Prop where
  /-- The index is valid. -/
  valid : x.Valid
  /-- It has the configuration. -/
  config_eq : x.config = c
  /-- The live records are those of the scan, in order, their values cut. -/
  content?_eq : x.store.content? = scanned? c records
  /-- There is no other slot. -/
  totalSlots_eq : x.store.totalSlots = records.length
  /-- No slot waits. -/
  free_eq : x.store.free = []
  /-- Counting starts anew. -/
  counters_eq : x.counters = {}

/-- **A rebuild that succeeds holds the first scan.** -/
theorem build_spec (hc : c.validate = .ok ()) {source : Source I} {x : Index I}
    (hbuild : (build c source).1 = .ok x) : Rebuilt c source.first x := by
  unfold build at hbuild
  simp only at hbuild
  split at hbuild
  · cases hbuild
  · rename_i scan hscan
    have hscanned := scanFirst_spec hc (scanned_nil c) hscan
    rw [List.nil_append] at hscanned
    split at hbuild
    · cases hbuild
    · rename_i length seen hsecond
      split at hbuild
      · rename_i hseen
        simp only [Except.ok.injEq] at hbuild
        subst hbuild
        obtain ⟨hlengths, hslots⟩ := represents_lengthSlots hscanned
        obtain ⟨hlength, hslots⟩ :=
          scanSecond_spec hc hscanned.store hlengths hslots hsecond (Nat.le_of_eq hseen)
        -- the second scan went as far as the slots, so it filed every value
        have hall : scannedLength scan.store seen = Tables.lengths scan.store.value? := by
          funext u
          unfold scannedLength Tables.lengths
          split
          · rfl
          · rename_i hlt
            cases hvalue : scan.store.value? u with
            | none => rfl
            | some v =>
              have := Store.lt_of_value? (s := scan.store) (r := u) (by rw [hvalue]; rfl)
              omega
        rw [hall] at hlength
        exact ⟨⟨hc, hscanned.store, hscanned.positional, hlength, hslots⟩, rfl,
          hscanned.content?_eq, hscanned.totalSlots_eq, hscanned.free_eq, rfl⟩
      · cases hbuild

end Index

end WildcardIndex
