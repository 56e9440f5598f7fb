import WildcardIndex.Error
import WildcardIndex.RecordSet.Basic
import WildcardIndex.Total
/-!
# The store — slots, tombstones and the free list

Three accounts of the same slots are kept side by side: the slots with their
cached values, the set of records deleted since the last purge with its size,
and the stack of slots waiting for a value. Every operation keeps them in step:
a slot is on the free list exactly while it is not live, and in the tombstones
exactly while it is deleted but still holds its value.

Memory is taken to suffice. The one operation that asks for more of it is
`acquire`, and where there is none to be had it fails with `Error.allocation`
before it changes anything; so what is said of the store below is said of one
that always has room for another slot, up to the last record number.
-/

namespace WildcardIndex

/-- The slots of an index and what is known about them. -/
structure Store (I : Type) where
  /-- The slots, by record. -/
  slots : Array (Slot I)
  /-- The records deleted since the last purge. -/
  tombstones : RecordSet
  /-- How many records were deleted since the last purge. -/
  tombstoneCount : Nat
  /-- The slots waiting for a value, the last freed one first. -/
  free : List Record

/-- What came of giving a value a slot. -/
structure Acquired where
  /-- The record the value has from now on. -/
  record : Record
  /-- The value the slot held when the sets had not been purged of it; it has
  to be taken out of them before the new one goes in. -/
  stale : Option Bytes
  /-- The slot was on the free list. -/
  reused : Bool
  deriving DecidableEq, Repr

namespace Store

variable {I : Type}

/-- A store without a slot. -/
def empty (b : Backend) : Store I where
  slots := #[]
  tombstones := .empty b
  tombstoneCount := 0
  free := []

/-- The number of slots ever made. -/
def totalSlots (s : Store I) : Nat := s.slots.size

/-- The number of slots waiting for a value. -/
def freeSlots (s : Store I) : Nat := s.free.length

/-- The number of live records: every slot that is not waiting. -/
def activeRecords (s : Store I) : Nat := s.totalSlots - s.freeSlots

/-- The state of a record's slot, if it has one. -/
def state? (s : Store I) (r : Record) : Option SlotState :=
  s.slots[r.toNat]?.map fun slot =>
    if slot.value.isNone then .vacant
    else if s.tombstones.contains r then .tombstoned
    else .live

/-- The identifier in a record's slot, left behind if it is not live. -/
def identifier? (s : Store I) (r : Record) : Option I :=
  s.slots[r.toNat]?.map Slot.identifier

/-- The cached value of a record. -/
def value? (s : Store I) (r : Record) : Option Bytes :=
  s.slots[r.toNat]?.bind Slot.value

/-- The live records with their identifiers, ascending. -/
def live (s : Store I) : List (Record × I) :=
  s.slots.toList.zipIdx.filterMap fun (slot, i) =>
    let r := i.toUInt32
    if slot.value.isSome && !s.tombstones.contains r then some (r, slot.identifier) else none

/-- Gives a value a slot: the last freed one, or a new one if none is free. There
is memory for a new one, so what can run out is the record numbers. **A failure
leaves the store as it was.** -/
def acquire (s : Store I) (identifier : I) (value : Bytes) : Except Error Acquired × Store I :=
  match s with
  | ⟨slots, tombstones, count, r :: free⟩ =>
    match slots[r.toNat]? with
    | none =>
      (.error (.invariantViolated (.freeSlotBeyond r slots.size)), ⟨slots, tombstones, count, r :: free⟩)
    | some slot =>
      let marked := tombstones.contains r
      (.ok ⟨r, slot.value, true⟩,
        { slots := slots.modify r.toNat fun _ => ⟨identifier, some value⟩
          tombstones := tombstones.erase r
          tombstoneCount := if marked then count - 1 else count
          free := free })
  | ⟨slots, tombstones, count, []⟩ =>
    if slots.size < UInt32.size then
      (.ok ⟨slots.size.toUInt32, none, false⟩,
        ⟨slots.push ⟨identifier, some value⟩, tombstones, count, []⟩)
    else
      (.error (.capacityExceeded slots.size), ⟨slots, tombstones, count, []⟩)

/-- Marks a record deleted, if it is live. -/
def tombstone (s : Store I) (r : Record) : Bool × Store I :=
  if s.state? r = some .live then
    let ⟨slots, tombstones, count, free⟩ := s
    (true, ⟨slots, tombstones.insert r, count + 1, r :: free⟩)
  else (false, s)

/-- Marks several records deleted: how many were live, and the store after. -/
def tombstoneAll (s : Store I) (rs : List Record) : Nat × Store I :=
  rs.foldl (fun (n, s) r =>
    let (marked, s) := s.tombstone r
    (if marked then n + 1 else n, s)) (0, s)

/-- Drops the cached values of the tombstoned slots and hands out their
records, for the sets to be purged of. -/
def drain (s : Store I) : RecordSet × Store I :=
  let ⟨slots, tombstones, _, free⟩ := s
  (tombstones,
    { slots := tombstones.toList.foldl
        (fun slots r => slots.modify r.toNat fun slot => { slot with value := none }) slots
      tombstones := .empty tombstones.backend
      tombstoneCount := 0
      free := free })

/-- The identifier of one record of an answer, which has to be live. -/
def resolveOne (s : Store I) (r : Record) : Except Error I :=
  match s.slots[r.toNat]?, s.state? r with
  | some slot, some .live => .ok slot.identifier
  | _, some state => .error (.invariantViolated (.notLive r state))
  | _, none => .error (.invariantViolated (.outOfRange r s.totalSlots))

/-- The identifiers of an answer, by ascending record. The first record that
is not live is reported. -/
def resolve (s : Store I) (records : RecordSet) : Except Error (List I) :=
  records.toList.mapM s.resolveOne

/-- The bytes the store takes, with `slotBytes` for a slot besides its value. -/
def byteSize (slotBytes : Nat) (s : Store I) : Nat :=
  total List.length (s.slots.toList.filterMap Slot.value)
    + s.slots.size * slotBytes + s.free.length * 4 + s.tombstones.byteSize

/-- Drops every slot. -/
def clear (s : Store I) : Store I := empty s.tombstones.backend

end Store

end WildcardIndex
