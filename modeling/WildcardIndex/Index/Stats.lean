import WildcardIndex.Index.Basic
/-!
# The index — counters and sizes

The statistics of an index, and their text: an object with one line a field,
indented by two blanks.
-/

namespace WildcardIndex

/-- The counters and sizes of an index at one moment. -/
structure Stats where
  /-- Records visible to queries. -/
  activeRecords : Nat
  /-- Slots ever made. -/
  totalSlots : Nat
  /-- Slots waiting for a value. -/
  freeSlots : Nat
  /-- Deleted records that were not purged yet. -/
  tombstones : Nat
  /-- The longest indexed length. -/
  maxLength : Nat
  /-- Values inserted. -/
  inserts : Nat
  /-- Replacements made. -/
  updates : Nat
  /-- Records deleted. -/
  deletes : Nat
  /-- Compactions done. -/
  compactions : Nat
  /-- Positions over all bytes and both directions. -/
  positionEntries : Nat
  /-- Lengths with a slot. -/
  lengthSlots : Nat
  /-- Bytes the sets and the cached values take. -/
  memoryBytes : Nat
  /-- The backend of the sets. -/
  backend : Backend
  deriving DecidableEq, Repr

/-- Identifiers that are kept in slots, and the bytes such a slot takes besides
its value. -/
class SlotSized (I : Type) where
  /-- The bytes of a slot with its identifier, its value apart. -/
  slotBytes : Nat

namespace Index

variable {I : Type}

/-- The statistics of an index. -/
def stats [SlotSized I] (x : Index I) : Stats where
  activeRecords := x.store.activeRecords
  totalSlots := x.store.totalSlots
  freeSlots := x.store.freeSlots
  tombstones := x.store.tombstoneCount
  maxLength := x.tables.length.maxLength
  inserts := x.counters.inserts
  updates := x.counters.updates
  deletes := x.counters.deletes
  compactions := x.counters.compactions
  positionEntries := x.tables.positional.entryCount
  lengthSlots := x.tables.length.slots
  memoryBytes := x.tables.byteSize + x.store.byteSize (SlotSized.slotBytes I)
  backend := x.tables.positional.backend

end Index

namespace Stats

/-- The numbers, by name, in the order they are shown. -/
def numbers (s : Stats) : List (String × Nat) :=
  [("active_records", s.activeRecords), ("total_slots", s.totalSlots),
    ("free_slots", s.freeSlots), ("tombstones", s.tombstones), ("max_length", s.maxLength),
    ("insert_count", s.inserts), ("update_count", s.updates), ("delete_count", s.deletes),
    ("compaction_count", s.compactions), ("position_entries", s.positionEntries),
    ("length_slots", s.lengthSlots), ("memory_bytes", s.memoryBytes)]

/-- The statistics as text. -/
def json (s : Stats) : String :=
  let fields := s.numbers.map (fun (name, n) => "  \"" ++ name ++ "\": " ++ toString n)
    ++ ["  \"backend\": \"" ++ s.backend.name ++ "\""]
  "\x7b\n" ++ ",\n".intercalate fields ++ "\n\x7d"

end Stats

end WildcardIndex
