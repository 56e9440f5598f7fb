import WildcardIndex.Index.Update
/-!
# The index — rebuilding it from a source

A source is scanned twice: once for the slots, the positions and the longest
length, and once more for the lengths, whose slots can then be made in one go.
The second scan is held against the slots of the first, value by value.
**Nothing of the index is given up before both scans have been read.**
-/

namespace WildcardIndex

/-- What the host has to index: the records of each of its two scans. -/
structure Source (I : Type) where
  /-- The records, as the first scan finds them. -/
  first : List (I × Bytes)
  /-- The records, as the second scan finds them. -/
  second : List (I × Bytes)

/-- A source that does not change between scans. -/
def Source.stable {I : Type} (records : List (I × Bytes)) : Source I := ⟨records, records⟩

namespace Index

variable {I : Type}

/-- What the first scan builds. -/
structure FirstScan (I : Type) where
  /-- The slots. -/
  store : Store I
  /-- The positions. -/
  positional : PositionalIndex
  /-- The longest indexed length. -/
  longest : Nat
  /-- How many values were cut. -/
  truncated : Nat

/-- Takes in the records of the first scan. -/
def scanFirst (c : Config) (scan : FirstScan I) : List (I × Bytes) → Except Error (FirstScan I)
  | [] => .ok scan
  | (identifier, v) :: rest =>
    let ⟨store, positional, longest, truncated⟩ := scan
    let kept := indexedPart c v
    match store.acquire identifier kept with
    | (.error e, _) => .error e
    | (.ok a, store) =>
      scanFirst c
        { store := store
          positional := positional.add a.record kept
          longest := max longest kept.length
          truncated := if kept.length < v.length then truncated + 1 else truncated } rest

/-- Takes in the records of the second scan, of which `seen` came before. Each
has to have the value of its slot. -/
def scanSecond (c : Config) (store : Store I) (length : LengthIndex) (seen : Nat) :
    List (I × Bytes) → Except Error (LengthIndex × Nat)
  | [] => .ok (length, seen)
  | (_, v) :: rest =>
    let kept := indexedPart c v
    if store.value? seen.toUInt32 = some kept then
      scanSecond c store (length.add seen.toUInt32 kept.length) (seen + 1) rest
    else .error (.sourceChanged (.differs seen))

/-- The length slots for the values of a first scan. -/
def lengthSlots (c : Config) (scan : FirstScan I) : LengthIndex :=
  if scan.store.totalSlots = 0 then .empty c.backend else .ofMaxLength c.backend scan.longest

/-- Reads both scans of a source: the index they make, and the events on the
way there, which a failure does not take back. -/
def build (c : Config) (source : Source I) : Except Error (Index I) × List Event :=
  let started := Event.rebuildStarted c.backend
  match scanFirst c ⟨.empty c.backend, .empty c.backend, 0, 0⟩ source.first with
  | .error e => (.error e, [started])
  | .ok scan =>
    let growth := if scan.store.totalSlots = 0 then [] else growthEvents (.empty c.backend) scan.longest
    match scanSecond c scan.store (lengthSlots c scan) 0 source.second with
    | .error e => (.error e, started :: growth)
    | .ok (length, seen) =>
      if seen = scan.store.totalSlots then
        let cut := if 0 < scan.truncated then
          [Event.rebuildTruncated scan.truncated c.maxIndexedLength] else []
        (.ok ⟨c, ⟨scan.positional, length⟩, scan.store, {}⟩,
          started :: growth ++ cut ++ [.rebuildFinished seen scan.longest])
      else (.error (.sourceChanged (.shorter scan.store.totalSlots seen)), started :: growth)

/-- Replaces what an index holds by the records of a source. **A failure leaves
the index as it was.** -/
def rebuild (x : Index I) (source : Source I) : Outcome I (Except Error Unit) :=
  match build x.config source with
  | (.ok rebuilt, events) => ⟨.ok (), rebuilt, events⟩
  | (.error e, events) => ⟨.error e, x, events⟩

end Index

end WildcardIndex
