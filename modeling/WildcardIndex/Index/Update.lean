import WildcardIndex.Index.Basic
/-!
# The index — inserting, deleting, replacing, compacting

A value is cut, given a slot, and only then added to the tables; if its slot
still held a value that was never purged, that one is taken out of the tables
first. Deleting only marks records. **Compacting is invisible to queries**: it
takes out of the tables what queries already leave out of their answers.
-/

namespace WildcardIndex

namespace Index

variable {I σ : Type}

/-- The event of cutting a value, if it had to be cut. -/
def truncationEvents (v kept : Bytes) : List Event :=
  if kept.length < v.length then [.truncated v.length kept.length] else []

/-- The events of getting a slot. -/
def slotEvents (a : Acquired) : List Event :=
  match a.stale with
  | some v => [.scrubbing a.record v.length]
  | none => if a.reused then [.reusing a.record] else []

/-- The event of making room for a length, if there was none. -/
def growthEvents (x : LengthIndex) (n : Nat) : List Event :=
  if n < x.slots then [] else [.lengthsGrow x.slots (n + 1)]

/-- Puts a value into a slot and into the tables. The counters stay. **A
failure leaves the index as it was.** -/
def place (x : Index I) (identifier : I) (v : Bytes) : Outcome I (Except Error Record) :=
  let ⟨config, tables, store, counters⟩ := x
  let kept := indexedPart config v
  let cut := truncationEvents v kept
  match store.acquire identifier kept with
  | (.error e, store) => ⟨.error e, ⟨config, tables, store, counters⟩, cut⟩
  | (.ok a, store) =>
    let tables := match a.stale with
      | some stale => tables.remove a.record stale
      | none => tables
    let growth := growthEvents tables.length kept.length
    let tables := tables.add a.record kept
    ⟨.ok a.record, ⟨config, tables, store, counters⟩, cut ++ slotEvents a ++ growth⟩

/-- Indexes a value under an identifier and gives it a record. A value over the
maximum indexed length is cut, and what is cut off cannot be matched. -/
def insert (x : Index I) (identifier : I) (v : Bytes) : Outcome I (Except Error Record) :=
  match x.place identifier v with
  | ⟨.ok r, ⟨config, tables, store, counters⟩, events⟩ =>
    ⟨.ok r, ⟨config, tables, store, { counters with inserts := counters.inserts + 1 }⟩, events⟩
  | failed => failed

/-- Asks a predicate about records one after the other, its state going from
each to the next: the records it chose, and its state at the end. -/
def choose (p : σ → I → Bool × σ) (s : σ) : List (Record × I) → List Record × σ
  | [] => ([], s)
  | (r, identifier) :: rest =>
    let (chosen, s) := p s identifier
    let (others, s) := choose p s rest
    (if chosen then r :: others else others, s)

/-- Enough records are tombstoned to call for a compaction. -/
def needsCompaction (x : Index I) : Bool :=
  x.config.compactionThreshold ≤ x.store.tombstoneCount

/-- Takes every tombstoned record out of the tables and says how many there
were. With none there is nothing to do, and it does not count. -/
def compact (x : Index I) : Outcome I Nat :=
  let ⟨config, tables, store, counters⟩ := x
  let pending := store.tombstoneCount
  if pending = 0 then ⟨0, ⟨config, tables, store, counters⟩, []⟩
  else
    let (gone, store) := store.drain
    let done := counters.compactions + 1
    ⟨pending, ⟨config, tables.subtract gone, store, { counters with compactions := done }⟩,
      [.compactionStarted pending, .compactionFinished pending done]⟩

/-- Compacts if enough records are tombstoned. -/
def compactIfNeeded (x : Index I) : Outcome I Nat :=
  if x.needsCompaction then x.compact else ⟨0, x, []⟩

/-- Compacts if enough records are tombstoned and the index does so by itself. -/
def compactAfterwards (x : Index I) : Outcome I Nat :=
  if x.config.autoCompact then x.compactIfNeeded else ⟨0, x, []⟩

/-- Marks the chosen ones of some records deleted: how many, and the state of
the predicate at the end. -/
def markChosen (store : Store I) (p : σ → I → Bool × σ) (s : σ) (among : List (Record × I)) :
    Nat × σ × Store I :=
  let (chosen, s) := choose p s among
  let (removed, store) := store.tombstoneAll chosen
  (removed, s, store)

/-- Deletes every live record whose identifier a predicate chooses. The
predicate sees each live record once, by ascending record; the result is how
many it chose, with its state at the end. -/
def delete (x : Index I) (p : σ → I → Bool × σ) (s : σ) : Outcome I (Nat × σ) :=
  let ⟨config, tables, store, counters⟩ := x
  let (removed, s, store) := markChosen store p s store.live
  let event := Event.deleted removed store.tombstoneCount
  let counters := { counters with deletes := counters.deletes + removed }
  let ⟨_, x, compaction⟩ := compactAfterwards ⟨config, tables, store, counters⟩
  ⟨(removed, s), x, event :: compaction⟩

/-- Puts a new record in the place of every live record whose identifier a
predicate chooses. **The new record comes first and is never chosen**, so a
failure leaves the index as it was. -/
def replace (x : Index I) (p : σ → I → Bool × σ) (s : σ) (identifier : I) (v : Bytes) :
    Outcome I (Except Error Record × σ) :=
  match x.place identifier v with
  | ⟨.error e, x, events⟩ => ⟨(.error e, s), x, events⟩
  | ⟨.ok r, ⟨config, tables, store, counters⟩, events⟩ =>
    let (removed, s, store) := markChosen store p s (store.live.filter (·.1 != r))
    let counters := { counters with updates := counters.updates + 1 }
    let ⟨_, x, compaction⟩ := compactAfterwards ⟨config, tables, store, counters⟩
    ⟨(.ok r, s), x, events ++ .replaced r removed :: compaction⟩

/-- Drops every record and starts counting anew; the configuration stays. -/
def clear (x : Index I) : Outcome I Unit :=
  ⟨(), ⟨x.config, x.tables.clear, x.store.clear, {}⟩, [.cleared]⟩

end Index

end WildcardIndex
