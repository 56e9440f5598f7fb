import WildcardIndex.Pattern.Strategy
import WildcardIndex.RecordSet.Backend
import WildcardIndex.RecordSet.Record
/-!
# Events — what an index says about its work

Operations hand out the events of their work as values, in the order they
happened; what is done with them is up to the caller. Reading an answer never
depends on them.
-/

namespace WildcardIndex

/-- How important an event is. -/
inductive Level where
  /-- Something failed. -/
  | error
  /-- Something was given up. -/
  | warn
  /-- A pass over the whole index. -/
  | info
  /-- One operation. -/
  | debug
  /-- A detail of one operation. -/
  | trace
  deriving DecidableEq, Repr

/-- The word for a level at the start of a line. -/
def Level.name : Level → String
  | error => "ERROR"
  | warn => "WARN"
  | info => "INFO"
  | debug => "DEBUG"
  | trace => "TRACE"

/-- What happened. -/
inductive Event where
  /-- A value was cut before it was indexed. -/
  | truncated (length kept : Nat)
  /-- A slot was reused before its old value had left the sets. -/
  | scrubbing (r : Record) (staleLength : Nat)
  /-- A slot was reused after its old value had left the sets. -/
  | reusing (r : Record)
  /-- The lengths with a slot became more. -/
  | lengthsGrow (before after : Nat)
  /-- Records were deleted; `tombstones` now wait to be purged. -/
  | deleted (removed tombstones : Nat)
  /-- A record took the place of others. -/
  | replaced (r : Record) (removed : Nat)
  /-- A compaction began. -/
  | compactionStarted (tombstones : Nat)
  /-- A compaction ended; it was the `compactions`-th. -/
  | compactionFinished (purged compactions : Nat)
  /-- A pattern was answered. -/
  | queried (pattern : String) (strategy : Strategy) (matching : Nat)
  /-- Every record was dropped. -/
  | cleared
  /-- A rebuild began. -/
  | rebuildStarted (backend : Backend)
  /-- A rebuild cut values. -/
  | rebuildTruncated (values kept : Nat)
  /-- A rebuild ended. -/
  | rebuildFinished (records maxLength : Nat)
  /-- An index was given a handle. -/
  | registered (handle records : Nat)
  /-- An index lost its handle. -/
  | unregistered (handle : Nat)
  deriving DecidableEq, Repr

namespace Event

/-- The importance of an event. -/
def level : Event → Level
  | truncated .. | rebuildTruncated .. => .warn
  | scrubbing .. | reusing .. | lengthsGrow .. => .trace
  | deleted .. | replaced .. | queried .. | registered .. | unregistered .. => .debug
  | compactionStarted .. | compactionFinished .. | cleared | rebuildStarted ..
  | rebuildFinished .. => .info

/-- The words for an event. -/
def text : Event → String
  | truncated .. => "value truncated to maximum indexed length"
  | scrubbing .. => "scrubbing reused slot"
  | reusing .. => "reusing compacted slot"
  | lengthsGrow .. => "length slots grow"
  | deleted .. => "delete pass finished"
  | replaced .. => "replace finished"
  | compactionStarted .. => "compaction started"
  | compactionFinished .. => "compaction finished"
  | queried .. => "query executed"
  | cleared => "index cleared"
  | rebuildStarted .. => "index rebuild started"
  | rebuildTruncated .. => "values truncated to maximum indexed length"
  | rebuildFinished .. => "rebuild finished"
  | registered .. => "index registered"
  | unregistered .. => "index removed"

/-- The name a handle is shown under. -/
def handleName (handle : Nat) : String := "index#" ++ toString handle

/-- The particulars of an event, by name. -/
def fields : Event → List (String × String)
  | truncated length kept => [("len", toString length), ("max", toString kept)]
  | scrubbing r staleLength =>
    [("record", toString r.toNat), ("stale_len", toString staleLength)]
  | reusing r => [("record", toString r.toNat)]
  | lengthsGrow before after => [("from", toString before), ("to", toString after)]
  | deleted removed tombstones =>
    [("removed", toString removed), ("tombstones", toString tombstones)]
  | replaced r removed => [("record", toString r.toNat), ("removed", toString removed)]
  | compactionStarted tombstones => [("tombstones", toString tombstones)]
  | compactionFinished purged compactions =>
    [("purged", toString purged), ("compactions", toString compactions)]
  | queried pattern strategy matching =>
    [("pattern", pattern), ("strategy", strategy.name), ("matches", toString matching)]
  | cleared => []
  | rebuildStarted backend => [("backend", backend.name)]
  | rebuildTruncated values kept => [("truncated", toString values), ("max", toString kept)]
  | rebuildFinished records maxLength =>
    [("records", toString records), ("max_length", toString maxLength)]
  | registered handle records =>
    [("handle", handleName handle), ("records", toString records)]
  | unregistered handle => [("handle", handleName handle)]

/-- An event on one line: level, words, particulars. -/
def line (e : Event) : String :=
  " ".intercalate
    (e.level.name :: e.text :: e.fields.map fun (name, value) => name ++ "=" ++ value)

end Event

end WildcardIndex
