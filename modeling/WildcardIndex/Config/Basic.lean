import WildcardIndex.RecordSet.Backend
import WildcardIndex.Text.Quoted
/-!
# Configuration — the settings and which of them are acceptable

A configuration may hold any number and any word; `validate` says whether an
index can be made from it. Settings are checked in the order the sections are
written, and the first that is out of bounds is reported.
-/

namespace WildcardIndex

/-- The settings of an index. -/
structure Config where
  /-- Longer values are cut to this many bytes before they are indexed. -/
  maxIndexedLength : Nat := 256
  /-- The number of tombstones that calls for a compaction. -/
  compactionThreshold : Nat := 1000
  /-- Deleting compacts by itself when it is called for. -/
  autoCompact : Bool := true
  /-- The representation of every record set. -/
  backend : Backend := .roaring
  /-- The level of the events worth keeping. -/
  logLevel : String := "info"
  deriving DecidableEq, Inhabited, Repr

/-- A setting that no index can be made with. -/
inductive Unacceptable where
  /-- The maximum indexed length is zero or over the limit. -/
  | maxIndexedLength (n : Nat)
  /-- The compaction threshold is zero. -/
  | compactionThreshold
  /-- The log level is not one of the five. -/
  | logLevel (level : String)
  deriving DecidableEq, Repr

namespace Config

/-- The longest maximum indexed length. -/
def maxIndexedLengthLimit : Nat := 65535

/-- The log levels, from the fewest events to the most. -/
def logLevels : List String := ["error", "warn", "info", "debug", "trace"]

/-- Whether an index can be made from a configuration, and if not, the first
setting that is in the way. -/
def validate (c : Config) : Except Unacceptable Unit :=
  if ¬ (1 ≤ c.maxIndexedLength ∧ c.maxIndexedLength ≤ maxIndexedLengthLimit) then
    .error (.maxIndexedLength c.maxIndexedLength)
  else if c.compactionThreshold = 0 then .error .compactionThreshold
  else if !logLevels.contains c.logLevel then .error (.logLevel c.logLevel)
  else .ok ()

end Config

namespace Unacceptable

/-- The setting, by section and key. -/
def key : Unacceptable → String
  | maxIndexedLength _ => "index.max_indexed_length"
  | compactionThreshold => "index.compaction_threshold"
  | logLevel _ => "logging.level"

/-- What is wrong with it. -/
def complaint : Unacceptable → String
  | maxIndexedLength n =>
    "value " ++ toString n ++ " is out of range [1, "
      ++ toString Config.maxIndexedLengthLimit ++ "]"
  | compactionThreshold => "value must be >= 1"
  | logLevel level =>
    "value '" ++ level ++ "' is invalid, expected one of: " ++ Text.quotedList Config.logLevels

/-- The setting and what is wrong with it. -/
def message (u : Unacceptable) : String :=
  "Invalid configuration value for '" ++ u.key ++ "': " ++ u.complaint

end Unacceptable

end WildcardIndex
