import WildcardIndex.Config.Basic
import WildcardIndex.Toml.Sections
/-!
# Configuration — its settings by name

A setting goes by the section it belongs to and by its key there.
-/

namespace WildcardIndex

/-- The settings of a configuration. -/
inductive Setting where
  /-- The maximum indexed length. -/
  | maxIndexedLength
  /-- The number of tombstones that calls for a compaction. -/
  | compactionThreshold
  /-- Whether deleting compacts by itself. -/
  | autoCompact
  /-- The representation of the record sets. -/
  | backend
  /-- The level of the events worth keeping. -/
  | logLevel
  deriving DecidableEq, Repr

namespace Setting

/-- The section of a setting. -/
def group : Setting → String
  | maxIndexedLength | compactionThreshold | autoCompact => "index"
  | backend => "bitmap"
  | logLevel => "logging"

/-- The key of a setting in its section. -/
def key : Setting → String
  | maxIndexedLength => "max_indexed_length"
  | compactionThreshold => "compaction_threshold"
  | autoCompact => "auto_compact"
  | backend => "backend"
  | logLevel => "level"

/-- The value of a setting. -/
def value (c : Config) : Setting → Toml.Scalar
  | maxIndexedLength => .count c.maxIndexedLength
  | compactionThreshold => .count c.compactionThreshold
  | autoCompact => .flag c.autoCompact
  | backend => .word c.backend.name
  | logLevel => .word c.logLevel

/-- A setting as an entry of its section. -/
def entry (c : Config) (x : Setting) : String × Toml.Scalar := (x.key, x.value c)

end Setting

end WildcardIndex
