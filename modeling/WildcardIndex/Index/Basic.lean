import WildcardIndex.Config.Basic
import WildcardIndex.Event
import WildcardIndex.Store.Basic
import WildcardIndex.Tables
/-!
# The index — its state, and what an operation gives back

An index is its configuration, the tables queries read, the store that says
which records are live, and four counters. Every set in it has the backend of
the configuration.
-/

namespace WildcardIndex

/-- How often an index was changed since it was made, cleared or rebuilt. The
counters are numbers without a bound. Counters of 64 bits agree with them while
an index was changed less than 2^64 times, and what is said of them holds up to
there. -/
structure Counters where
  /-- Values inserted. -/
  inserts : Nat := 0
  /-- Replacements made. -/
  updates : Nat := 0
  /-- Records deleted, replacements apart. -/
  deletes : Nat := 0
  /-- Compactions that had something to purge. -/
  compactions : Nat := 0
  deriving DecidableEq, Inhabited, Repr

/-- An index of byte strings under identifiers of type `I`. -/
structure Index (I : Type) where
  /-- The settings it was made with. -/
  config : Config
  /-- The records by their values. -/
  tables : Tables
  /-- The slots of the records. -/
  store : Store I
  /-- How often it was changed. -/
  counters : Counters

/-- What an operation gives back: its result, the index after it, and the
events of its work in order. -/
structure Outcome (I α : Type) where
  /-- The result. -/
  result : α
  /-- The index after the operation. -/
  index : Index I
  /-- What happened. -/
  events : List Event

namespace Index

variable {I : Type}

/-- An index of nothing, its configuration taken as it is. -/
def fresh (c : Config) : Index I where
  config := c
  tables := .empty c.backend
  store := .empty c.backend
  counters := {}

/-- An index of nothing, if the configuration is acceptable. -/
def withConfig (c : Config) : Except Error (Index I) :=
  match c.validate with
  | .ok () => .ok (fresh c)
  | .error u => .error (.badConfiguration u.message)

/-- The number of live records. -/
def size (x : Index I) : Nat := x.store.activeRecords

/-- No record is live. -/
def isEmpty (x : Index I) : Bool := x.size == 0

/-- The identifier of a live record. -/
def identifier? (x : Index I) (r : Record) : Option I :=
  if x.store.state? r = some .live then x.store.identifier? r else none

/-- The part of a value that is indexed: its first bytes, up to the maximum
indexed length. -/
def indexedPart (c : Config) (v : Bytes) : Bytes := v.take c.maxIndexedLength

end Index

end WildcardIndex
