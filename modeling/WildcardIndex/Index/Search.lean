import WildcardIndex.Index.Basic
import WildcardIndex.Pattern.Plan
import WildcardIndex.Query.Candidates
/-!
# The index — answering patterns

An answer is a set of live records, or their identifiers in an order of the
caller's choice. Identifiers that the order does not tell apart stay in the
order of their records.
-/

namespace WildcardIndex

namespace Index

variable {I : Type}

/-- The live records whose indexed value matches a pattern. -/
def matching (x : Index I) (pattern : Bytes) : RecordSet :=
  x.tables.answer x.store.tombstones (.ofBytes pattern)

/-- The event of answering a pattern with some records. -/
def queryEvent (pattern : Bytes) (found : RecordSet) : Event :=
  .queried (Text.lossy pattern) (Pattern.ofBytes pattern).strategy found.size

/-- The identifiers of some records, in the order of `compare`. -/
def identifiersBy (x : Index I) (compare : I → I → Ordering) (found : RecordSet) :
    Except Error (List I) :=
  (x.store.resolve found).map (·.mergeSort fun a b => (compare a b).isLE)

/-- The identifiers whose indexed value matches a pattern, in the order of
`compare`. -/
def matchingBy (x : Index I) (compare : I → I → Ordering) (pattern : Bytes) :
    Except Error (List I) :=
  x.identifiersBy compare (x.matching pattern)

/-- The identifiers whose indexed value matches a pattern, ascending. -/
def matchingIdentifiers [Ord I] (x : Index I) (pattern : Bytes) : Except Error (List I) :=
  x.matchingBy compare pattern

/-- How a pattern would be answered. -/
def explain (pattern : Bytes) : Plan := (Pattern.ofBytes pattern).plan

/-- The live records whose indexed value has a byte anywhere. -/
def containing (x : Index I) (b : UInt8) : RecordSet :=
  ((x.tables.positional.presence? b).getD (.empty x.tables.positional.backend)).diff
    x.store.tombstones

end Index

end WildcardIndex
