import WildcardIndex.Pattern.Strategy
import WildcardIndex.Query.Placement
/-!
# Queries — the answer to a pattern

Each strategy is a few combinations of the tables. No stored value is ever held
against the pattern.
-/

namespace WildcardIndex

namespace Tables

/-- The answer of the strategy for one part, to the part of a pattern. A
pattern without a part has no such answer. -/
def onPart (t : Tables) (p : Pattern) (f : Part → RecordSet) : RecordSet :=
  match p.parts with
  | part :: _ => f part
  | [] => t.nothing

/-- The records whose value matches a pattern, deleted ones included. -/
def candidates (t : Tables) (p : Pattern) : RecordSet :=
  match p.strategy with
  | .emptyString => (t.length.exactly? 0).getD t.nothing
  | .matchAll => t.length.all
  | .exact => t.onPart p t.exactly
  | .startingWith => t.onPart p fun part => t.longEnough (t.partAt part 0) part.length
  | .endingWith => t.onPart p fun part => t.longEnough (t.partAtEnd part) part.length
  | .substring => t.onPart p t.anywhere
  | .windowed => t.placed p

/-- The records whose value matches a pattern and that are not tombstoned. -/
def answer (t : Tables) (tombstones : RecordSet) (p : Pattern) : RecordSet :=
  if tombstones.isEmpty then t.candidates p else (t.candidates p).diff tombstones

end Tables

end WildcardIndex
