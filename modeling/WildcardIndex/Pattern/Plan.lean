import WildcardIndex.Pattern.Strategy
import WildcardIndex.Text.Lossy
import WildcardIndex.Text.Quoted
/-!
# Patterns — the plan shown to a reader

A plan says how a pattern will be answered, with its parts as text. Making one
touches no index.
-/

namespace WildcardIndex

/-- How a pattern will be answered. -/
structure Plan where
  /-- The strategy chosen. -/
  strategy : Strategy
  /-- The parts, as text. -/
  parts : List String
  /-- The length of the shortest value that can match. -/
  minLength : Nat
  /-- A run is allowed before the first part. -/
  startsWithRun : Bool
  /-- A run is allowed after the last part. -/
  endsWithRun : Bool
  deriving DecidableEq, Repr

/-- The text of a part. -/
def Part.text (p : Part) : String := Text.lossy p.bytes

/-- The plan for a pattern. -/
def Pattern.plan (p : Pattern) : Plan where
  strategy := p.strategy
  parts := p.parts.map Part.text
  minLength := p.minLength
  startsWithRun := p.startsWithRun
  endsWithRun := p.endsWithRun

/-- A plan on one line: the strategy, the quoted parts, the shortest length. -/
def Plan.describe (p : Plan) : String :=
  p.strategy.name ++ " parts=" ++ Text.quotedList p.parts ++ " min_len=" ++ toString p.minLength

end WildcardIndex
