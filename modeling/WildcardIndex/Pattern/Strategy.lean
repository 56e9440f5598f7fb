import WildcardIndex.Pattern.Basic
/-!
# Patterns — the strategy a shape calls for

How a pattern is answered depends on the number of its parts and on the two
runs at its ends, never on what is indexed.
-/

namespace WildcardIndex

/-- The ways of answering a pattern. -/
inductive Strategy where
  /-- The empty pattern: the empty values. -/
  | emptyString
  /-- Runs only: every value. -/
  | matchAll
  /-- One part, no run. -/
  | exact
  /-- One part with a run after it. -/
  | startingWith
  /-- One part with a run before it. -/
  | endingWith
  /-- One part between two runs. -/
  | substring
  /-- Two parts or more, placed one after the other. -/
  | windowed
  deriving DecidableEq, Repr

namespace Strategy

/-- The word for a strategy in plans and events. -/
def name : Strategy → String
  | emptyString => "empty_string"
  | matchAll => "match_all"
  | exact => "exact"
  | startingWith => "prefix"
  | endingWith => "suffix"
  | substring => "substring"
  | windowed => "windowed"

end Strategy

/-- The strategy for a pattern. -/
def Pattern.strategy (p : Pattern) : Strategy :=
  if p.isEmpty then .emptyString
  else match p.parts, p.startsWithRun, p.endsWithRun with
    | [], _, _ => .matchAll
    | [_], false, false => .exact
    | [_], false, true => .startingWith
    | [_], true, false => .endingWith
    | [_], true, true => .substring
    | _, _, _ => .windowed

end WildcardIndex
