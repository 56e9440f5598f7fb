import WildcardIndex.Bytes
import WildcardIndex.Total
/-!
# Patterns — parts between runs

In a pattern `%` stands for any run of bytes, the empty run included, `_` for
exactly one byte, and every other byte for itself. What decides how a pattern
is answered is its **parts**: the non-empty stretches free of `%`, together
with whether a run is allowed before the first and after the last. Reading a
pattern never fails.
-/

namespace WildcardIndex

/-- The byte `%`: any run of bytes. -/
def anyRun : UInt8 := 37

/-- The byte `_`: any one byte. -/
def anyOne : UInt8 := 95

/-- A stretch of a pattern without `%`. It may hold `_`. -/
structure Part where
  /-- The bytes, `_` included. -/
  bytes : Bytes
  deriving DecidableEq, Repr

namespace Part

/-- The number of bytes a part takes in a value it matches. -/
def length (p : Part) : Nat := p.bytes.length

/-- A part without bytes. No pattern has one; a lookup may be asked for it. -/
def isEmpty (p : Part) : Bool := p.bytes.isEmpty

/-- The literal bytes with their offsets in the part, in order. -/
def literals (p : Part) : List (Nat × UInt8) :=
  p.bytes.zipIdx.filterMap fun (b, i) => if b = anyOne then none else some (i, b)

/-- Every byte is `_`; so the part fixes a length and nothing else. -/
def allWild (p : Part) : Bool := p.bytes.all (· == anyOne)

/-- The last byte is `_`, so the literals alone leave room for values that end
too early. -/
def wildTail (p : Part) : Bool := p.bytes.getLast? == some anyOne

/-- The first byte is `_`, so the literals alone leave room for values that
start too late. -/
def wildHead (p : Part) : Bool := p.bytes.head? == some anyOne

end Part

/-- A pattern, taken apart. -/
structure Pattern where
  /-- The bytes it was read from. -/
  source : Bytes
  /-- The non-empty parts between runs, in order. -/
  parts : List Part
  /-- The first byte is `%`. -/
  startsWithRun : Bool
  /-- The last byte is `%`. -/
  endsWithRun : Bool
  deriving DecidableEq, Repr

namespace Pattern

/-- The stretches between the `%` of a pattern, empty ones included: the first
and the others. -/
def segments (p : Bytes) : Bytes × List Bytes :=
  p.foldr (fun b (first, others) =>
    if b = anyRun then ([], first :: others) else (b :: first, others)) ([], [])

/-- Reads a pattern. Empty stretches are dropped, so a run of `%` counts as one. -/
def ofBytes (p : Bytes) : Pattern where
  source := p
  parts := (((segments p).1 :: (segments p).2).filter (!·.isEmpty)).map Part.mk
  startsWithRun := p.head? == some anyRun
  endsWithRun := p.getLast? == some anyRun

/-- The pattern without a byte, which only the empty value matches. -/
def isEmpty (p : Pattern) : Bool := p.source.isEmpty

/-- The length of the shortest value that can match. -/
def minLength (p : Pattern) : Nat := total Part.length p.parts

end Pattern

end WildcardIndex
