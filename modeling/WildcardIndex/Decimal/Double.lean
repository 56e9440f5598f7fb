/-!
# Decimals — doubles, from digits and back

A number with a fraction is kept as the double nearest to what was written, and
shown with the fewest digits that name it again. Both directions are exact
arithmetic on natural numbers: reading rounds a quotient to the nearest, ties
to even; showing looks for the first decimal grid with a point in the interval
of the numbers that round to the double.
-/

namespace WildcardIndex

/-- A double: its sign apart, `mantissa * 2 ^ exponent` or one of the two
values beyond the numbers. -/
inductive Double where
  /-- A number, or a zero of either sign. -/
  | finite (negative : Bool) (mantissa : Nat) (exponent : Int)
  /-- Beyond the largest number. -/
  | infinite (negative : Bool)
  /-- No number. -/
  | notANumber
  deriving DecidableEq, Repr

namespace Double

/-- `num / den` to the nearest natural number, a tie to the even one. -/
def roundEven (num den : Nat) : Nat :=
  let q := num / den
  let r := num % den
  if den < 2 * r ∨ (2 * r = den ∧ q % 2 = 1) then q + 1 else q

/-- A power of two. -/
def twoTo (n : Nat) : Nat := Nat.pow 2 n

/-- A power of ten. -/
def tenTo (n : Nat) : Nat := Nat.pow 10 n

/-- `num / (den * 2 ^ e)` as a fraction. -/
def shifted (num den : Nat) (e : Int) : Nat × Nat :=
  if 0 ≤ e then (num, den * twoTo e.toNat) else (num * twoTo (-e).toNat, den)

/-- The least exponent of a mantissa. -/
def minExponent : Int := -1074

/-- The exponent that brings `num / den` to a mantissa of 53 bits, unless that
is below the least. -/
def exponentFor (num den : Nat) : Int :=
  let e : Int := (num.log2 : Int) - den.log2 - 53
  let (n, d) := shifted num den e
  max minExponent (if d * twoTo 53 ≤ n then e + 1 else e)

/-- The double nearest to a positive fraction. -/
def nearest (negative : Bool) (num den : Nat) : Double :=
  let e := exponentFor num den
  let (n, d) := shifted num den e
  let m := roundEven n d
  let (m, e) := if m = twoTo 53 then (twoTo 52, e + 1) else (m, e)
  if 971 < e then infinite negative else finite negative m e

/-- The double nearest to `digits * 10 ^ exponent`, where `digits` has `count`
decimal places. Exponents that settle the answer by themselves are never
expanded. -/
def ofDecimal (negative : Bool) (digits count : Nat) (exponent : Int) : Double :=
  if digits = 0 then finite negative 0 minExponent
  else if 400 < exponent then infinite negative
  else if (count : Int) + exponent < -400 then finite negative 0 minExponent
  else if 0 ≤ exponent then nearest negative (digits * tenTo exponent.toNat) 1
  else nearest negative digits (tenTo (-exponent).toNat)

/-- The ends of the interval of the numbers that round to `m * 2 ^ e`, and the
double itself, as numerators over one denominator. -/
def interval (m : Nat) (e : Int) : (Nat × Nat × Nat) × Nat :=
  let low := if m = twoTo 52 ∧ minExponent < e then 4 * m - 1 else 4 * m - 2
  let high := 4 * m + 2
  if 0 ≤ e then
    let s := twoTo e.toNat
    ((low * s, 4 * m * s, high * s), 4)
  else ((low, 4 * m, high), 4 * twoTo (-e).toNat)

/-- The point nearest to `m * 2 ^ e` of the grid of `10 ^ p`, the upper one of
two as near, if it rounds to that double. -/
def gridPoint? (m : Nat) (e p : Int) : Option Nat :=
  let ((low, value, high), den) := interval m e
  let unit := if 0 ≤ p then den * tenTo p.toNat else den
  let scale := if 0 ≤ p then 1 else tenTo (-p).toNat
  let below := value * scale / unit
  let inside := fun k =>
    let x := k * unit
    if m % 2 = 0 then low * scale ≤ x ∧ x ≤ high * scale else low * scale < x ∧ x < high * scale
  let nearBelow := 2 * (value * scale - below * unit) < unit
  let first := if nearBelow then below else below + 1
  let second := if nearBelow then below + 1 else below
  if inside first then some first else if inside second then some second else none

/-- An exponent of ten that no shortest digits lie above. -/
def topGrid (m : Nat) (e : Int) : Int :=
  ((m.log2 : Int) + e) * 30103 / 100000 + 1

/-- The fewest digits that name a double, as `digits * 10 ^ p`, looking at the
grids from `p` down. -/
def shortestFrom (m : Nat) (e : Int) : Nat → Int → Nat × Int
  | 0, p => (0, p)
  | grids + 1, p =>
    match gridPoint? m e p with
    | some digits => if digits = 0 then shortestFrom m e grids (p - 1) else (digits, p)
    | none => shortestFrom m e grids (p - 1)

/-- `digits * 10 ^ p` without an exponent. -/
def positional (digits : Nat) (p : Int) : String :=
  if 0 ≤ p then toString (digits * tenTo p.toNat)
  else
    let places := (-p).toNat
    let fraction := toString (digits % tenTo places)
    toString (digits / tenTo places) ++ "."
      ++ String.ofList (List.replicate (places - fraction.length) '0') ++ fraction

/-- A double without an exponent, by its fewest digits. -/
def text : Double → String
  | notANumber => "NaN"
  | infinite negative => if negative then "-inf" else "inf"
  | finite negative m e =>
    let sign := if negative then "-" else ""
    if m = 0 then sign ++ "0"
    else
      let (digits, p) := shortestFrom m e 20 (topGrid m e)
      sign ++ positional digits p

end Double

end WildcardIndex
