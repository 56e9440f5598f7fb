import WildcardIndex.Toml.Lexical
import WildcardIndex.Toml.Value
/-!
# TOML — numbers

Digits may be separated by single underscores. An integer has to fit 64 bits
with its sign; a number with a fraction or an exponent becomes a double.
-/

namespace WildcardIndex.Toml

/-- The digits that follow a digit, each perhaps behind one underscore. -/
def moreDigits (p : Char → Bool) : List Char → List Char × List Char
  | [] => ([], [])
  | '_' :: d :: cs =>
    if p d then
      let (ds, rest) := moreDigits p cs
      (d :: ds, rest)
    else ([], '_' :: d :: cs)
  | d :: cs =>
    if p d then
      let (ds, rest) := moreDigits p cs
      (d :: ds, rest)
    else ([], d :: cs)

/-- One digit or more. -/
def digits? (p : Char → Bool) : List Char → Option (List Char × List Char)
  | [] => none
  | d :: cs =>
    if p d then
      let (ds, rest) := moreDigits p cs
      some (d :: ds, rest)
    else none

/-- A sign, if there is one: whether it is a minus. -/
def sign : List Char → Bool × List Char
  | '-' :: cs => (true, cs)
  | '+' :: cs => (false, cs)
  | cs => (false, cs)

/-- The digits of a decimal number, without a leading zero. -/
def decimalDigits? : List Char → Option (List Char × List Char)
  | '0' :: cs => some (['0'], cs)
  | cs => digits? isDigit cs

/-- The least integer. -/
def minInteger : Int := -9223372036854775808

/-- The greatest integer. -/
def maxInteger : Int := 9223372036854775807

/-- An integer, if it fits. -/
def fitting? (n : Int) : Option Value :=
  if minInteger ≤ n ∧ n ≤ maxInteger then some (.signed n) else none

/-- A whole number behind the letter of its base. -/
def based? (base : Nat) (p : Char → Bool) (cs : List Char) : Option (Value × List Char) := do
  let (ds, rest) ← digits? p cs
  return (← fitting? (digitsValue base ds), rest)

/-- An integer. -/
def integer? : List Char → Option (Value × List Char)
  | '0' :: 'x' :: cs => based? 16 isHexDigit cs
  | '0' :: 'o' :: cs => based? 8 (fun c => '0' ≤ c && c ≤ '7') cs
  | '0' :: 'b' :: cs => based? 2 (fun c => c == '0' || c == '1') cs
  | cs => do
    let (negative, cs) := sign cs
    let (ds, rest) ← decimalDigits? cs
    let n : Int := digitsValue 10 ds
    return (← fitting? (if negative then -n else n), rest)

/-- An exponent: its value, if there is one. -/
def exponent? : List Char → Option (Int × List Char)
  | [] => none
  | e :: cs =>
    if e = 'e' ∨ e = 'E' then do
      let (negative, cs) := sign cs
      let (ds, rest) ← digits? isDigit cs
      let n : Int := digitsValue 10 ds
      return (if negative then -n else n, rest)
    else none

/-- The digits of a fraction behind its point, if there is one. -/
def fraction? : List Char → Option (List Char × List Char)
  | '.' :: cs => digits? isDigit cs
  | _ => none

/-- A number with a fraction, an exponent or both. A number beyond the largest
double is refused, unless it is negative. -/
def decimal? (cs : List Char) : Option (Value × List Char) := do
  let (negative, cs) := sign cs
  let (whole, cs) ← decimalDigits? cs
  let (places, exponent, rest) ← match fraction? cs with
    | some (places, cs) =>
      match exponent? cs with
      | some (e, rest) => some (places, e, rest)
      | none => some (places, 0, cs)
    | none => (exponent? cs).map fun (e, rest) => ([], e, rest)
  let ds := whole ++ places
  let x := Double.ofDecimal negative (digitsValue 10 ds) ds.length (exponent - places.length)
  if x = .infinite false then none else some (.float x, rest)

/-- One of the floats with a name. -/
def named? (cs : List Char) : Option (Value × List Char) :=
  let (negative, cs) := sign cs
  match cs with
  | 'i' :: 'n' :: 'f' :: rest => some (.float (.infinite negative), rest)
  | 'n' :: 'a' :: 'n' :: rest => some (.float .notANumber, rest)
  | _ => none

/-- A float. -/
def float? (cs : List Char) : Option (Value × List Char) := (decimal? cs).or (named? cs)

end WildcardIndex.Toml
