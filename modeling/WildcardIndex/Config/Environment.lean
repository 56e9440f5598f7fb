import WildcardIndex.Config.Given
import WildcardIndex.Text.Blank
import WildcardIndex.Toml.Number
import WildcardIndex.Toml.Quoted
/-!
# Configuration — settings in the environment

A variable whose name starts with `LIKEINDEX_`, in any case, gives a setting:
the rest of the name is its path, in lower case, with two underscores or a
point between components. A value is a truth value, a number, a string in
quotes, an array or a table if all of it reads as one, and otherwise the text it
is.
-/

namespace WildcardIndex.Environment

open Toml (Value Entries)

/-- What the names of settings start with. -/
def nameStart : List Char := "likeindex_".toList

/-- Points in the place of double underscores. -/
def withPoints : List Char → List Char
  | '_' :: '_' :: cs => '.' :: withPoints cs
  | c :: cs => c :: withPoints cs
  | [] => []

/-- The components between points: the first and the others. -/
def components (cs : List Char) : List (List Char) :=
  let (first, others) := cs.foldr (fun c (first, others) =>
    if c = '.' then ([], first :: others) else (c :: first, others)) ([], [])
  first :: others

/-- The path of the setting a name gives, if it gives one. -/
def path? (name : String) : Option (List String) :=
  let lower := (Text.trimmed name.toList).map Char.toLower
  if nameStart.isPrefixOf lower then
    let parts := components (withPoints (lower.drop nameStart.length))
    if parts.any List.isEmpty then none else some (parts.map String.ofList)
  else none

/-- Skips white space, line ends included. -/
def skipSpace (cs : List Char) : List Char := cs.dropWhile Text.isPlainBlank

/-- A character that ends a bare value. -/
def endsBare (c : Char) : Bool :=
  c == ',' || c == '\x7b' || c == '\x7d' || c == '[' || c == ']'

/-- The greatest number of 64 bits. -/
def maxUnsigned : Nat := 18446744073709551615

/-- The number of a run of digits, if there is nothing else. -/
def allDigits? (cs : List Char) : Option Nat :=
  if !cs.isEmpty && cs.all Toml.isDigit then some (Toml.digitsValue 10 cs) else none

/-- A whole number with a sign. -/
def integer? (cs : List Char) : Option Value :=
  let (negative, ds) := Toml.sign cs
  (allDigits? ds).bind fun n =>
    if negative then (if Toml.minInteger ≤ -(n : Int) then some (.signed (-(n : Int))) else none)
    else if n ≤ maxUnsigned then some (.unsigned n) else none

/-- A number with a point, perhaps with an exponent. A digit has to stand on one
side of the point. -/
def decimal? (cs : List Char) : Option Value :=
  let (negative, cs) := Toml.sign cs
  let whole := cs.takeWhile Toml.isDigit
  match cs.dropWhile Toml.isDigit with
  | '.' :: rest =>
    let places := rest.takeWhile Toml.isDigit
    let ds := whole ++ places
    let number := fun (e : Int) =>
      Value.float (.ofDecimal negative (Toml.digitsValue 10 ds) ds.length (e - places.length))
    if ds.isEmpty then none
    else
      match rest.dropWhile Toml.isDigit with
      | [] => some (number 0)
      | e :: cs =>
        if e = 'e' ∨ e = 'E' then
          let (down, ds) := Toml.sign cs
          (allDigits? ds).map fun n => number (if down then -(n : Int) else n)
        else none
  | _ => none

/-- A value without quotes or brackets. -/
def bare (cs : List Char) : Value :=
  let cs := Text.trimmed cs
  ((if cs.contains '.' then decimal? cs else none).or (integer? cs)).getD
    (.string (String.ofList cs))

/-- A character of a key without quotes. -/
def isBare (c : Char) : Bool := c.isAlphanum || c == '_' || c == '-'

/-- A key in braces. -/
def key? (cs : List Char) : Option (String × List Char) :=
  match skipSpace cs with
  | '\x22' :: cs => (Toml.basicBody cs).map fun (s, rest) => (String.ofList s, skipSpace rest)
  | cs =>
    let name := cs.takeWhile isBare
    if name.isEmpty then none
    else some (String.ofList name, skipSpace (cs.dropWhile isBare))

mutual

/-- A value, with the white space around it. -/
def value? (fuel : Nat) (cs : List Char) : Option (Value × List Char) :=
  match fuel with
  | 0 => none
  | fuel + 1 =>
    let found : Option (Value × List Char) :=
      match skipSpace cs with
      | 't' :: 'r' :: 'u' :: 'e' :: rest => some (.bool true, rest)
      | 'f' :: 'a' :: 'l' :: 's' :: 'e' :: rest => some (.bool false, rest)
      | '\x7b' :: cs => (pairs? fuel cs).map fun (es, rest) => (.table .inlined es, rest)
      | '[' :: cs => (items? fuel cs).map fun (vs, rest) => (.array false vs, rest)
      | '\x22' :: cs =>
        (Toml.basicBody cs).map fun (s, rest) => (.string (String.ofList s), rest)
      | '\'' :: c :: '\'' :: rest => some (.string c.toString, rest)
      | '\'' :: _ => none
      | cs => some (bare (cs.takeWhile (!endsBare ·)), cs.dropWhile (!endsBare ·))
    found.map fun (v, rest) => (v, skipSpace rest)

/-- The items of an array, up to its bracket. -/
def items? (fuel : Nat) (cs : List Char) : Option (List Value × List Char) :=
  match fuel, cs with
  | 0, _ => none
  | _, ']' :: rest => some ([], rest)
  | fuel + 1, cs => do
    let (v, cs) ← value? fuel cs
    match cs with
    | ',' :: cs =>
      let (vs, rest) ← items? fuel cs
      return (v :: vs, rest)
    | ']' :: rest => return ([v], rest)
    | _ => none

/-- The keys of a table with their values, up to its brace. Of a key given
twice the last counts. -/
def pairs? (fuel : Nat) (cs : List Char) : Option (Entries × List Char) :=
  match fuel, cs with
  | 0, _ => none
  | _, '\x7d' :: rest => some ([], rest)
  | fuel + 1, cs => do
    let (k, cs) ← key? cs
    let (v, cs) ← value? fuel (← Toml.char? '=' cs)
    match cs with
    | ',' :: cs =>
      let (es, rest) ← pairs? fuel cs
      return (if (es.lookup k).isSome then es else (k, v) :: es, rest)
    | '\x7d' :: rest => return ([(k, v)], rest)
    | _ => none

end

/-- The value a text stands for. -/
def value (text : String) : Value :=
  match value? (2 * text.length + 2) text.toList with
  | some (v, []) => v
  | _ => .string text

/-- A value below the components of a path. -/
def nested (v : Value) (path : List String) : Value :=
  path.foldr (fun k v => .table .inlined [(k, v)]) v

/-- What the variables of an environment give, the last one first. -/
def given (environment : List (String × String)) : Given :=
  let values := environment.filterMap fun (name, text) => (path? name).map (nested (value text))
  if values.isEmpty then [] else [(.environment, values.reverse)]

end WildcardIndex.Environment
