import WildcardIndex.Toml.Lexical
import WildcardIndex.Toml.Value
/-!
# TOML — dates and times

No setting is a date or a time, so of these only the shape matters: which
characters belong to one, and which are no date or time at all.
-/

namespace WildcardIndex.Toml

/-- A number of exactly `n` digits. -/
def fixed? (n : Nat) (cs : List Char) : Option (Nat × List Char) :=
  let ds := cs.take n
  if ds.length = n ∧ ds.all isDigit then some (digitsValue 10 ds, cs.drop n) else none

/-- A number of two digits between two bounds. -/
def twoDigits? (lo hi : Nat) (cs : List Char) : Option (Nat × List Char) :=
  (fixed? 2 cs).filter fun (n, _) => lo ≤ n && n ≤ hi

/-- The number of days of a month. -/
def daysOf (year month : Nat) : Nat :=
  if month = 2 then
    if (year % 4 = 0 ∧ year % 100 ≠ 0) ∨ year % 400 = 0 then 29 else 28
  else if month = 4 ∨ month = 6 ∨ month = 9 ∨ month = 11 then 30
  else 31

/-- Takes a date. -/
def date? (cs : List Char) : Option (List Char) := do
  let (year, cs) ← fixed? 4 cs
  let (month, cs) ← twoDigits? 1 12 (← char? '-' cs)
  let (_, cs) ← twoDigits? 1 (daysOf year month) (← char? '-' cs)
  return cs

/-- Takes the fraction of a second, if there is one. -/
def secondFraction (cs : List Char) : List Char :=
  match cs with
  | '.' :: d :: rest => if isDigit d then rest.dropWhile isDigit else cs
  | _ => cs

/-- Takes a time of day; a minute may have a leap second. -/
def time? (cs : List Char) : Option (List Char) := do
  let (_, cs) ← twoDigits? 0 23 cs
  let (_, cs) ← twoDigits? 0 59 (← char? ':' cs)
  let (_, cs) ← twoDigits? 0 60 (← char? ':' cs)
  return secondFraction cs

/-- Takes the distance from universal time, if there is one. -/
def zone (cs : List Char) : List Char :=
  match cs with
  | [] => []
  | c :: rest =>
    if c = 'Z' ∨ c = 'z' then rest
    else if c = '+' ∨ c = '-' then
      ((do
        let (_, rest) ← twoDigits? 0 23 rest
        let (_, rest) ← twoDigits? 0 59 (← char? ':' rest)
        return rest) : Option (List Char)).getD cs
    else cs

/-- Takes the time behind a date, if there is one. -/
def timeOfDay (cs : List Char) : List Char :=
  match cs with
  | c :: rest => if c = 'T' ∨ c = 't' ∨ c = ' ' then ((time? rest).map zone).getD cs else cs
  | [] => []

/-- A date, a time or both. -/
def moment? (cs : List Char) : Option (Value × List Char) :=
  match date? cs with
  | some rest => some (.moment, timeOfDay rest)
  | none => (time? cs).map fun rest => (.moment, rest)

end WildcardIndex.Toml
