import WildcardIndex.Toml.Number
import WildcardIndex.Toml.Sections
/-!
# TOML — writing sections

Every section is written behind a header of its name, a key with its value on
each line, and an empty line stands between two sections. Names and keys are
written as they are, so they have to be bare. A number that no reader has room
for is not written.

A string is written in the plainest form that holds it: in double quotes if it
needs no escape but for tabs, else in single quotes, else in three double
quotes, else in three single quotes, and with escapes if none of these can hold
it. A string with a line end is written on several lines, behind a line end that
readers drop.
-/

namespace WildcardIndex.Toml

/-- The longest run of a character. -/
def longestRun (c : Char) (s : List Char) : Nat :=
  (s.foldl (fun (best, run) d => if d = c then (max best (run + 1), run + 1) else (best, 0))
    (0, 0)).1

/-- A control character that only an escape can stand for. -/
def needsEscape (c : Char) : Bool :=
  (c.toNat < 0x20 && c != '\t' && c != '\n') || c.toNat == 0x7F

/-- A number in four upper-case hexadecimal digits. -/
def fourHex (n : Nat) : List Char :=
  let digit := fun (d : Nat) => if d < 10 then Char.ofNat (48 + d) else Char.ofNat (55 + d)
  [digit (n / 4096 % 16), digit (n / 256 % 16), digit (n / 16 % 16), digit (n % 16)]

/-- A character between double quotes, on one line or on several. Of a run of
quotes, `quotes` more may stand as they are. -/
def basicChar (long : Bool) (quotes : Nat) (c : Char) : List Char :=
  if c = '\x22' then (if 0 < quotes then ['\x22'] else ['\\', '\x22'])
  else if c = '\\' then ['\\', '\\']
  else if c = '\x08' then ['\\', 'b']
  else if c = '\t' then ['\\', 't']
  else if c = '\n' then (if long then ['\n'] else ['\\', 'n'])
  else if c = '\x0c' then ['\\', 'f']
  else if c = '\r' then ['\\', 'r']
  else if c.toNat < 0x20 ∨ c.toNat = 0x7F then '\\' :: 'u' :: fourHex c.toNat
  else [c]

/-- How many quotes of a run may stand between three double quotes. -/
def quoteAllowance (long : Bool) : Nat := if long then 2 else 0

/-- The characters between double quotes. -/
def basicText (long : Bool) : Nat → List Char → List Char
  | _, [] => []
  | quotes, c :: s =>
    let left := if c = '\x22' ∧ 0 < quotes then quotes - 1 else quoteAllowance long
    basicChar long quotes c ++ basicText long left s

/-- The forms of a string. -/
inductive StringForm where
  /-- In double quotes, with escapes. -/
  | basic
  /-- In single quotes, as it is. -/
  | literal
  /-- In three double quotes, with escapes. -/
  | longBasic
  /-- In three single quotes, as it is. -/
  | longLiteral
  deriving DecidableEq, Repr

/-- The plainest form that holds a string. -/
def stringForm (s : List Char) : StringForm :=
  let controls := s.any needsEscape
  let backslash := s.contains '\\'
  let lines := s.contains '\n'
  let doubles := longestRun '\x22' s
  let singles := longestRun '\'' s
  if !controls && !backslash && doubles = 0 && !lines then .basic
  else if !controls && singles = 0 && !lines then .literal
  else if !controls && !backslash && doubles ≤ 2 then .longBasic
  else if !controls && singles ≤ 2 then .longLiteral
  else if lines then .longBasic
  else .basic

/-- A string as it is written. -/
def stringText (s : List Char) : List Char :=
  let first := if s.contains '\n' then ['\n'] else []
  match stringForm s with
  | .basic => ['\x22'] ++ basicText false 0 s ++ ['\x22']
  | .literal => ['\''] ++ s ++ ['\'']
  | .longBasic =>
    ['\x22', '\x22', '\x22'] ++ first ++ basicText true 2 s ++ ['\x22', '\x22', '\x22']
  | .longLiteral => ['\'', '\'', '\''] ++ first ++ s ++ ['\'', '\'', '\'']

/-- A value as it is written. -/
def scalarText : Scalar → List Char
  | .flag b => (if b then "true" else "false").toList
  | .count n => Nat.toDigits 10 n
  | .word s => stringText s.toList

/-- The line of a key with its value. -/
def lineText (e : String × Scalar) : List Char :=
  e.1.toList ++ [' ', '=', ' '] ++ scalarText e.2 ++ ['\n']

/-- A section with its header. -/
def sectionText (name : String) (xs : Section) : List Char :=
  '[' :: (name.toList ++ ']' :: '\n' :: xs.flatMap lineText)

/-- Sections, with an empty line between two of them. -/
def Sections.text : Sections → List Char
  | [] => []
  | [(name, xs)] => sectionText name xs
  | (name, xs) :: ss => sectionText name xs ++ '\n' :: Sections.text ss

/-- There is room for a value in a text. -/
def Scalar.fits : Scalar → Bool
  | count n => n ≤ maxInteger
  | _ => true

/-- Writes sections as a text. -/
def write (ss : Sections) : Except String String :=
  if ss.all fun (_, xs) => xs.all fun (_, v) => v.fits then .ok (String.ofList ss.text)
  else .error "out-of-range value for u64 type"

end WildcardIndex.Toml
