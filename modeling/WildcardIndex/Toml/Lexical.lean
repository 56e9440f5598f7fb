/-!
# TOML — characters, blanks and line ends

Readers take what remains of a text and give back what they read with what
remains after it, or nothing if the text does not go on as they need it.
-/

namespace WildcardIndex.Toml

/-- A reader. -/
abbrev Reader (α : Type) := List Char → Option (α × List Char)

/-- A blank within a line. -/
def isBlank (c : Char) : Bool := c == ' ' || c == '\t'

/-- A control character that no text may hold, the tab and line ends apart. -/
def isForbidden (c : Char) : Bool := (c.toNat < 0x20 && c != '\t') || c.toNat == 0x7F

/-- A decimal digit. -/
def isDigit (c : Char) : Bool := '0' ≤ c && c ≤ '9'

/-- A hexadecimal digit of either case. -/
def isHexDigit (c : Char) : Bool :=
  isDigit c || ('a' ≤ c && c ≤ 'f') || ('A' ≤ c && c ≤ 'F')

/-- The value of a digit, decimal or hexadecimal. -/
def digitValue (c : Char) : Nat :=
  if isDigit c then c.toNat - 48
  else if 'a' ≤ c then c.toNat - 87
  else c.toNat - 55

/-- The number that digits stand for. -/
def digitsValue (base : Nat) (ds : List Char) : Nat :=
  ds.foldl (fun n d => n * base + digitValue d) 0

/-- Skips blanks. -/
def skipBlanks (cs : List Char) : List Char := cs.dropWhile isBlank

/-- Takes one line end. -/
def lineEnd? : List Char → Option (List Char)
  | '\n' :: cs => some cs
  | '\r' :: '\n' :: cs => some cs
  | _ => none

/-- Takes a comment up to the end of its line. Nothing else may stand there. -/
def comment? : List Char → Option (List Char)
  | '#' :: cs =>
    let rest := cs.dropWhile (!isForbidden ·)
    if rest.isEmpty || (lineEnd? rest).isSome then some rest else none
  | _ => none

/-- Takes the rest of a line: blanks, perhaps a comment, and the end of the
line or of the text. -/
def restOfLine? (cs : List Char) : Option (List Char) := do
  let cs := skipBlanks cs
  let cs := (← if cs.head? = some '#' then comment? cs else some cs)
  if cs.isEmpty then some [] else lineEnd? cs

/-- Skips blanks, comments and line ends. The text may not end in the middle of
a bad comment. -/
def skipLines : Nat → List Char → Option (List Char)
  | 0, cs => some cs
  | fuel + 1, cs =>
    let cs := skipBlanks cs
    match cs with
    | '#' :: _ => (comment? cs).bind (skipLines fuel)
    | _ =>
      match lineEnd? cs with
      | some cs => skipLines fuel cs
      | none => some cs

/-- Takes a given character. -/
def char? (c : Char) : List Char → Option (List Char)
  | d :: cs => if d = c then some cs else none
  | [] => none

/-- Takes given characters. -/
def word? : List Char → List Char → Option (List Char)
  | [], cs => some cs
  | c :: w, cs => (char? c cs).bind (word? w)

end WildcardIndex.Toml
