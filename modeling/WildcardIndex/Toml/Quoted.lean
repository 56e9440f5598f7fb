import WildcardIndex.Toml.Lexical
/-!
# TOML — strings

There are four ways to write a string: in double quotes with escapes or in
single quotes without, and either on one line or, with three quotes, on several.
-/

namespace WildcardIndex.Toml

/-- The character an escape of one letter stands for. -/
def escaped? : Char → Option Char
  | 'b' => some '\x08'
  | 't' => some '\t'
  | 'n' => some '\n'
  | 'f' => some '\x0c'
  | 'r' => some '\r'
  | '\x22' => some '\x22'
  | '\\' => some '\\'
  | _ => none

/-- The character with a number written in hexadecimal, if there is one. -/
def codePoint? (ds : List Char) : Option Char :=
  if ds.all isHexDigit then
    let n := digitsValue 16 ds
    if n < 0xD800 ∨ (0xDFFF < n ∧ n ≤ 0x10FFFF) then some (Char.ofNat n) else none
  else none

/-- Puts a character in front of what a reader of characters gave. -/
def Reader.cons (c : Char) (r : Option (List Char × List Char)) :
    Option (List Char × List Char) :=
  r.map fun (s, rest) => (c :: s, rest)

/-- The body of a string in double quotes, up to the closing one. -/
def basicBody : List Char → Option (List Char × List Char)
  | [] => none
  | '\x22' :: cs => some ([], cs)
  | '\\' :: 'u' :: a :: b :: c :: d :: cs =>
    (codePoint? [a, b, c, d]).bind fun x => Reader.cons x (basicBody cs)
  | '\\' :: 'U' :: a :: b :: c :: d :: e :: f :: g :: h :: cs =>
    (codePoint? [a, b, c, d, e, f, g, h]).bind fun x => Reader.cons x (basicBody cs)
  | '\\' :: e :: cs => (escaped? e).bind fun x => Reader.cons x (basicBody cs)
  | c :: cs => if isForbidden c || c == '\\' then none else Reader.cons c (basicBody cs)

/-- The body of a string in single quotes, up to the closing one. -/
def literalBody : List Char → Option (List Char × List Char)
  | [] => none
  | '\'' :: cs => some ([], cs)
  | c :: cs => if isForbidden c then none else Reader.cons c (literalBody cs)

/-- The line ends after these blanks. -/
def lineEndsHere (cs : List Char) : Bool := (lineEnd? (skipBlanks cs)).isSome

/-- The body of a string in three double quotes. Behind a backslash at the end
of a line, blanks and line ends are skipped up to the next other character. Up
to two quotes may stand before the closing three. -/
def longBasicBody : Bool → List Char → Option (List Char × List Char)
  | _, [] => none
  | true, '\r' :: '\n' :: cs => longBasicBody true cs
  | false, '\r' :: '\n' :: cs => Reader.cons '\n' (longBasicBody false cs)
  | _, '\x22' :: '\x22' :: '\x22' :: '\x22' :: '\x22' :: cs => some (['\x22', '\x22'], cs)
  | _, '\x22' :: '\x22' :: '\x22' :: '\x22' :: cs => some (['\x22'], cs)
  | _, '\x22' :: '\x22' :: '\x22' :: cs => some ([], cs)
  | _, '\\' :: 'u' :: a :: b :: c :: d :: cs =>
    (codePoint? [a, b, c, d]).bind fun x => Reader.cons x (longBasicBody false cs)
  | _, '\\' :: 'U' :: a :: b :: c :: d :: e :: f :: g :: h :: cs =>
    (codePoint? [a, b, c, d, e, f, g, h]).bind fun x => Reader.cons x (longBasicBody false cs)
  | skipping, c :: cs =>
    if skipping && (isBlank c || c == '\n') then longBasicBody true cs
    else if c == '\\' then
      if lineEndsHere cs then longBasicBody true cs
      else match cs with
        | e :: cs => (escaped? e).bind fun x => Reader.cons x (longBasicBody false cs)
        | [] => none
    else if c == '\n' || !isForbidden c then Reader.cons c (longBasicBody false cs)
    else none

/-- The body of a string in three single quotes. Up to two quotes may stand
before the closing three. -/
def longLiteralBody : List Char → Option (List Char × List Char)
  | [] => none
  | '\r' :: '\n' :: cs => Reader.cons '\n' (longLiteralBody cs)
  | '\'' :: '\'' :: '\'' :: '\'' :: '\'' :: cs => some (['\'', '\''], cs)
  | '\'' :: '\'' :: '\'' :: '\'' :: cs => some (['\''], cs)
  | '\'' :: '\'' :: '\'' :: cs => some ([], cs)
  | c :: cs =>
    if c == '\n' || !isForbidden c then Reader.cons c (longLiteralBody cs) else none

/-- Drops the line end right after the opening quotes. -/
def withoutFirstLineEnd (cs : List Char) : List Char := (lineEnd? cs).getD cs

/-- A string of any kind. -/
def string? : List Char → Option (List Char × List Char)
  | '\x22' :: '\x22' :: '\x22' :: cs => longBasicBody false (withoutFirstLineEnd cs)
  | '\'' :: '\'' :: '\'' :: cs => longLiteralBody (withoutFirstLineEnd cs)
  | '\x22' :: cs => basicBody cs
  | '\'' :: cs => literalBody cs
  | _ => none

end WildcardIndex.Toml
