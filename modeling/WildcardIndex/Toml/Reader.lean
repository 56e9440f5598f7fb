import WildcardIndex.Toml.Moment
import WildcardIndex.Toml.Number
import WildcardIndex.Toml.Quoted
import WildcardIndex.Toml.Tree
/-!
# TOML — reading a text

A text is a list of lines: a key with its value, the header of a table, the
header of the next table of an array, a comment, or nothing. It is read into
the entries of its outermost table, or not at all; why a text is refused is not
told apart.
-/

namespace WildcardIndex.Toml

/-- Keys with as many components, and values nested as deep, are refused. -/
def nestingLimit : Nat := 80

/-- A character of a key without quotes. -/
def isBare (c : Char) : Bool :=
  isDigit c || ('a' ≤ c && c ≤ 'z') || ('A' ≤ c && c ≤ 'Z') || c == '_' || c == '-'

/-- One component of a key. -/
def simpleKey? : List Char → Option (String × List Char)
  | '\x22' :: cs => (basicBody cs).map fun (s, rest) => (String.ofList s, rest)
  | '\'' :: cs => (literalBody cs).map fun (s, rest) => (String.ofList s, rest)
  | cs =>
    let name := cs.takeWhile isBare
    if name.isEmpty then none else some (String.ofList name, cs.dropWhile isBare)

/-- A key, with the blanks around its components: all but the last component,
and the last one. -/
def key? : Nat → List Char → Option ((List String × String) × List Char)
  | 0, _ => none
  | fuel + 1, cs => do
    let (k, cs) ← simpleKey? (skipBlanks cs)
    match skipBlanks cs with
    | '.' :: cs =>
      let ((path, last), rest) ← key? fuel cs
      return ((k :: path, last), rest)
    | cs => return (([], k), cs)

/-- A key below the nesting limit. -/
def dottedKey? (cs : List Char) : Option ((List String × String) × List Char) :=
  key? (nestingLimit - 1) cs

/-- A truth value. -/
def bool? (cs : List Char) : Option (Value × List Char) :=
  ((word? ['t', 'r', 'u', 'e'] cs).map fun rest => (.bool true, rest)).or
    ((word? ['f', 'a', 'l', 's', 'e'] cs).map fun rest => (.bool false, rest))

/-- A value that holds no others. -/
def scalar? (cs : List Char) : Option (Value × List Char) :=
  match cs with
  | [] => none
  | c :: _ =>
    if c = '\x22' ∨ c = '\'' then (string? cs).map fun (s, rest) => (.string (String.ofList s), rest)
    else if c = 't' ∨ c = 'f' then bool? cs
    else if c = 'i' ∨ c = 'n' then named? cs
    else ((moment? cs).or (float? cs)).or (integer? cs)

mutual

/-- A value, nested at most `depth` deep. -/
def value? (depth fuel : Nat) (cs : List Char) : Option (Value × List Char) :=
  match fuel with
  | 0 => none
  | fuel + 1 =>
    match cs, depth with
    | '[' :: cs, depth + 1 => (items? depth fuel cs).map fun (vs, rest) => (.array false vs, rest)
    | '\x7b' :: cs, depth + 1 =>
      match skipBlanks cs with
      | '\x7d' :: rest => some (.table .inlined [], rest)
      | cs => (pairs? depth fuel [] cs).map fun (es, rest) => (.table .inlined es, rest)
    | cs, _ => scalar? cs

/-- The items of an array, up to its bracket. -/
def items? (depth fuel : Nat) (cs : List Char) : Option (List Value × List Char) :=
  match fuel with
  | 0 => none
  | fuel + 1 => do
    match ← skipLines cs.length cs with
    | ']' :: rest => return ([], rest)
    | cs =>
      let (v, cs) ← value? depth fuel cs
      match ← skipLines cs.length cs with
      | ']' :: rest => return ([v], rest)
      | ',' :: cs =>
        let (vs, rest) ← items? depth fuel cs
        return (v :: vs, rest)
      | _ => none

/-- The keys of a table in braces with their values, up to its brace, after
those it has already. -/
def pairs? (depth fuel : Nat) (es : Entries) (cs : List Char) : Option (Entries × List Char) :=
  match fuel with
  | 0 => none
  | fuel + 1 => do
    let ((path, k), cs) ← dottedKey? cs
    let cs ← char? '=' cs
    let (v, cs) ← value? depth fuel (skipBlanks cs)
    let es ← es.put k v path
    match skipBlanks cs with
    | '\x7d' :: rest => return (es, rest)
    | ',' :: cs => pairs? depth fuel es cs
    | _ => none

end

/-- A line's worth of reading: the entries of the whole text so far, and the
table that keys are added to. -/
structure State where
  /-- The outermost table. -/
  root : Entries := []
  /-- The path of the last header. -/
  current : List String := []

/-- A key with its value. -/
def keyLine? (s : State) (cs : List Char) : Option (State × List Char) := do
  let ((path, k), cs) ← dottedKey? cs
  let cs ← char? '=' cs
  let (v, rest) ← value? (nestingLimit - 1) (cs.length + 1) (skipBlanks cs)
  let root ← s.root.under (Entries.put k v path) s.current
  return ({ s with root := root }, rest)

/-- The header of a table. -/
def tableLine? (s : State) (cs : List Char) : Option (State × List Char) := do
  let ((path, k), cs) ← dottedKey? cs
  let rest ← char? ']' cs
  let root ← s.root.under (Entries.openTable k) path
  return ({ root := root, current := path ++ [k] }, rest)

/-- The header of the next table of an array. -/
def itemLine? (s : State) (cs : List Char) : Option (State × List Char) := do
  let ((path, k), cs) ← dottedKey? cs
  let rest ← word? [']', ']'] cs
  let root ← s.root.under (Entries.openItem k) path
  return ({ root := root, current := path ++ [k] }, rest)

/-- What a line holds besides blanks and its comment. -/
def line? (s : State) (cs : List Char) : Option (State × List Char) :=
  match skipBlanks cs with
  | [] => some (s, [])
  | '[' :: '[' :: cs => itemLine? s cs
  | '[' :: cs => tableLine? s cs
  | c :: cs => if c = '#' ∨ c = '\n' ∨ c = '\r' then some (s, c :: cs) else keyLine? s (c :: cs)

/-- Reads lines up to the end of the text. -/
def lines? (s : State) (cs : List Char) : Option Entries :=
  match line? s cs with
  | none => none
  | some (s, rest) =>
    match restOfLine? rest with
    | none => none
    | some [] => some s.root
    | some (c :: rest) => if (c :: rest).length < cs.length then lines? s (c :: rest) else none
termination_by cs.length
decreasing_by all_goals simpa using ‹_›

/-- Reads a text. A byte order mark in front is skipped. -/
def read? (text : String) : Option Entries :=
  match text.toList with
  | '\ufeff' :: cs => lines? {} cs
  | cs => lines? {} cs

end WildcardIndex.Toml
