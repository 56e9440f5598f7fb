import WildcardIndex.Bytes
/-!
# Text — bytes read as UTF-8, with losses

Bytes that are not UTF-8 are shown as text by putting one U+FFFD in place of
each **maximal ill-formed stretch**: the longest start of a well-formed
sequence, or a single byte that starts none. The reader is a machine with one
step a byte, so a byte that breaks a sequence is looked at again as the start
of the next.
-/

namespace WildcardIndex.Text

/-- The stand-in for an ill-formed stretch. -/
def replacement : Char := Char.ofNat 0xFFFD

/-- What the bytes read so far have left open. -/
inductive Utf8State where
  /-- A character starts with the next byte. -/
  | start
  /-- A sequence is open: `need` more bytes, the next between `lo` and `hi`,
  and `code` the bits so far. -/
  | inside (need : Nat) (lo hi : UInt8) (code : Nat)

/-- The bounds of the second byte, where the first narrows them: no overlong
form, no surrogate, nothing above U+10FFFF. -/
def secondByteBounds (lead : UInt8) : UInt8 × UInt8 :=
  if lead = 0xE0 then (0xA0, 0xBF)
  else if lead = 0xED then (0x80, 0x9F)
  else if lead = 0xF0 then (0x90, 0xBF)
  else if lead = 0xF4 then (0x80, 0x8F)
  else (0x80, 0xBF)

/-- Reads a byte at the start of a character: the characters it settles and
the state after it. -/
def leadByte (b : UInt8) : List Char × Utf8State :=
  let (lo, hi) := secondByteBounds b
  if b < 0x80 then ([Char.ofNat b.toNat], .start)
  else if 0xC2 ≤ b ∧ b ≤ 0xDF then ([], .inside 1 lo hi (b.toNat % 32))
  else if 0xE0 ≤ b ∧ b ≤ 0xEF then ([], .inside 2 lo hi (b.toNat % 16))
  else if 0xF0 ≤ b ∧ b ≤ 0xF4 then ([], .inside 3 lo hi (b.toNat % 8))
  else ([replacement], .start)

/-- Reads one byte: the characters it settles, last first, and the state after
it. -/
def utf8Step (state : Utf8State) (b : UInt8) : List Char × Utf8State :=
  match state with
  | .start => leadByte b
  | .inside need lo hi code =>
    if lo ≤ b ∧ b ≤ hi then
      let code := code * 64 + b.toNat % 64
      if need ≤ 1 then ([Char.ofNat code], .start) else ([], .inside (need - 1) 0x80 0xBF code)
    else
      let (settled, state) := leadByte b
      (settled ++ [replacement], state)

/-- The text of a byte string. -/
def lossy (bs : Bytes) : String :=
  let (settled, state) := bs.foldl (fun (settled, state) b =>
    let (new, state) := utf8Step state b
    (new ++ settled, state)) (([] : List Char), Utf8State.start)
  String.ofList (match state with
    | .start => settled.reverse
    | .inside .. => (replacement :: settled).reverse)

end WildcardIndex.Text
