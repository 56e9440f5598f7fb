import WildcardIndex.Pattern.Basic
import WildcardIndex.Tables
/-!
# Queries — one part against the tables

This file answers for a single part: which records have it at a given offset,
and which end with it. A literal byte costs one intersection, `_` costs
nothing, and **a byte never seen at its place empties the answer at once**.
What the literals leave open is closed by the lengths: a part that ends in `_`
may reach past the end of a value that has all its literals, and one that
starts with `_` may reach before its start.
-/

namespace WildcardIndex

namespace Tables

/-- The answer of no record. -/
def nothing (t : Tables) : RecordSet := .empty t.positional.backend

/-- Narrows `found` by the sets of further literals. A set that is missing and
an answer that has become empty both end the search without an answer. -/
def narrow {α : Type} (lookup : α → Option RecordSet) (found : RecordSet) :
    List α → Option RecordSet
  | [] => some found
  | a :: rest =>
    match lookup a with
    | none => none
    | some s =>
      let found := found.inter s
      if found.isEmpty then none else narrow lookup found rest

/-- The records in the sets of all literals. -/
def meet {α : Type} (lookup : α → Option RecordSet) : List α → Option RecordSet
  | [] => none
  | a :: rest => (lookup a).bind fun s => narrow lookup s rest

/-- The members of a set whose value has at least `n` bytes. -/
def longEnough (t : Tables) (s : RecordSet) (n : Nat) : RecordSet :=
  match t.length.atLeast? n with
  | some long => s.inter long
  | none => s.clear

/-- The records whose value has a part at an offset. A part of `_` alone asks
for any byte at its last place. -/
def partAt (t : Tables) (p : Part) (offset : Nat) : RecordSet :=
  if p.isEmpty then t.length.atLeast offset
  else if p.allWild then t.positional.anyAt (offset + p.length - 1)
  else
    match meet (fun (i, b) => t.positional.forward? b (offset + i)) p.literals with
    | none => t.nothing
    | some found => if p.wildTail then t.longEnough found (offset + p.length) else found

/-- The least offset beyond the positions. -/
def positionLimit : Nat := 2147483648

/-- The position that lies `distance` before the end of a value, if it fits. -/
def fromEnd? (distance : Nat) : Option Position :=
  if distance < positionLimit then some (-positionOf distance) else none

/-- The records whose value ends with a part. -/
def partAtEnd (t : Tables) (p : Part) : RecordSet :=
  if p.allWild then t.length.atLeast p.length
  else
    match meet (fun (i, b) => (fromEnd? (p.length - i)).bind (t.positional.backward? b))
        p.literals with
    | none => t.nothing
    | some found => if p.wildHead then t.longEnough found p.length else found

/-- The records whose value is a part. -/
def exactly (t : Tables) (p : Part) : RecordSet :=
  match t.length.exactly? p.length with
  | none => t.nothing
  | some long => (t.partAt p 0).inter long

/-- The records whose value has a part anywhere: at any offset that leaves the
longest value room for it. -/
def anywhere (t : Tables) (p : Part) : RecordSet :=
  let longest := t.length.maxLength
  if longest < p.length then t.nothing
  else if p.allWild then t.length.atLeast p.length
  else
    (List.range (longest - p.length + 1)).foldl
      (fun found offset => found.union (t.partAt p offset)) t.nothing

end Tables

end WildcardIndex
