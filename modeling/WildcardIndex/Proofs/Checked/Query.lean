import Mathlib.Data.List.Basic
import WildcardIndex.Proofs.Checked.Tables
import WildcardIndex.Proofs.Pattern.Parts
import WildcardIndex.Query.Part
/-!
# Checked — looking up a part

A part is looked up at an offset, from the end, or anywhere. What is taken for
granted is that its bytes have positions, that a byte does not lie behind the
end of its part, and that a part no longer than the longest value can be taken
off its length. **A distance too long for a position is asked for first**, an
offset is not: a part has to end where the positions do.
-/

namespace WildcardIndex

namespace Checked

variable {t : Tables} {p : Part}

/-! ## Lookups -/

/-- The records with a byte at an offset from the start. -/
def forward? (x : PositionalIndex) (c : UInt8) (offset : Nat) : Checked (Option RecordSet) := do
  setAt (← cellOf x.forward c) (← position offset)

/-- The records with a byte at a distance from the end, if the distance can be
one. -/
def fromEnd? (x : PositionalIndex) (c : UInt8) (distance : Nat) : Checked (Option RecordSet) :=
  if distance < Tables.positionLimit then do
    setAt (← cellOf x.backward c) (-(← position distance))
  else pure none

/-- The records with any byte at an offset. -/
def anyAt (x : PositionalIndex) (offset : Nat) : Checked RecordSet :=
  x.forward.toList.foldlM (fun found l => do
    match ← setAt l (← position offset) with
    | some s => pure (found.union s)
    | none => pure found) (.empty x.backend)

theorem isOk_forward?_iff {x : PositionalIndex} {c : UInt8} {offset : Nat} :
    (forward? x c offset).isOk ↔ offset < Tables.positionLimit := by
  rw [forward?, cellOf_eq_ok, ok_bind]
  refine ⟨fun h => ?_, fun h => ?_⟩
  · obtain ⟨_, hposition, -⟩ := isOk_bind_iff.1 h
    exact isOk_position_iff.1 (isOk_of_eq_ok hposition)
  · rw [position_eq_ok h, ok_bind, setAt_eq_ok]
    rfl

theorem forward?_eq_ok (x : PositionalIndex) (c : UInt8) {offset : Nat}
    (h : offset < Tables.positionLimit) : forward? x c offset = .ok (x.forward? c offset) := by
  rw [forward?, cellOf_eq_ok, ok_bind, position_eq_ok h, ok_bind, setAt_eq_ok]
  rfl

/-- **No distance is cut**: one that does not fit is turned away. -/
theorem fromEnd?_eq_ok (x : PositionalIndex) (c : UInt8) (distance : Nat) :
    fromEnd? x c distance = .ok ((Tables.fromEnd? distance).bind (x.backward? c)) := by
  unfold fromEnd? Tables.fromEnd?
  by_cases h : distance < Tables.positionLimit
  · rw [if_pos h, if_pos h, cellOf_eq_ok, ok_bind, position_eq_ok h, ok_bind, setAt_eq_ok]
    rfl
  · rw [if_neg h, if_neg h]
    rfl

theorem anyAt_eq_ok (x : PositionalIndex) {offset : Nat} (h : offset < Tables.positionLimit) :
    anyAt x offset = .ok (x.anyAt offset) := by
  refine foldlM_eq_ok (fun found l _ => ?_) _
  rw [position_eq_ok h, ok_bind, setAt_eq_ok, ok_bind]
  cases l.get? (positionOf offset) <;> rfl

theorem isOk_anyAt_iff {x : PositionalIndex} {offset : Nat} :
    (anyAt x offset).isOk ↔ offset < Tables.positionLimit := by
  refine ⟨fun h => ?_, fun h => isOk_of_eq_ok (anyAt_eq_ok x h)⟩
  have hsome := List.mem_map_of_mem (f := x.forward.get) (ByteTable.mem_bytes 0)
  rw [← ByteTable.toList_eq] at hsome
  rw [anyAt] at h
  -- the first list makes the slip, and there is one
  cases hlists : x.forward.toList with
  | nil =>
    rw [hlists] at hsome
    cases hsome
  | cons l ls =>
    rw [hlists, List.foldlM_cons] at h
    obtain ⟨_, hfirst, -⟩ := isOk_bind_iff.1 h
    obtain ⟨_, hposition, -⟩ := isOk_bind_iff.1 (isOk_of_eq_ok hfirst)
    exact isOk_position_iff.1 (isOk_of_eq_ok hposition)

/-! ## Meeting -/

section Meeting

variable {α : Type} {lookup : α → Option RecordSet} {lookup' : α → Checked (Option RecordSet)}
  {as : List α}

/-- Narrows `found` by the sets of further literals. -/
def narrow (lookup : α → Checked (Option RecordSet)) (found : RecordSet) :
    List α → Checked (Option RecordSet)
  | [] => pure (some found)
  | a :: rest => do
    match ← lookup a with
    | none => pure none
    | some s =>
      let found := found.inter s
      if found.isEmpty then pure none else narrow lookup found rest

/-- The records in the sets of all literals. -/
def meet (lookup : α → Checked (Option RecordSet)) : List α → Checked (Option RecordSet)
  | [] => pure none
  | a :: rest => do
    match ← lookup a with
    | none => pure none
    | some s => narrow lookup s rest

theorem narrow_eq_ok (h : ∀ a ∈ as, lookup' a = .ok (lookup a)) (found : RecordSet) :
    narrow lookup' found as = .ok (Tables.narrow lookup found as) := by
  induction as generalizing found with
  | nil => rfl
  | cons a as ih =>
    rw [narrow, Tables.narrow, h a List.mem_cons_self, ok_bind]
    cases lookup a with
    | none => rfl
    | some s =>
      simp only
      split
      · rfl
      · exact ih (fun b hb => h b (List.mem_cons_of_mem a hb)) _

/-- **Sets meet without a slip if each is looked up without one.** -/
theorem meet_eq_ok (h : ∀ a ∈ as, lookup' a = .ok (lookup a)) :
    meet lookup' as = .ok (Tables.meet lookup as) := by
  cases as with
  | nil => rfl
  | cons a as =>
    rw [meet, Tables.meet, h a List.mem_cons_self, ok_bind]
    cases lookup a with
    | none => rfl
    | some s => exact narrow_eq_ok (fun b hb => h b (List.mem_cons_of_mem a hb)) s

end Meeting

/-! ## Parts -/

/-- What some literals met in, cut to the values of at least `n` bytes if asked
for. -/
def bounded (t : Tables) (cut : Bool) (n : Nat) : Option RecordSet → RecordSet
  | none => t.nothing
  | some found => if cut then t.longEnough found n else found

/-- The records whose value has a part at an offset. -/
def partAt (t : Tables) (p : Part) (offset : Nat) : Checked RecordSet :=
  if p.isEmpty then pure (t.length.atLeast offset)
  else if p.allWild then do anyAt t.positional (← difference (offset + p.length) 1)
  else do
    let met ← meet (fun (i, c) => forward? t.positional c (offset + i)) p.literals
    pure (bounded t p.wildTail (offset + p.length) met)

/-- The records whose value ends with a part. -/
def partAtEnd (t : Tables) (p : Part) : Checked RecordSet :=
  if p.allWild then pure (t.length.atLeast p.length)
  else do
    let met ← meet (fun (i, c) => do fromEnd? t.positional c (← difference p.length i)) p.literals
    pure (bounded t p.wildHead p.length met)

/-- The records whose value is a part. -/
def exactly (t : Tables) (p : Part) : Checked RecordSet :=
  match t.length.exactly? p.length with
  | none => pure t.nothing
  | some long => do pure ((← partAt t p 0).inter long)

/-- The records whose value has a part anywhere. -/
def anywhere (t : Tables) (p : Part) : Checked RecordSet :=
  let longest := t.length.maxLength
  if longest < p.length then pure t.nothing
  else if p.allWild then pure (t.length.atLeast p.length)
  else do
    let room ← difference longest p.length
    (List.range (room + 1)).foldlM
      (fun found offset => do pure (found.union (← partAt t p offset))) t.nothing

/-- **A part that ends where the positions do is looked up without a slip.** -/
theorem partAt_eq_ok {offset : Nat} (h : offset + p.length ≤ Tables.positionLimit) :
    partAt t p offset = .ok (t.partAt p offset) := by
  unfold partAt Tables.partAt
  by_cases hempty : p.isEmpty = true
  · rw [if_pos hempty, if_pos hempty]
    rfl
  by_cases hwild : p.allWild = true
  · have hpos := Part.length_pos_of_not_isEmpty hempty
    rw [if_neg hempty, if_neg hempty, if_pos hwild, if_pos hwild, difference_eq_ok (by omega),
      ok_bind, anyAt_eq_ok _ (by omega)]
  · have hmet : meet (fun (i, c) => forward? t.positional c (offset + i)) p.literals =
        .ok (Tables.meet (fun (i, c) => t.positional.forward? c (offset + i)) p.literals) :=
      meet_eq_ok fun (i, c) hmem => by
        have hi := Part.lt_length_of_mem_literals hmem
        exact forward?_eq_ok _ _ (by omega)
    rw [if_neg hempty, if_neg hempty, if_neg hwild, if_neg hwild, hmet, ok_bind]
    rfl

/-- **A part whose first byte lies beyond the positions makes a slip**, and one of
`_` alone that ends there. -/
theorem lt_of_isOk_partAt {offset : Nat} (hempty : ¬ p.isEmpty = true)
    (h : (partAt t p offset).isOk) :
    (p.allWild = true → offset + p.length ≤ Tables.positionLimit) ∧
      ∀ i c rest, p.allWild = false → p.literals = (i, c) :: rest →
        offset + i < Tables.positionLimit := by
  rw [partAt, if_neg hempty] at h
  refine ⟨fun hwild => ?_, fun i c rest hwild hliterals => ?_⟩
  · have hpos := Part.length_pos_of_not_isEmpty hempty
    rw [if_pos hwild, difference_eq_ok (by omega), ok_bind, isOk_anyAt_iff] at h
    omega
  · rw [hwild, if_neg Bool.false_ne_true, hliterals, meet] at h
    obtain ⟨_, hmet, -⟩ := isOk_bind_iff.1 h
    obtain ⟨_, hfirst, -⟩ := isOk_bind_iff.1 (isOk_of_eq_ok hmet)
    exact isOk_forward?_iff.1 (isOk_of_eq_ok hfirst)

/-- **From the end every part is**: its bytes lie before its end, and the
distances are asked for. -/
theorem partAtEnd_eq_ok (t : Tables) (p : Part) : partAtEnd t p = .ok (t.partAtEnd p) := by
  unfold partAtEnd Tables.partAtEnd
  by_cases hwild : p.allWild = true
  · rw [if_pos hwild, if_pos hwild]
    rfl
  · have hmet : meet (fun (i, c) => do fromEnd? t.positional c (← difference p.length i)) p.literals =
        .ok (Tables.meet (fun (i, c) =>
          (Tables.fromEnd? (p.length - i)).bind (t.positional.backward? c)) p.literals) :=
      meet_eq_ok fun (i, c) hmem => by
        have hi := Part.lt_length_of_mem_literals hmem
        simp only [difference_eq_ok (Nat.le_of_lt hi), ok_bind, fromEnd?_eq_ok]
    rw [if_neg hwild, if_neg hwild, hmet, ok_bind]
    rfl

theorem exactly_eq_ok (h : p.length ≤ Tables.positionLimit) :
    exactly t p = .ok (t.exactly p) := by
  unfold exactly Tables.exactly
  cases t.length.exactly? p.length with
  | none => rfl
  | some long =>
    simp only [partAt_eq_ok (t := t) (show 0 + p.length ≤ Tables.positionLimit by omega), ok_bind]
    rfl

/-- **A part that is not longer than the longest value** can be taken off its
length, and ends before it wherever there is room. -/
theorem anywhere_eq_ok (h : t.length.slots ≤ Tables.positionLimit) :
    anywhere t p = .ok (t.anywhere p) := by
  unfold anywhere Tables.anywhere
  simp only
  split
  · rfl
  · rename_i hlong
    split
    · rfl
    · rw [difference_eq_ok (Nat.not_lt.1 hlong), ok_bind]
      refine foldlM_eq_ok (fun found offset hoffset => ?_) _
      rw [LengthIndex.maxLength, List.mem_range] at hoffset
      rw [LengthIndex.maxLength] at hlong
      rw [partAt_eq_ok (by omega), ok_bind]
      rfl

end Checked

end WildcardIndex
