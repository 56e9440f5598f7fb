import Mathlib.Data.List.Basic
import WildcardIndex.Proofs.Checked.Basic
import WildcardIndex.Proofs.Tables
/-!
# Checked — filing a value

A value is filed under its offsets, which have to be positions, and under its
length, which has to have a slot. The slot is made just before it is used, and
taking a value out looks for no slot beyond the last. So **all that filing takes
for granted is that the value fits the positions**, and it slips with one that
does not.
-/

namespace WildcardIndex

namespace Checked

/-! ## One byte -/

section Byte

variable {α : Type} {t : ByteTable α} {c : UInt8}

/-- The content of a byte's cell. -/
def cellOf (t : ByteTable α) (c : UInt8) : Checked α := cell t.cells.toArray c.toNat

/-- Changes the content of a byte's cell. -/
def updated (f : α → Checked α) (c : UInt8) (t : ByteTable α) : Checked (ByteTable α) := do
  let a ← f (← cellOf t c)
  pure (t.update c fun _ => a)

/-- **Every byte has a cell.** -/
theorem cellOf_eq_ok (t : ByteTable α) (c : UInt8) : cellOf t c = .ok (t.get c) := by
  have hlt := c.toNat_lt
  exact cell_eq_ok (by simp [ByteTable.get, hlt])

theorem updated_eq_ok {f : α → Checked α} {g : α → α} (h : ∀ a, f a = .ok (g a)) :
    updated f c t = .ok (t.update c g) := by
  rw [updated, cellOf_eq_ok, ok_bind, h, ok_bind, ByteTable.update_const]
  rfl

theorem updated_ok (f : α → α) (c : UInt8) (t : ByteTable α) :
    updated (fun a => .ok (f a)) c t = .ok (t.update c f) := updated_eq_ok fun _ => rfl

end Byte

section Position

variable {l : PositionList} {p : Position} {b : Backend} {i : Nat}

/-- The set at a position. -/
def setAt (l : PositionList) (p : Position) : Checked (Option RecordSet) :=
  match l.find? p with
  | some i => do
    let e ← cell l.entries i
    pure (some e.2)
  | none => pure none

/-- Changes the set at a position, or puts `fresh` there, for which the list has
room. -/
def altered (f : RecordSet → RecordSet) (fresh : RecordSet) (p : Position) (l : PositionList) :
    Checked PositionList :=
  match l.find? p with
  | some i => do
    let entries ← modified (fun (q, s) => (q, f s)) i l.entries
    pure ⟨entries⟩
  | none => pure (l.alter p f fresh)

/-- Removes a record from the set at a position. -/
def erased (r : Record) (p : Position) (l : PositionList) : Checked PositionList :=
  match l.find? p with
  | some i => do
    let entries ← modified (fun (q, s) => (q, s.erase r)) i l.entries
    pure ⟨entries⟩
  | none => pure l

theorem setAt_eq_ok (l : PositionList) (p : Position) : setAt l p = .ok (l.get? p) := by
  unfold setAt
  cases hfind : l.find? p with
  | none =>
    rw [PositionList.find?_eq, Option.map_eq_none_iff] at hfind
    rw [hfind]
    rfl
  | some i =>
    obtain ⟨s, hentry, hget⟩ := PositionList.getElem?_of_find? hfind
    simp only [cell_eq_ok hentry, ok_bind, hget]
    rfl

theorem altered_eq_ok (f : RecordSet → RecordSet) (fresh : RecordSet) (p : Position)
    (l : PositionList) : altered f fresh p l = .ok (l.alter p f fresh) := by
  unfold altered
  cases hfind : l.find? p with
  | none => rfl
  | some i =>
    simp only [modified_eq_ok (PositionList.lt_size_of_find? hfind), ok_bind, PositionList.alter, hfind]
    rfl

theorem erased_eq_ok (r : Record) (p : Position) (l : PositionList) :
    erased r p l = .ok (l.erase p r) := by
  unfold erased
  cases hfind : l.find? p with
  | none =>
    rw [PositionList.erase, hfind]
    rfl
  | some i =>
    simp only [modified_eq_ok (PositionList.lt_size_of_find? hfind), ok_bind, PositionList.erase, hfind]
    rfl

end Position

/-! ## Positions -/

section Positional

variable {r : Record} {x : PositionalIndex} {c : UInt8} {v : Bytes} {before remaining : Nat}

/-- Adds a record under one byte. -/
def addByte (r : Record) (x : PositionalIndex) (c : UInt8) (before remaining : Nat) :
    Checked PositionalIndex := do
  let first ← position before
  let last ← position remaining
  let fresh := (RecordSet.empty x.backend).insert r
  pure
    { backend := x.backend
      forward := ← updated (altered (·.insert r) fresh first) c x.forward
      backward := ← updated (altered (·.insert r) fresh (-last)) c x.backward
      presence := ← updated (fun s => .ok (some ((s.getD (.empty x.backend)).insert r))) c x.presence }

/-- Removes a record from the three sets of one byte. -/
def removeByte (r : Record) (x : PositionalIndex) (c : UInt8) (before remaining : Nat) :
    Checked PositionalIndex := do
  let first ← position before
  let last ← position remaining
  pure
    { backend := x.backend
      forward := ← updated (erased r first) c x.forward
      backward := ← updated (erased r (-last)) c x.backward
      presence := ← updated (fun s => .ok (s.map (·.erase r))) c x.presence }

/-- Goes through a value, telling `f` for every byte how many stand before it
and how many are left from it on. -/
def throughValue (f : PositionalIndex → UInt8 → Nat → Nat → Checked PositionalIndex)
    (length : Nat) (x : PositionalIndex) (v : Bytes) : Checked PositionalIndex :=
  v.zipIdx.foldlM (fun x (c, i) => do f x c i (← difference length i)) x

theorem addByte_eq_ok (r : Record) (x : PositionalIndex) (c : UInt8)
    (hbefore : before < Tables.positionLimit) (hremaining : remaining < Tables.positionLimit) :
    addByte r x c before remaining = .ok (PositionalIndex.addByte r x c before remaining) := by
  rw [addByte, position_eq_ok hbefore, ok_bind, position_eq_ok hremaining, ok_bind]
  simp only [updated_eq_ok (altered_eq_ok _ _ _), updated_ok, ok_bind]
  rfl

theorem removeByte_eq_ok (r : Record) (x : PositionalIndex) (c : UInt8)
    (hbefore : before < Tables.positionLimit) (hremaining : remaining < Tables.positionLimit) :
    removeByte r x c before remaining = .ok (PositionalIndex.removeByte r x c before remaining) := by
  rw [removeByte, position_eq_ok hbefore, ok_bind, position_eq_ok hremaining, ok_bind]
  simp only [updated_eq_ok (erased_eq_ok _ _), updated_ok, ok_bind]
  rfl

/-- A byte whose offset or distance from the end is no position makes a slip. -/
theorem lt_of_isOk_positions {α : Type} {f : Position → Position → Checked α}
    (h : (do f (← position before) (← position remaining) : Checked α).isOk) :
    before < Tables.positionLimit ∧ remaining < Tables.positionLimit := by
  obtain ⟨_, hfirst, h⟩ := isOk_bind_iff.1 h
  obtain ⟨_, hlast, -⟩ := isOk_bind_iff.1 h
  exact ⟨isOk_position_iff.1 (isOk_of_eq_ok hfirst), isOk_position_iff.1 (isOk_of_eq_ok hlast)⟩

theorem isOk_addByte_iff : (addByte r x c before remaining).isOk ↔
    before < Tables.positionLimit ∧ remaining < Tables.positionLimit :=
  ⟨fun h => lt_of_isOk_positions h, fun ⟨hbefore, hremaining⟩ =>
    isOk_of_eq_ok (addByte_eq_ok r x c hbefore hremaining)⟩

theorem isOk_removeByte_iff : (removeByte r x c before remaining).isOk ↔
    before < Tables.positionLimit ∧ remaining < Tables.positionLimit :=
  ⟨fun h => lt_of_isOk_positions h, fun ⟨hbefore, hremaining⟩ =>
    isOk_of_eq_ok (removeByte_eq_ok r x c hbefore hremaining)⟩

/-- A value that does not fit the positions slips at its first byte, the farthest
from the end. -/
theorem length_lt_of_isOk_throughValue
    {f : PositionalIndex → UInt8 → Nat → Nat → Checked PositionalIndex}
    (hf : ∀ x c i j, (f x c i j).isOk → j < Tables.positionLimit)
    (h : (throughValue f v.length x v).isOk) : v.length < Tables.positionLimit := by
  cases v with
  | nil => decide
  | cons c v =>
    rw [throughValue, List.zipIdx_cons, List.foldlM_cons] at h
    obtain ⟨y, hfirst, -⟩ := isOk_bind_iff.1 h
    simp only [difference_eq_ok (Nat.zero_le _), ok_bind] at hfirst
    exact hf x c 0 _ (isOk_of_eq_ok hfirst)

/-- **Every offset of a value that fits the positions is one**, and so is every
distance from its end. -/
theorem throughValue_eq_ok {f : PositionalIndex → UInt8 → Nat → Nat → Checked PositionalIndex}
    {g : PositionalIndex → UInt8 → Nat → Nat → PositionalIndex}
    (hf : ∀ x c i j, i < Tables.positionLimit → j < Tables.positionLimit →
      f x c i j = .ok (g x c i j)) (hv : v.length < Tables.positionLimit) (x : PositionalIndex) :
    throughValue f v.length x v = .ok (PositionalIndex.throughValue g v.length x v) := by
  refine foldlM_eq_ok (fun y (c, i) he => ?_) x
  have hi : i < v.length := (List.getElem?_eq_some_iff.1 (List.mem_zipIdx_iff_getElem?.1 he)).1
  simp only [difference_eq_ok (Nat.le_of_lt hi), ok_bind]
  exact hf y c i (v.length - i) (by omega) (by omega)

end Positional

/-! ## Lengths -/

section Length

variable {b : Backend} {x : LengthIndex}

/-- Adds a record of length `n`. -/
def addLength (x : LengthIndex) (r : Record) (n : Nat) : Checked LengthIndex := do
  let ⟨b, exact, cumulative⟩ := x.grow n
  pure
    { backend := b
      exact := ← modified (fun s => some ((s.getD (.empty b)).insert r)) n exact
      cumulative := ← modifiedFirst (·.insert r) (n + 1) cumulative }

/-- Removes a record that was added with length `n`, up to the last slot at
most. -/
def removeLength (x : LengthIndex) (r : Record) (n : Nat) : Checked LengthIndex := do
  let ⟨b, exact, cumulative⟩ := x
  let upto := min n (cumulative.size - 1)
  pure
    { backend := b
      exact := exact.modify n (·.map (·.erase r))
      cumulative := ← if cumulative.isEmpty then pure cumulative
        else modifiedFirst (·.erase r) (upto + 1) cumulative }

/-- What is checked is that there is a set of each kind for the length. -/
theorem isOk_addLength_iff {r : Record} {n : Nat} :
    (addLength x r n).isOk ↔ n < (x.grow n).cumulative.size := by
  have hslots := LengthIndex.slots_grow x n
  rw [LengthIndex.slots] at hslots
  unfold addLength
  generalize x.grow n = y at *
  obtain ⟨b, exact, cumulative⟩ := y
  simp only at hslots
  simp only [modified_eq_ok (show n < exact.size by omega), ok_bind]
  constructor
  · intro h
    obtain ⟨_, hfirst, -⟩ := isOk_bind_iff.1 h
    exact isOk_modifiedFirst_iff.1 (isOk_of_eq_ok hfirst)
  · intro h
    rw [modifiedFirst_eq_ok h]
    rfl

/-- **The slot is there once room was made.** -/
theorem addLength_eq_ok (h : x.Valid b) (r : Record) (n : Nat) :
    addLength x r n = .ok (x.add r n) := by
  have hsize := (h.grow n).size_eq
  have hslots := LengthIndex.slots_grow x n
  rw [LengthIndex.slots] at hslots
  unfold addLength LengthIndex.add
  generalize x.grow n = y at *
  obtain ⟨b, exact, cumulative⟩ := y
  simp only at hsize hslots
  simp only [modified_eq_ok (show n < exact.size by omega),
    modifiedFirst_eq_ok (show n + 1 ≤ cumulative.size by omega), ok_bind]
  rfl

theorem removeLength_eq_ok (x : LengthIndex) (r : Record) (n : Nat) :
    removeLength x r n = .ok (x.remove r n) := by
  obtain ⟨b, exact, cumulative⟩ := x
  unfold removeLength LengthIndex.remove
  simp only
  by_cases hempty : cumulative.isEmpty = true
  · have hsize : cumulative.size = 0 := by simpa using hempty
    rw [if_pos hempty, hsize, Nat.min_zero]
    rfl
  · have hsize : cumulative.size ≠ 0 := by simpa using hempty
    rw [if_neg hempty, modifiedFirst_eq_ok (by omega), ok_bind,
      show min n (cumulative.size - 1) + 1 = min (n + 1) cumulative.size by omega]
    rfl

end Length

/-! ## Both -/

variable {b : Backend} {t : Tables} {r : Record} {v : Bytes}

/-- Adds a record under its value. -/
def add (t : Tables) (r : Record) (v : Bytes) : Checked Tables := do
  pure ⟨← throughValue (addByte r) v.length t.positional v, ← addLength t.length r v.length⟩

/-- Removes a record that was added under a value. -/
def remove (t : Tables) (r : Record) (v : Bytes) : Checked Tables := do
  pure ⟨← throughValue (removeByte r) v.length t.positional v, ← removeLength t.length r v.length⟩

/-- **Adding a value takes nothing for granted but that it fits.** -/
theorem add_eq_ok (h : t.length.Valid b) (hv : v.length < Tables.positionLimit) :
    add t r v = .ok (t.add r v) := by
  rw [add, throughValue_eq_ok (fun x c i j hi hj => addByte_eq_ok r x c hi hj) hv, ok_bind,
    addLength_eq_ok h, ok_bind]
  rfl

/-- **Neither does taking it out.** -/
theorem remove_eq_ok (hv : v.length < Tables.positionLimit) :
    remove t r v = .ok (t.remove r v) := by
  rw [remove, throughValue_eq_ok (fun x c i j hi hj => removeByte_eq_ok r x c hi hj) hv, ok_bind,
    removeLength_eq_ok, ok_bind]
  rfl

/-- **Nor can either do with less**: a value that does not fit makes a slip. -/
theorem isOk_add_iff (h : t.length.Valid b) :
    (add t r v).isOk ↔ v.length < Tables.positionLimit := by
  refine ⟨fun hok => ?_, fun hv => isOk_of_eq_ok (add_eq_ok h hv)⟩
  obtain ⟨_, hthrough, -⟩ := isOk_bind_iff.1 hok
  exact length_lt_of_isOk_throughValue (fun _ _ _ _ hbyte => (isOk_addByte_iff.1 hbyte).2)
    (isOk_of_eq_ok hthrough)

theorem isOk_remove_iff : (remove t r v).isOk ↔ v.length < Tables.positionLimit := by
  refine ⟨fun hok => ?_, fun hv => isOk_of_eq_ok (remove_eq_ok hv)⟩
  obtain ⟨_, hthrough, -⟩ := isOk_bind_iff.1 hok
  exact length_lt_of_isOk_throughValue (fun _ _ _ _ hbyte => (isOk_removeByte_iff.1 hbyte).2)
    (isOk_of_eq_ok hthrough)

end Checked

end WildcardIndex
