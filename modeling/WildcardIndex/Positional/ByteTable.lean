/-!
# Byte tables — one cell for every byte value
-/

namespace WildcardIndex

/-- A cell for each of the 256 byte values. -/
structure ByteTable (α : Type) where
  /-- The cells, by byte value. -/
  cells : Vector α 256

namespace ByteTable

variable {α β : Type}

/-- The same content in every cell. -/
def uniform (a : α) : ByteTable α := ⟨Vector.replicate 256 a⟩

/-- The content of a byte's cell. -/
def get (t : ByteTable α) (b : UInt8) : α :=
  have := b.toNat_lt
  t.cells[b.toNat]

/-- Changes the content of a byte's cell. -/
def update (t : ByteTable α) (b : UInt8) (f : α → α) : ByteTable α :=
  ⟨⟨t.cells.toArray.modify b.toNat f, by simp⟩⟩

/-- Changes the content of every cell. -/
def map (f : α → β) (t : ByteTable α) : ByteTable β := ⟨t.cells.map f⟩

/-- The contents, by byte value. -/
def toList (t : ByteTable α) : List α := t.cells.toList

/-- The byte values, ascending. -/
def bytes : List UInt8 := (List.range 256).map Nat.toUInt8

/-- Reading back a changed cell. -/
@[simp] theorem get_update_self (t : ByteTable α) (b : UInt8) (f : α → α) :
    (t.update b f).get b = f (t.get b) := by
  simp [get, update, Array.getElem_modify]

/-- The other cells stay. -/
theorem get_update_of_ne (t : ByteTable α) {b c : UInt8} (f : α → α) (h : b ≠ c) :
    (t.update b f).get c = t.get c := by
  have : b.toNat ≠ c.toNat := fun e => h (UInt8.toNat_inj.1 e)
  simp [get, update, Array.getElem_modify, this]

@[simp] theorem get_uniform (a : α) (b : UInt8) : (uniform a).get b = a := by
  simp [get, uniform]

@[simp] theorem get_map (f : α → β) (t : ByteTable α) (b : UInt8) :
    (t.map f).get b = f (t.get b) := by
  simp [get, map]

end ByteTable

end WildcardIndex
