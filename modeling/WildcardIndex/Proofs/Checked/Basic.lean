import Mathlib.Data.List.Basic
import WildcardIndex.Length
import WildcardIndex.Proofs.Positional.Lookup
/-!
# Checked — steps that may slip

Some steps take something for granted: that a cell is there, that there is
enough to take the first bytes of, that a difference is not below zero, that an
offset keeps its value when it is brought to 32 bits. Here they are steps that
fail where it is not so. **What comes to a result with such steps took nothing
for granted in vain**, so an operation is done once more with them, and held
against the one that runs.

That nothing slips would say little of a step that checks nothing. So it is
proved beside the steps, and beside what is made of them, when they come to a
result: exactly if what they take for granted is so.
-/

namespace WildcardIndex

/-- What can go wrong with a step. -/
inductive Slip where
  /-- It reaches beyond the end. -/
  | beyond
  /-- It goes below zero. -/
  | below
  /-- It changes an offset. -/
  | narrowed
  /-- Something still waits after it. -/
  | unfinished
  deriving DecidableEq, Repr

/-- A result, unless a step slips. -/
abbrev Checked (α : Type) := Except Slip α

namespace Checked

variable {α β : Type} {cells : Array α} {a : α} {as : List α} {f : α → α} {i m n : Nat}

/-- A cell of an array. -/
def cell (cells : Array α) (i : Nat) : Checked α :=
  match cells[i]? with
  | some a => .ok a
  | none => .error .beyond

/-- Changes a cell of an array. -/
def modified (f : α → α) (i : Nat) (cells : Array α) : Checked (Array α) :=
  if i < cells.size then .ok (cells.modify i f) else .error .beyond

/-- Changes the first `n` cells of an array. -/
def modifiedFirst (f : α → α) (n : Nat) (cells : Array α) : Checked (Array α) :=
  if n ≤ cells.size then .ok (modifyFirst f n cells) else .error .beyond

/-- The first `n` of a list. -/
def firstOf (n : Nat) (as : List α) : Checked (List α) :=
  if n ≤ as.length then .ok (as.take n) else .error .beyond

/-- What is left of `m` without `n`. -/
def difference (m n : Nat) : Checked Nat := if n ≤ m then .ok (m - n) else .error .below

/-- The position of an offset, which it has to be. -/
def position (n : Nat) : Checked Position :=
  if (positionOf n).toInt = n then .ok (positionOf n) else .error .narrowed

/-! ## What the steps check -/

theorem isOk_of_eq_ok {x : Checked α} (h : x = .ok a) : x.isOk := h ▸ rfl

theorem isOk_ite_iff {p : Prop} [Decidable p] {e : Slip} :
    (if p then .ok a else .error e : Checked α).isOk ↔ p := by
  split <;> simp [*, Except.isOk, Except.toBool]

/-- Of steps one after the other, the first does not slip, nor does the next. -/
theorem isOk_bind_iff {x : Checked α} {f : α → Checked β} :
    (x >>= f).isOk ↔ ∃ a, x = .ok a ∧ (f a).isOk := by
  cases x with
  | ok a => exact ⟨fun h => ⟨a, rfl, h⟩, fun ⟨_, ha, h⟩ => Except.ok.inj ha ▸ h⟩
  | error e => exact ⟨fun h => (nomatch h), fun ⟨_, ha, _⟩ => (nomatch ha)⟩

theorem isOk_cell_iff : (cell cells i).isOk ↔ i < cells.size := by
  rw [cell]
  by_cases hi : i < cells.size <;> simp [hi, Except.isOk, Except.toBool]

theorem isOk_modified_iff : (modified f i cells).isOk ↔ i < cells.size := isOk_ite_iff

theorem isOk_modifiedFirst_iff : (modifiedFirst f n cells).isOk ↔ n ≤ cells.size := isOk_ite_iff

theorem isOk_firstOf_iff : (firstOf n as).isOk ↔ n ≤ as.length := isOk_ite_iff

theorem isOk_difference_iff : (difference m n).isOk ↔ n ≤ m := isOk_ite_iff

/-- **The offsets that keep their value are those below the limit.** -/
theorem isOk_position_iff : (position n).isOk ↔ n < Tables.positionLimit := by
  rw [position, isOk_ite_iff]
  refine ⟨fun h => ?_, toInt_positionOf⟩
  have := (positionOf n).toInt_lt
  simp only [Tables.positionLimit]
  omega

/-! ## What comes of them -/

/-- After a step that does not slip comes the next. -/
theorem ok_bind (a : α) (f : α → Checked β) : (.ok a : Checked α) >>= f = f a := rfl

theorem cell_eq_ok (h : cells[i]? = some a) : cell cells i = .ok a := by
  rw [cell, h]

theorem modified_eq_ok (h : i < cells.size) : modified f i cells = .ok (cells.modify i f) :=
  if_pos h

theorem modifiedFirst_eq_ok (h : n ≤ cells.size) :
    modifiedFirst f n cells = .ok (modifyFirst f n cells) := if_pos h

theorem firstOf_eq_ok (h : n ≤ as.length) : firstOf n as = .ok (as.take n) := if_pos h

theorem difference_eq_ok (h : n ≤ m) : difference m n = .ok (m - n) := if_pos h

/-- **An offset below the limit is its position.** -/
theorem position_eq_ok (h : n < Tables.positionLimit) : position n = .ok (positionOf n) :=
  if_pos (toInt_positionOf h)

/-- **Steps one after the other** do not slip if none of them does. -/
theorem foldlM_eq_ok {step : β → α → β} {step' : β → α → Checked β}
    (h : ∀ b, ∀ a ∈ as, step' b a = .ok (step b a)) (b : β) :
    as.foldlM step' b = .ok (as.foldl step b) := by
  induction as generalizing b with
  | nil => rfl
  | cons a as ih =>
    rw [List.foldlM_cons, h b a List.mem_cons_self, List.foldl_cons]
    exact ih (fun b a' ha' => h b a' (List.mem_cons_of_mem a ha')) (step b a)

/-- What `f` makes of the elements of a list, where it makes something. -/
def filterMap (f : α → Checked (Option β)) : List α → Checked (List β)
  | [] => pure []
  | a :: as => do
    let o ← f a
    let bs ← filterMap f as
    pure (match o with
      | some b => b :: bs
      | none => bs)

theorem filterMap_eq_ok {f : α → Option β} {f' : α → Checked (Option β)}
    (h : ∀ a ∈ as, f' a = .ok (f a)) : filterMap f' as = .ok (as.filterMap f) := by
  induction as with
  | nil => rfl
  | cons a as ih =>
    rw [filterMap, h a List.mem_cons_self, ok_bind,
      ih fun a' ha' => h a' (List.mem_cons_of_mem a ha'), ok_bind, List.filterMap_cons]
    cases f a <;> rfl

end Checked

end WildcardIndex
