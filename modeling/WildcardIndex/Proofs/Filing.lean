import Mathlib.Data.List.Basic
import WildcardIndex.Proofs.Contents
/-!
# Filing — sequences of changes to what is filed

What is filed under records changes one record at a time, or loses a set of
records at once. An index keeps up with a sequence of such changes as long as
each of them is **proper**: a record is added only while it is not filed, and
removed only under what it is filed under.
-/

namespace WildcardIndex

/-- A change to what is filed. -/
inductive Filing (α : Type) where
  /-- A record is filed. -/
  | add (r : Record) (a : α)
  /-- A record is taken out of where it was filed. -/
  | remove (r : Record) (a : α)
  /-- The records of a set are taken out. -/
  | subtract (gone : RecordSet)
  /-- Every record is taken out. -/
  | clear

variable {α : Type} {b : Backend}

namespace Contents

/-- What is filed after a change. -/
def after (m : Contents α) : Filing α → Contents α
  | .add r a => m.set r (some a)
  | .remove r _ => m.set r .none
  | .subtract gone => m.without gone
  | .clear => none

/-- What is filed after a sequence of changes. -/
def afterAll (m : Contents α) (fs : List (Filing α)) : Contents α := fs.foldl after m

end Contents

namespace Filing

/-- A change an index keeps up with. A record that is not filed may be removed
under anything; a set has to be one of the backend. -/
def Proper (b : Backend) (m : Contents α) : Filing α → Prop
  | .add r _ => m r = none
  | .remove r a => ∀ a' ∈ m r, a' = a
  | .subtract gone => gone.backend = b
  | .clear => True

/-- Each change is proper where it comes. -/
def AllProper (b : Backend) (m : Contents α) : List (Filing α) → Prop
  | [] => True
  | f :: fs => f.Proper b m ∧ AllProper b (m.after f) fs

end Filing

namespace Contents

variable {P : α → Prop} {m : Contents α}

/-- What is filed afterwards was filed before, or by the change. -/
theorem forall_after (h : ∀ r a, m r = some a → P a) {f : Filing α}
    (hf : ∀ r a, f = .add r a → P a) (r : Record) (a : α) (ha : m.after f r = some a) : P a := by
  have hset : ∀ {u : Record} {o : Option α}, (∀ a', o = some a' → P a') →
      m.set u o r = some a → P a := by
    intro u o ho hset
    by_cases hr : r = u
    · rw [hr, set_self] at hset
      exact ho a hset
    · rw [set_of_ne hr] at hset
      exact h r a hset
  cases f with
  | add u a' => exact hset (fun _ heq => Option.some.inj heq ▸ hf u a' rfl) ha
  | remove u a' => exact hset (o := .none) nofun ha
  | subtract gone => exact h r a (without_eq_some.1 ha).2
  | clear => cases ha

/-- **What holds of everything added holds of everything filed.** -/
theorem forall_afterAll (h : ∀ r a, m r = some a → P a) {fs : List (Filing α)}
    (hfs : ∀ r a, .add r a ∈ fs → P a) (r : Record) (a : α) (ha : m.afterAll fs r = some a) : P a := by
  induction fs generalizing m with
  | nil => exact h r a ha
  | cons f fs ih =>
    have hf := forall_after h fun u a' heq => hfs u a' (heq ▸ List.mem_cons_self)
    exact ih hf (fun u a' hmem => hfs u a' (List.mem_cons_of_mem f hmem)) ha

end Contents

end WildcardIndex
