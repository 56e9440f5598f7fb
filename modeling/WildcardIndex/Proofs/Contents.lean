import WildcardIndex.Bytes
import WildcardIndex.RecordSet.Basic
/-!
# Contents — what is filed under each record

Tables are held against a map from records to what they were filed under. It
changes one record at a time, or loses a set of records at once.
-/

namespace WildcardIndex

/-- What each record is filed under, if anything. -/
abbrev Contents (α : Type) := Record → Option α

namespace Contents

variable {α : Type} {m : Contents α} {r u : Record} {o : Option α} {a : α} {gone : RecordSet}

/-- Nothing is filed. -/
def none : Contents α := fun _ => Option.none

/-- Files one record anew, or takes it out. -/
def set (m : Contents α) (r : Record) (o : Option α) : Contents α :=
  fun u => if u = r then o else m u

/-- Takes out the records of a set. -/
def without (m : Contents α) (gone : RecordSet) : Contents α :=
  fun u => if u ∈ gone then .none else m u

theorem set_self : m.set r o r = o := if_pos rfl

theorem set_of_ne (h : u ≠ r) : m.set r o u = m u := if_neg h

/-- Filing a record where it is changes nothing. -/
theorem set_eq_self (h : m r = o) : m.set r o = m := by
  funext u
  by_cases hu : u = r
  · rw [hu, set_self, h]
  · rw [set_of_ne hu]

theorem set_set (m : Contents α) (r : Record) (o o' : Option α) : (m.set r o).set r o' = m.set r o' := by
  funext u
  by_cases hu : u = r
  · subst hu
    rw [set_self, set_self]
  · rw [set_of_ne hu, set_of_ne hu, set_of_ne hu]

theorem without_of_mem (h : u ∈ gone) : m.without gone u = .none := if_pos h

theorem without_of_not_mem (h : u ∉ gone) : m.without gone u = m u := if_neg h

/-- A record is filed under one thing only. -/
theorem exists_iff {P : α → Prop} (h : m r = some a) : (∃ a', m r = some a' ∧ P a') ↔ P a := by
  rw [h]
  exact ⟨fun ⟨_, ha, hP⟩ => Option.some.inj ha ▸ hP, fun hP => ⟨a, rfl, hP⟩⟩

theorem exists_and_exists {P Q : α → Prop} :
    ((∃ a, m r = some a ∧ P a) ∧ ∃ a, m r = some a ∧ Q a) ↔ ∃ a, m r = some a ∧ P a ∧ Q a := by
  cases h : m r with
  | none => simp
  | some a => simp

/-- What is left was filed before, and its record is not gone. -/
theorem without_eq_some : m.without gone u = some a ↔ u ∉ gone ∧ m u = some a := by
  by_cases h : u ∈ gone
  · rw [without_of_mem h]
    simp [h]
  · rw [without_of_not_mem h]
    simp [h]

end Contents

end WildcardIndex
