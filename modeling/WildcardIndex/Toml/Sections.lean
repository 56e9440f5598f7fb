import WildcardIndex.Toml.Value
/-!
# TOML — sections

A text that is written here is a list of sections, and a section is a list of
keys with plain values: truth values, counts and strings. What is read can be
much more; of that, plain values are what settings can be taken from.
-/

namespace WildcardIndex.Toml

/-- A plain value. -/
inductive Scalar where
  /-- A truth value. -/
  | flag (b : Bool)
  /-- A number that counts something. -/
  | count (n : Nat)
  /-- A string. -/
  | word (s : String)
  deriving DecidableEq, Repr

/-- Keys with their values. -/
abbrev Section := List (String × Scalar)

/-- Sections by their names, in order. -/
abbrev Sections := List (String × Section)

/-- A plain value among the others. -/
def Scalar.toValue : Scalar → Value
  | flag b => .bool b
  | count n => .signed n
  | word s => .string s

/-- The plain value a value is, if it is one. -/
def Value.scalar? : Value → Option Scalar
  | bool b => some (.flag b)
  | signed n => if 0 ≤ n then some (.count n.toNat) else none
  | unsigned n => some (.count n)
  | string s => some (.word s)
  | _ => none

@[simp] theorem Value.scalar?_toValue (v : Scalar) : v.toValue.scalar? = some v := by
  cases v with
  | count n => simp [Scalar.toValue, Value.scalar?]
  | _ => rfl

theorem Value.scalar?_eq_flag {v : Value} {b : Bool} :
    v.scalar? = some (.flag b) ↔ v = .bool b := by
  cases v <;> simp [Value.scalar?]

theorem Value.scalar?_eq_word {v : Value} {s : String} :
    v.scalar? = some (.word s) ↔ v = .string s := by
  cases v <;> simp [Value.scalar?]

theorem Value.scalar?_eq_count {v : Value} {n : Nat} :
    v.scalar? = some (.count n) ↔ v = .signed n ∨ v = .unsigned n := by
  cases v with
  | signed m =>
    simp only [Value.scalar?, Option.ite_none_right_eq_some, Option.some.injEq, Scalar.count.injEq,
      Value.signed.injEq, reduceCtorEq, or_false]
    omega
  | _ => simp [Value.scalar?]

/-- The table of a section. -/
def Section.table (xs : Section) : Value :=
  .table .header (xs.map fun (key, v) => (key, v.toValue))

/-- The tables of sections. -/
def Sections.entries (ss : Sections) : Entries := ss.map fun (name, xs) => (name, xs.table)

end WildcardIndex.Toml
