import WildcardIndex.Decimal.Double
/-!
# TOML — values

What a configuration text can hold. Tables remember how they came about,
because that decides whether a later line may still add to them; once a text
has been read, it does not matter any more.
-/

namespace WildcardIndex.Toml

/-- How a table came about. -/
inductive TableKind where
  /-- Written as a value; complete. -/
  | inlined
  /-- Under a header of its own. -/
  | header
  /-- Above the header of another. -/
  | implied
  /-- By the dots of a key. -/
  | dotted
  deriving DecidableEq, Repr

/-- A value. -/
inductive Value where
  /-- A truth value. -/
  | bool (b : Bool)
  /-- An integer of 64 bits with a sign. -/
  | signed (n : Int)
  /-- An integer of 64 bits without a sign, which no TOML text holds. -/
  | unsigned (n : Nat)
  /-- A number with a fraction or an exponent. -/
  | float (x : Double)
  /-- A string. -/
  | string (s : String)
  /-- A date, a time or both. -/
  | moment
  /-- An array; of tables, if each has a header. -/
  | array (ofTables : Bool) (items : List Value)
  /-- A table, its entries in the order they came. -/
  | table (kind : TableKind) (entries : List (String × Value))

/-- The entries of a table. -/
abbrev Entries := List (String × Value)

end WildcardIndex.Toml
