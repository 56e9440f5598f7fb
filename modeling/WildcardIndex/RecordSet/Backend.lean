/-!
# Record sets — the choice of representation

Every set an index holds uses one representation, picked when the index is
made. The choice changes what a set weighs and never what it contains.
-/

namespace WildcardIndex

/-- How the record sets of an index are represented. -/
inductive Backend where
  /-- An ordered set, measured as roaring containers. -/
  | roaring
  /-- A word for every 64 record numbers up to the largest. -/
  | dense
  deriving DecidableEq, Inhabited, Repr

namespace Backend

/-- The word for a backend in configuration texts and statistics. -/
def name : Backend → String
  | roaring => "roaring"
  | dense => "dense"

/-- Every backend, in the order error messages list them. -/
def all : List Backend := [roaring, dense]

/-- The backend a configuration word names. -/
def ofName? (s : String) : Option Backend :=
  all.find? (·.name == s)

/-- **A backend's word names it.** -/
@[simp] theorem ofName?_name (b : Backend) : ofName? b.name = some b := by
  cases b <;> decide

end Backend

end WildcardIndex
