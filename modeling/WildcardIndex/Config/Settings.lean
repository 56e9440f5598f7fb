import WildcardIndex.Config.Basic
import WildcardIndex.Config.Given
/-!
# Configuration — reading the settings from what was given

A section is a table with its settings by name, or an array with its settings
in the order they are listed. Settings that were not given keep their defaults,
and names that are no setting are ignored. Of several misfits the first is
reported: sections and names go by the alphabet, places by their number.
-/

namespace WildcardIndex

open Toml (Value)

/-- What was given for a setting, and the path it goes by. -/
structure Place where
  /-- The path. -/
  path : List String
  /-- What was given. -/
  given : Given

namespace Place

/-- A misfit of a value that was given. -/
def misfit {α : Type} (p : Place) (origin : Origin) (fault : Fault) : Except Misfit α :=
  .error ⟨fault, p.path, origin⟩

/-- A truth value. -/
def bool (p : Place) (default : Bool) : Except Misfit Bool :=
  match p.given.value? with
  | none => .ok default
  | some (_, .bool b) => .ok b
  | some (o, v) => p.misfit o (.wrongType v "a boolean")

/-- A count. -/
def count (p : Place) (default : Nat) : Except Misfit Nat :=
  match p.given.value? with
  | none => .ok default
  | some (_, .unsigned n) => .ok n
  | some (o, .signed n) => if 0 ≤ n then .ok n.toNat else p.misfit o (.negative n)
  | some (o, v) => p.misfit o (.wrongType v "usize")

/-- A string. -/
def string (p : Place) (default : String) : Except Misfit String :=
  match p.given.value? with
  | none => .ok default
  | some (_, .string s) => .ok s
  | some (o, v) => p.misfit o (.wrongType v "a string")

/-- The key a date or a time counts as a table of. -/
def momentKey : String := "$__toml_private_datetime"

/-- The keys of a table, with what was given for each. -/
def keys (p : Place) : List (String × Origin × Value) :=
  p.given.tables.flatMap fun (o, vs) => (Given.opened vs).flatMap fun v =>
    match v with
    | .table _ es => es.map fun (k, v) => (k, o, v)
    | _ => [(momentKey, o, .string "")]

/-- A backend in a table: its first key would name it and hold nothing, but
there is no way to write nothing. -/
def backendKey (p : Place) (o : Origin) (v : Value) : Except Misfit Backend :=
  match (p.keys.map Prod.fst).mergeSort with
  | [] => p.misfit o (.wrongType v "enum")
  | k :: _ =>
    match Backend.ofName? k, p.keys.lookup k with
    | some _, some (o, v) =>
      Place.misfit { p with path := p.path ++ [k] } o (.wrongType v "unit")
    | _, _ => p.misfit o (.unknownBackend k)

/-- A backend. -/
def backend (p : Place) (default : Backend) : Except Misfit Backend :=
  match p.given.value? with
  | none => .ok default
  | some (o, .string s) =>
    match Backend.ofName? s with
    | some b => .ok b
    | none => p.misfit o (.unknownBackend s)
  | some (o, v) =>
    if Given.isTable v then p.backendKey o v else p.misfit o (.wrongType v "enum BitmapKind")

end Place

/-- A section: its settings by name and by number, and which of the two it was
given by. -/
structure Section where
  /-- It was given as an array. -/
  byNumber : Bool
  /-- The place of a setting. -/
  setting : (number : Nat) → (name : String) → Place

/-- A section of what was given. -/
def Given.sectionAt (g : Given) (name expected : String) : Except Misfit Section :=
  let given := g.entry name
  match given.value? with
  | none => .ok ⟨false, fun _ key => ⟨[name, key], []⟩⟩
  | some (o, .array _ items) =>
    .ok ⟨true, fun i _ => ⟨[name, toString i], (items[i]?.toList.map fun v => (o, [v]))⟩⟩
  | some (o, v) =>
    if Given.isTable v then .ok ⟨false, fun _ key => ⟨[name, key], given.entry key⟩⟩
    else .error ⟨.wrongType v ("struct " ++ expected), [name], o⟩

namespace Config

/-- The settings that were given, the others by default. -/
def ofGiven (g : Given) : Except Misfit Config := do
  let default : Config := {}
  let bitmap ← g.sectionAt "bitmap" "BitmapConfig"
  let backend ← (bitmap.setting 0 "backend").backend default.backend
  let index ← g.sectionAt "index" "IndexConfig"
  let longest := (index.setting 0 "max_indexed_length").count default.maxIndexedLength
  let threshold := (index.setting 1 "compaction_threshold").count default.compactionThreshold
  let auto := (index.setting 2 "auto_compact").bool default.autoCompact
  let (longest, threshold, auto) ←
    if index.byNumber then do
      let longest ← longest
      let threshold ← threshold
      pure (longest, threshold, ← auto)
    else do
      let auto ← auto
      let threshold ← threshold
      pure (← longest, threshold, auto)
  let logging ← g.sectionAt "logging" "LoggingConfig"
  let level ← (logging.setting 0 "level").string default.logLevel
  return {
    maxIndexedLength := longest
    compactionThreshold := threshold
    autoCompact := auto
    backend := backend
    logLevel := level }

end Config

end WildcardIndex
