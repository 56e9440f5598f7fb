import WildcardIndex.Text.Quoted
import WildcardIndex.Toml.Sections
/-!
# Configuration — what was given for a setting

Settings are given by the defaults, by a text and by the environment, and what
comes later counts more. Two tables given for the same place are both looked into; anything
else hides what was given before it. So **a bad value that something later
replaces does no harm**, and an error names the place the value came from.
-/

namespace WildcardIndex

open Toml (Value)

/-- Where a value came from. -/
inductive Origin where
  /-- The defaults. -/
  | defaults
  /-- A text. -/
  | text
  /-- A file, by its name. -/
  | file (name : String)
  /-- The environment. -/
  | environment
  deriving DecidableEq, Repr

namespace Origin

/-- A place a value came from, in words. -/
def describe : Origin → String
  | defaults => "the defaults"
  | text => "TOML source string"
  | file name => name ++ " TOML file"
  | environment => "`LIKEINDEX_` environment variable(s)"

/-- The path of a setting, as it is spelt there. -/
def spell : Origin → List String → String
  | environment, path => ".".intercalate (path.map String.toUpper)
  | _, path => ".".intercalate ("default" :: path)

end Origin

/-- A value, by its type and, if it is short, by itself. -/
def Toml.Value.describe : Value → String
  | .bool b => "bool " ++ if b then "true" else "false"
  | .signed n => "signed int `" ++ toString n ++ "`"
  | .unsigned n => "unsigned int `" ++ toString n ++ "`"
  | .float x => "float `" ++ x.text ++ "`"
  | .string s => "string " ++ Text.quoted s
  | .moment | .table .. => "map"
  | .array .. => "sequence"

/-- What is wrong with a value. -/
inductive Fault where
  /-- It is not of the type a setting has. -/
  | wrongType (found : Value) (expected : String)
  /-- It is negative where a count is called for. -/
  | negative (n : Int)
  /-- It names no backend. -/
  | unknownBackend (word : String)

/-- A value that cannot be used. -/
structure Misfit where
  /-- What is wrong with it. -/
  fault : Fault
  /-- The setting it was given for. -/
  path : List String
  /-- Where it came from. -/
  origin : Origin

/-- What is wrong with a value, in words. -/
def Fault.message : Fault → String
  | wrongType found expected =>
    "invalid type: found " ++ found.describe ++ ", expected " ++ expected
  | negative n => "invalid value signed int `" ++ toString n ++ "`, expected usize"
  | unknownBackend word =>
    "unknown variant: found `" ++ word ++ "`, expected ``roaring` or `dense``"

/-- What is wrong, where, and where it came from. -/
def Misfit.message (m : Misfit) : String :=
  m.fault.message ++ " for key \"" ++ m.origin.spell m.path ++ "\" in " ++ m.origin.describe

/-- What was given for one place, by origin. The latest origin comes first, and
so does the latest value of each. -/
abbrev Given := List (Origin × List Value)

namespace Given

/-- A value that other values can be given in. -/
def isTable : Value → Bool
  | .table .. | .moment => true
  | _ => false

/-- The values of one origin that are looked into. -/
def opened (vs : List Value) : List Value := vs.takeWhile isTable

/-- What one origin gives for an entry of a table. -/
def below (key : String) (vs : List Value) : List Value :=
  (opened vs).filterMap fun v =>
    match v with
    | .table _ es => es.lookup key
    | _ => none

/-- The origins that are looked into: those that nothing later hides. -/
def tables (g : Given) : Given := g.takeWhile fun (_, vs) => !(opened vs).isEmpty

/-- What was given for an entry of a table. -/
def entry (g : Given) (key : String) : Given :=
  g.tables.filterMap fun (o, vs) =>
    let vs := below key vs
    if vs.isEmpty then none else some (o, vs)

/-- The value that counts. Of several tables it is the first. -/
def value? (g : Given) : Option (Origin × Value) :=
  (g.tables.getLast?.or g.head?).bind fun (o, vs) => vs.head?.map fun v => (o, v)

/-- The plain value for a key of a section, if that is what counts. -/
def scalar? (g : Given) (name key : String) : Option Toml.Scalar :=
  ((g.entry name).entry key).value?.bind fun (_, v) => v.scalar?

end Given

end WildcardIndex
