import WildcardIndex.Config.Codec
import WildcardIndex.Config.Environment
import WildcardIndex.Config.Settings
import WildcardIndex.Toml.Reader
import WildcardIndex.Toml.Writer
/-!
# Configuration — a codec

The codec that is used where no other is given. It keeps what each source gives
apart, so that a misfit can be traced to where it came from, and looks through
the sources from the last one on.

It is one codec among others: what is proved of configurations is proved for
every codec that keeps to the rules, and rests on nothing below. That the one
below keeps to them shows that the rules can be kept.
-/

namespace WildcardIndex

/-- The sections of a configuration. -/
def Config.sections (c : Config) : Toml.Sections :=
  [("index", [Setting.maxIndexedLength, .compactionThreshold, .autoCompact].map (Setting.entry c)),
    ("bitmap", [Setting.backend].map (Setting.entry c)),
    ("logging", [Setting.logLevel].map (Setting.entry c))]

namespace Codec

/-- Reads a TOML text. -/
def readToml (origin : Origin) (text : String) : Except String Given :=
  match Toml.read? text with
  | some es => .ok [(origin, [.table .header es])]
  | none => .error "the text is not TOML"

/-- The configuration that was given, or what is wrong with it, in words. -/
def settle (g : Given) : Except String Config :=
  match Config.ofGiven g with
  | .ok c => .ok c
  | .error m => .error m.message

/-- A codec for TOML. -/
def standard : Codec where
  Data := Given
  value? := Given.scalar?
  sections := Config.sections
  write := Toml.write
  read := readToml
  ofSections ss := [(.defaults, [.table .header ss.entries])]
  environment := Environment.given
  merge d e := e ++ d
  extract := settle

end Codec

end WildcardIndex
