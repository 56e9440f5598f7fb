import WildcardIndex.Config.Standard
/-!
# Configuration — as a text

A configuration is written as its sections, and read as what a text gives over
the defaults. Whatever the codec objects to, in reading a text, in what the
sources give or in writing, is a failure to parse, in the codec's own words.
-/

namespace WildcardIndex

/-- What can go wrong between a configuration and its sources. Of the failures
to parse, the reason is the codec's. -/
inductive ConfigError where
  /-- Failure to parse: a text cannot be read. -/
  | notToml {reason : String}
  /-- Failure to parse: what was given is no configuration. -/
  | misfit (reason : String)
  /-- Failure to parse: a configuration cannot be written. -/
  | tooLarge {reason : String}
  /-- A setting is not acceptable. -/
  | unacceptable (u : Unacceptable)
  /-- There is no file at a path. -/
  | fileNotFound (path : String)
  /-- A path could not be looked up, for the reason given. -/
  | unreadable (reason : String)
  deriving DecidableEq, Repr

namespace ConfigError

/-- The reason of a failure to parse. -/
def parseFailure? : ConfigError → Option String
  | @notToml reason | misfit reason | @tooLarge reason => some reason
  | _ => none

/-- What went wrong, in words. -/
def message : ConfigError → String
  | @notToml reason | misfit reason | @tooLarge reason =>
    "Failed to parse configuration: " ++ reason
  | unacceptable u => u.message
  | fileNotFound path => "Configuration file not found: " ++ path
  | unreadable reason => "IO error: " ++ reason

end ConfigError

namespace Config

/-- What a text from some origin gives. -/
def givenBy (codec : Codec) (origin : Origin) (text : String) : Except ConfigError codec.Data :=
  match codec.read origin text with
  | .ok data => .ok data
  | .error reason => .error (@ConfigError.notToml reason)

/-- The configuration that was given. -/
def ofData (codec : Codec) (data : codec.Data) : Except ConfigError Config :=
  match codec.extract data with
  | .ok c => .ok c
  | .error reason => .error (.misfit reason)

/-- Reads a configuration from a text. What the text does not give has its
default. -/
def ofToml (text : String) (codec : Codec := .standard) : Except ConfigError Config := do
  ofData codec (codec.merge codec.defaults (← givenBy codec .text text))

/-- Writes a configuration as a text. -/
def toToml (c : Config) (codec : Codec := .standard) : Except ConfigError String :=
  match codec.write (codec.sections c) with
  | .ok text => .ok text
  | .error reason => .error (@ConfigError.tooLarge reason)

end Config

end WildcardIndex
