import WildcardIndex.Config.Given
import WildcardIndex.Config.Setting
/-!
# Configuration — what it is written and read with

How settings become a text, how a text becomes settings again and how what
several sources give is put together is not the business of a configuration. It
is done with a **codec**, and a configuration only says what is done with it: it
is written as its sections, and read from what a text gives, put over the
defaults. What is said of configurations is said for every codec that keeps to
the rules of its format.
-/

namespace WildcardIndex

/-- What a configuration is written and read with. -/
structure Codec where
  /-- What sources give, as far as it has been put together. -/
  Data : Type
  /-- The plain value for a key of a section, if that is what was given. -/
  value? : Data → String → String → Option Toml.Scalar
  /-- A configuration as sections. -/
  sections : Config → Toml.Sections
  /-- Writes sections as a text, or says why it cannot. -/
  write : Toml.Sections → Except String String
  /-- Reads a text that comes from somewhere, or says why it cannot. -/
  read : Origin → String → Except String Data
  /-- What sections give that come from no text. -/
  ofSections : Toml.Sections → Data
  /-- What the variables of an environment give. -/
  environment : List (String × String) → Data
  /-- Puts together what two sources give. What the second gives counts more. -/
  merge : Data → Data → Data
  /-- The configuration that was given, or what is wrong with it. -/
  extract : Data → Except String Config

/-- The defaults, as what a source gives. -/
def Codec.defaults (codec : Codec) : codec.Data := codec.ofSections (codec.sections {})

end WildcardIndex
