import Mathlib.Data.List.Basic
import WildcardIndex.Config.Codec
import WildcardIndex.Proofs.Toml.Document
/-!
# Configuration — the rules of a codec

What a configuration relies on its codec for, one rule a structure: that it
writes TOML and reads TOML, that of two sources the later one counts, and that
it looks for settings under the names it writes them by. Each is what such a
codec is documented to do, for all sections, texts and sources. None of them
says that anything comes back as it was: the writer and the reader are only held
to the format, and what is extracted to what was given.

The format is TOML 1.0. Its integers are those of 64 bits with a sign, and one
that has no room is to be an error and not to be written as another.
-/

namespace WildcardIndex.Codec

open Toml (Sections Document)

/-- The codec writes TOML. -/
structure WritesToml (codec : Codec) : Prop where
  /-- Sections with room for their numbers are written as one of their documents. -/
  write_ok : ∀ ss : Sections, ss.WellFormed → ss.Fit →
    ∃ text, codec.write ss = .ok text ∧ Document ss text.toList
  /-- An integer beyond 64 bits with a sign is refused. -/
  write_error : ∀ ss : Sections, ss.WellFormed → ¬ ss.Fit → ∃ reason, codec.write ss = .error reason

/-- The codec reads TOML: a document gives what its sections hold, in whichever
of the forms TOML has for it. -/
structure ReadsToml (codec : Codec) : Prop where
  /-- Every document is read, and each of its keys gives its value. -/
  read_ok : ∀ (origin : Origin) (text : String) (ss : Sections), ss.WellFormed →
    Document ss text.toList → ∃ data, codec.read origin text = .ok data ∧
      ∀ name key v, ss.Holds name key v → codec.value? data name key = some v

/-- Of two sources the later one counts. -/
structure MergesLater (codec : Codec) : Prop where
  /-- A plain value that the later one gives stays, whatever the earlier one
  gives. -/
  value?_merge : ∀ (earlier later : codec.Data) name key v,
    codec.value? later name key = some v →
      codec.value? (codec.merge earlier later) name key = some v

/-- The codec keeps the names of settings: those it looks for are those it gives
them. -/
structure KeepsNames (codec : Codec) : Prop where
  /-- No two sections and no two settings of one are given the same name. -/
  wellFormed_sections : ∀ c, (codec.sections c).WellFormed
  /-- A section holds its settings, each under its key, and nothing else. -/
  holds_sections : ∀ c name key v, (codec.sections c).Holds name key v ↔
    ∃ x : Setting, name = x.group ∧ key = x.key ∧ v = x.value c
  /-- Where every setting is given, what is extracted are the settings given. -/
  extract_ok : ∀ (data : codec.Data) c,
    (∀ x : Setting, codec.value? data x.group x.key = some (x.value c)) → codec.extract data = .ok c

end WildcardIndex.Codec
