import Mathlib.Data.List.Basic
import WildcardIndex.Config.Text
import WildcardIndex.Proofs.Config.Standard
/-!
# Configuration — a written one is read as the same

A configuration is written as its sections, and read from what a text gives over
the defaults. If the codec keeps to its rules, a text of sections gives all
their settings, none of which a default hides, and what is extracted is the
configuration that was written. So **what is written is read as the same
configuration**, whether an index can be made from it or not; and a number that
has no room is not written at all.
-/

namespace WildcardIndex.Config

variable {codec : Codec} {c : Config}

/-- **There is room for a configuration** if there is for its two numbers: no
other setting is one. -/
theorem fit_sections_iff (hnames : codec.KeepsNames) :
    (codec.sections c).Fit ↔
      (c.maxIndexedLength : Int) ≤ Toml.maxInteger ∧
        (c.compactionThreshold : Int) ≤ Toml.maxInteger := by
  constructor
  · intro hfit
    have hroom : ∀ x : Setting, ∀ n, x.value c = .count n → (n : Int) ≤ Toml.maxInteger :=
      fun x n hn => hfit x.group x.key n ((hnames.holds_sections c _ _ _).2 ⟨x, rfl, rfl, hn.symm⟩)
    exact ⟨hroom .maxIndexedLength _ rfl, hroom .compactionThreshold _ rfl⟩
  · rintro ⟨hmax, hthreshold⟩ name key n hn
    obtain ⟨x, -, -, hx⟩ := (hnames.holds_sections c name key _).1 hn
    cases x with
    | maxIndexedLength => exact (Toml.Scalar.count.inj hx) ▸ hmax
    | compactionThreshold => exact (Toml.Scalar.count.inj hx) ▸ hthreshold
    | _ => cases hx

/-- A text of the sections is read as the configuration: it gives every setting,
and the defaults hide none. -/
theorem ofToml_of_document (hreads : codec.ReadsToml) (hmerges : codec.MergesLater)
    (hnames : codec.KeepsNames) {text : String}
    (h : Toml.Document (codec.sections c) text.toList) : ofToml text codec = .ok c := by
  obtain ⟨data, hread, hgiven⟩ := hreads.read_ok .text text _ (hnames.wellFormed_sections c) h
  have hsettings : ∀ x : Setting,
      codec.value? (codec.merge codec.defaults data) x.group x.key = some (x.value c) := fun x =>
    hmerges.value?_merge _ _ _ _ _
      (hgiven _ _ _ ((hnames.holds_sections c _ _ _).2 ⟨x, rfl, rfl, rfl⟩))
  simp only [ofToml, givenBy, hread, bind, Except.bind, ofData, hnames.extract_ok _ c hsettings]

/-- **A written configuration is read as the same one.** It is written unless one
of its numbers is over the greatest of 64 bits with a sign, and that is a failure
to parse. -/
theorem ofToml_toToml (codec : Codec) (hwrites : codec.WritesToml) (hreads : codec.ReadsToml)
    (hmerges : codec.MergesLater) (hnames : codec.KeepsNames) (c : Config) :
    if (c.maxIndexedLength : Int) ≤ Toml.maxInteger ∧
        (c.compactionThreshold : Int) ≤ Toml.maxInteger then
      ∃ text, c.toToml codec = .ok text ∧ ofToml text codec = .ok c
    else
      ∃ e reason, c.toToml codec = .error e ∧ e.parseFailure? = some reason ∧
        e.message = "Failed to parse configuration: " ++ reason := by
  have hss := hnames.wellFormed_sections c
  split
  case isTrue hroom =>
    obtain ⟨text, hwrite, hdocument⟩ := hwrites.write_ok _ hss ((fit_sections_iff hnames).2 hroom)
    refine ⟨text, ?_, ofToml_of_document hreads hmerges hnames hdocument⟩
    rw [toToml, hwrite]
  case isFalse hroom =>
    obtain ⟨reason, hwrite⟩ :=
      hwrites.write_error _ hss fun hfit => hroom ((fit_sections_iff hnames).1 hfit)
    refine ⟨@ConfigError.tooLarge reason, reason, ?_, rfl, rfl⟩
    rw [toToml, hwrite]

/-- The log level needs every kind of care: quotes of both kinds, a backslash, a
line end and a control character. The threshold is the greatest there is room
for, and one more is too much. -/
theorem ofToml_toToml_of_quotes :
    let c : Config :=
      { maxIndexedLength := 0, compactionThreshold := 9223372036854775807, autoCompact := false
        backend := .dense, logLevel := "\"it's\" \\ '''\n\x01" }
    let text := "[index]\nmax_indexed_length = 0\ncompaction_threshold = 9223372036854775807\n" ++
      "auto_compact = false\n\n[bitmap]\nbackend = \"dense\"\n\n[logging]\n" ++
      "level = \"\"\"\n\"it's\" \\\\ '''\n\\u0001\"\"\"\n"
    c.toToml .standard = .ok text ∧ ofToml text .standard = .ok c ∧
      ∃ e reason, ({ c with compactionThreshold := 9223372036854775808 } : Config).toToml .standard =
          .error e ∧ e.parseFailure? = some reason ∧
        e.message = "Failed to parse configuration: " ++ reason := by
  intro c text
  have hround := ofToml_toToml .standard Codec.standard_writesToml Codec.standard_readsToml
    Codec.standard_mergesLater Codec.standard_keepsNames
  have hfits := hround c
  have hover := hround { c with compactionThreshold := 9223372036854775808 }
  rw [if_pos (by decide)] at hfits
  rw [if_neg (by decide)] at hover
  obtain ⟨text', hwrite, hread⟩ := hfits
  have htext : c.toToml .standard = .ok text := by decide +kernel
  obtain rfl : text' = text := Except.ok.inj (hwrite.symm.trans htext)
  exact ⟨hwrite, hread, hover⟩

end WildcardIndex.Config
