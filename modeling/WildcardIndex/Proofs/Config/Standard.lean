import Mathlib.Data.List.TakeWhile
import WildcardIndex.Config.Standard
import WildcardIndex.Proofs.Config.Codec
import WildcardIndex.Proofs.Toml.Lines
import WildcardIndex.Proofs.Toml.Writing
/-!
# Configuration — a codec that keeps the rules

The codec that is used where no other is given writes documents, reads every
document, puts what comes later in front of what came before, and asks for
settings by the names it writes. A plain value is never looked into, so what was
given before it does not show.
-/

namespace WildcardIndex

open Toml (Value Entries Sections Section)

/-! ## Sources -/

namespace Given

variable {o : Origin} {v : Value} {vs : List Value} {g h : Given} {name key : String}
  {s : Toml.Scalar}

/-- A value that is looked into is no plain one. -/
theorem scalar?_of_isTable (h : isTable v = true) : v.scalar? = none := by
  cases v <;> first | rfl | cases h

/-- Where something is looked into, a value counts that is. -/
theorem exists_value?_of_tables (h : g.tables ≠ []) :
    ∃ o v, g.value? = some (o, v) ∧ isTable v = true := by
  obtain ⟨⟨o, vs⟩, hlast⟩ := Option.isSome_iff_exists.1 (List.getLast?_isSome.2 h)
  have hopened : (opened vs).isEmpty = false := by
    simpa using List.mem_takeWhile_imp (List.mem_of_getLast? hlast)
  cases vs with
  | nil => cases hopened
  | cons v vs =>
    refine ⟨o, v, by rw [value?, hlast]; rfl, ?_⟩
    by_contra hv
    rw [opened, List.takeWhile_cons_of_neg hv] at hopened
    cases hopened

/-- Where a plain value counts, nothing is. -/
theorem tables_eq_nil (hv : g.value? = some (o, v)) (hs : v.scalar? = some s) : g.tables = [] := by
  by_contra hne
  obtain ⟨o', w, hw, htable⟩ := exists_value?_of_tables hne
  obtain ⟨rfl, rfl⟩ := Prod.mk.inj (Option.some.inj (hv.symm.trans hw))
  rw [scalar?_of_isTable htable] at hs
  cases hs

/-- **A plain value that counts still does** when something else is put behind
it. -/
theorem value?_append (hv : g.value? = some (o, v)) (hs : v.scalar? = some s) (h : Given) :
    (g ++ h).value? = some (o, v) := by
  have hnone := tables_eq_nil hv hs
  rw [value?, hnone, List.getLast?_nil, Option.none_or] at hv
  cases g with
  | nil => cases hv
  | cons e g =>
    have hclosed : tables (e :: g ++ h) = [] := by
      rw [tables, List.takeWhile_eq_nil_iff] at hnone ⊢
      exact fun _ => hnone (Nat.succ_pos _)
    rw [value?, hclosed]
    exact hv

/-- What was given for an entry stays in front of what was given for it before. -/
theorem entry_append (g h : Given) (key : String) : ∃ k, (g ++ h).entry key = g.entry key ++ k := by
  have htables : ∃ k, (g ++ h).tables = g.tables ++ k := by
    rw [tables, List.takeWhile_append]
    split
    · rename_i hall
      rw [tables, (List.takeWhile_prefix _).eq_of_length hall]
      exact ⟨_, rfl⟩
    · exact ⟨[], (List.append_nil _).symm⟩
  obtain ⟨k, hk⟩ := htables
  exact ⟨_, by rw [entry, entry, hk, List.filterMap_append]⟩

/-- **A plain value given later stays.** -/
theorem scalar?_append (hs : g.scalar? name key = some s) (h : Given) :
    (g ++ h).scalar? name key = some s := by
  rw [scalar?, Option.bind_eq_some_iff] at hs
  obtain ⟨⟨o, v⟩, hv, hs⟩ := hs
  obtain ⟨k, hk⟩ := entry_append g h name
  obtain ⟨k', hk'⟩ := entry_append (g.entry name) k key
  rw [scalar?, hk, hk', value?_append hv hs]
  exact hs

end Given

/-! ## What a document gives -/

/-- A key that stands for one value is looked up to it. -/
theorem lookup_of_mem {β : Type} {es : List (String × β)} {key : String} {v : β}
    (hkeys : (es.map Prod.fst).Nodup) (h : (key, v) ∈ es) : es.lookup key = some v := by
  induction es with
  | nil => cases h
  | cons e es ih =>
    rw [List.map_cons, List.nodup_cons] at hkeys
    rw [List.lookup_cons]
    rcases List.mem_cons.1 h with rfl | h
    · simp
    · have hne : key ≠ e.1 := fun heq => hkeys.1 (heq ▸ List.mem_map.2 ⟨_, h, rfl⟩)
      rw [beq_false_of_ne hne]
      exact ih hkeys.2 h

namespace Given

variable {o : Origin} {v : Value} {es : Entries} {kind : Toml.TableKind} {name key : String}

/-- The only value given counts. -/
theorem value?_single (o : Origin) (v : Value) : value? [(o, [v])] = some (o, v) := by
  -- whether it is looked into or not
  cases v <;> rfl

/-- A table gives its entries. -/
theorem entry_single (h : es.lookup key = some v) :
    entry [(o, [.table kind es])] key = [(o, [v])] := by
  have hopened : opened [.table kind es] = [.table kind es] := rfl
  have hbelow : below key [.table kind es] = [v] := by
    simp only [below, hopened, List.filterMap_cons, h, List.filterMap_nil]
  have htables : tables [(o, [Value.table kind es])] = [(o, [.table kind es])] := rfl
  rw [entry, htables, List.filterMap_cons]
  simp only [hbelow]
  rfl

/-- **What sections hold is what their tables give.** -/
theorem scalar?_entries {ss : Sections} (hss : ss.WellFormed) {s : Toml.Scalar}
    (h : ss.Holds name key s) : scalar? [(o, [.table kind ss.entries])] name key = some s := by
  obtain ⟨xs, hxs, hs⟩ := h
  have hsection : ss.entries.lookup name = some xs.table := by
    refine lookup_of_mem ?_ (List.mem_map.2 ⟨_, hxs, rfl⟩)
    rw [Sections.entries, List.map_map]
    exact hss.names
  have hkey : (xs.map fun e => (e.1, e.2.toValue)).lookup key = some s.toValue := by
    refine lookup_of_mem ?_ (List.mem_map.2 ⟨_, hs, rfl⟩)
    rw [List.map_map]
    exact hss.keys _ hxs
  have htable : xs.table = .table .header (xs.map fun e => (e.1, e.2.toValue)) := rfl
  rw [scalar?, entry_single hsection, htable, entry_single hkey, value?_single]
  exact Value.scalar?_toValue s

end Given

/-! ## Settings -/

/-- Where a plain value is given for a key of a section, the section goes by its
keys. -/
theorem Given.sectionAt_of_scalar? {g : Given} {name key : String} {v : Toml.Scalar}
    (h : g.scalar? name key = some v) (expected : String) :
    g.sectionAt name expected =
      .ok ⟨false, fun _ key => ⟨[name, key], (g.entry name).entry key⟩⟩ := by
  have hne : (g.entry name).tables ≠ [] := by
    intro hnil
    rw [scalar?, entry, hnil] at h
    cases h
  obtain ⟨o, w, hw, htable⟩ := exists_value?_of_tables hne
  rw [sectionAt, hw]
  cases w <;> first | rfl | cases htable

namespace Place

variable {g : Given} {name key : String}

theorem bool_eq {b : Bool} (h : g.scalar? name key = some (.flag b)) (default : Bool) :
    (⟨[name, key], (g.entry name).entry key⟩ : Place).bool default = .ok b := by
  obtain ⟨⟨o, v⟩, hv, hs⟩ := Option.bind_eq_some_iff.1 h
  obtain rfl := Value.scalar?_eq_flag.1 hs
  rw [bool, hv]

theorem count_eq {n : Nat} (h : g.scalar? name key = some (.count n)) (default : Nat) :
    (⟨[name, key], (g.entry name).entry key⟩ : Place).count default = .ok n := by
  obtain ⟨⟨o, v⟩, hv, hs⟩ := Option.bind_eq_some_iff.1 h
  rw [count, hv]
  rcases Value.scalar?_eq_count.1 hs with rfl | rfl
  · exact if_pos (Int.natCast_nonneg n)
  · rfl

theorem string_eq {s : String} (h : g.scalar? name key = some (.word s)) (default : String) :
    (⟨[name, key], (g.entry name).entry key⟩ : Place).string default = .ok s := by
  obtain ⟨⟨o, v⟩, hv, hs⟩ := Option.bind_eq_some_iff.1 h
  obtain rfl := Value.scalar?_eq_word.1 hs
  rw [string, hv]

theorem backend_eq {b : Backend} (h : g.scalar? name key = some (.word b.name))
    (default : Backend) :
    (⟨[name, key], (g.entry name).entry key⟩ : Place).backend default = .ok b := by
  obtain ⟨⟨o, v⟩, hv, hs⟩ := Option.bind_eq_some_iff.1 h
  obtain rfl := Value.scalar?_eq_word.1 hs
  rw [backend, hv]
  simp only [Backend.ofName?_name]

end Place

/-- **Settings that are all given are the configuration.** -/
theorem Config.ofGiven_eq {g : Given} {c : Config}
    (h : ∀ x : Setting, g.scalar? x.group x.key = some (x.value c)) : ofGiven g = .ok c := by
  have hmax := h .maxIndexedLength
  have hthreshold := h .compactionThreshold
  have hauto := h .autoCompact
  have hbackend := h .backend
  have hlevel := h .logLevel
  simp only [Setting.group, Setting.key, Setting.value] at hmax hthreshold hauto hbackend hlevel
  rw [ofGiven, Given.sectionAt_of_scalar? hbackend, Given.sectionAt_of_scalar? hauto,
    Given.sectionAt_of_scalar? hlevel]
  simp only [Place.backend_eq hbackend, Place.bool_eq hauto, Place.count_eq hmax,
    Place.count_eq hthreshold, Place.string_eq hlevel, bind, Except.bind, pure, Except.pure,
    Bool.false_eq_true, if_false]

/-! ## Names -/

namespace Config

/-- **A configuration is written as its settings, each under its name.** -/
theorem holds_sections (c : Config) (name key : String) (v : Toml.Scalar) :
    c.sections.Holds name key v ↔ ∃ x : Setting, name = x.group ∧ key = x.key ∧ v = x.value c := by
  constructor
  · rintro ⟨xs, hxs, hv⟩
    simp only [sections, List.mem_cons, List.not_mem_nil, or_false, Prod.mk.injEq] at hxs
    rcases hxs with ⟨rfl, rfl⟩ | ⟨rfl, rfl⟩ | ⟨rfl, rfl⟩ <;>
      obtain ⟨x, hx, hentry⟩ := List.mem_map.1 hv <;>
      obtain ⟨rfl, rfl⟩ := Prod.mk.inj hentry <;>
      refine ⟨x, ?_, rfl, rfl⟩ <;>
      simp only [List.mem_cons, List.not_mem_nil, or_false] at hx
    · rcases hx with rfl | rfl | rfl <;> rfl
    · rw [hx]; rfl
    · rw [hx]; rfl
  · rintro ⟨x, rfl, rfl, rfl⟩
    cases x <;>
      simp [Sections.Holds, sections, Setting.group, Setting.entry, Setting.key, Setting.value]

theorem wellFormed_sections (c : Config) : c.sections.WellFormed where
  names := show ["index", "bitmap", "logging"].Nodup by decide
  keys := by simp [sections, Setting.entry, Setting.key]
  bareNames x hx := by
    have hbare : ∀ name ∈ ["index", "bitmap", "logging"], Toml.IsBareName name := by decide
    exact hbare x.1 (List.mem_map_of_mem hx)
  bareKeys x hx e he := by
    have hbare : ∀ y : Setting, Toml.IsBareName y.key := by
      intro y
      cases y <;> decide
    obtain ⟨y, -, hy, -⟩ := (holds_sections c x.1 e.1 e.2).1 ⟨x.2, hx, he⟩
    exact hy ▸ hbare y

end Config

/-! ## The rules -/

namespace Codec

/-- Sections with room for their numbers are those whose values all fit. -/
theorem fit_iff_fits {ss : Sections} : ss.Fit ↔ ∀ x ∈ ss, ∀ e ∈ x.2, e.2.fits = true := by
  constructor
  · intro h x hx e he
    obtain ⟨key, v⟩ := e
    cases v with
    | count n => exact decide_eq_true (h x.1 key n ⟨x.2, hx, he⟩)
    | _ => rfl
  · rintro h name key n ⟨xs, hxs, hn⟩
    exact of_decide_eq_true (h _ hxs _ hn)

theorem standard_writesToml : standard.WritesToml where
  write_ok ss hss hfit := by
    have hfits := fit_iff_fits.1 hfit
    obtain ⟨-, hwrite⟩ | ⟨⟨x, hx, e, he, hfalse⟩, -⟩ := Toml.write_eq ss
    · refine ⟨_, hwrite, ?_⟩
      rw [String.toList_ofList]
      exact Toml.document_text hss.bareNames hss.bareKeys hfits
    · rw [hfits x hx e he] at hfalse
      cases hfalse
  write_error ss _ hfit := by
    obtain ⟨hfits, -⟩ | ⟨-, hwrite⟩ := Toml.write_eq ss
    · exact absurd (fit_iff_fits.2 hfits) hfit
    · exact ⟨_, hwrite⟩

theorem standard_readsToml : standard.ReadsToml where
  read_ok origin text ss hss h := by
    refine ⟨[(origin, [.table .header ss.entries])], ?_, fun name key v hv => ?_⟩
    · show readToml origin text = _
      rw [readToml, h.read? hss]
      rfl
    · exact Given.scalar?_entries hss hv

theorem standard_mergesLater : standard.MergesLater where
  value?_merge earlier _ _ _ _ h := Given.scalar?_append h earlier

theorem standard_keepsNames : standard.KeepsNames where
  wellFormed_sections := Config.wellFormed_sections
  holds_sections := Config.holds_sections
  extract_ok g c h := by
    show settle g = .ok c
    unfold settle
    rw [Config.ofGiven_eq h]

end Codec

end WildcardIndex
