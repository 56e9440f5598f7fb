import Mathlib.Data.List.Basic
import WildcardIndex.Proofs.Toml.Document
import WildcardIndex.Toml.Writer
/-!
# TOML — what is written is a document

The writer chooses one of the forms of a string, so it has to be seen that the
form it chooses can hold the string: the single-quoted forms are kept for strings
without control characters and without too many quotes in a row, and between
double quotes everything can be escaped. Then **what is written for sections is
one of their documents**, and sections are written exactly if there is room for
their numbers.
-/

namespace WildcardIndex.Toml

variable {c : Char} {s w : List Char} {q : Nat} {v : Scalar} {xs : Section} {ss : Sections}

/-! ## Strings between double quotes -/

/-- Four hexadecimal digits stand for a control character. -/
theorem codePoint?_fourHex (h : c.toNat < 0x20 ∨ c.toNat = 0x7F) :
    codePoint? (fourHex c.toNat) = some c := by
  have hall : ∀ n < 128, codePoint? (fourHex n) = some (Char.ofNat n) := by decide
  rw [hall c.toNat (by omega), Char.ofNat_toNat]

theorem isForbidden_eq_false (h : ¬ (c.toNat < 0x20 ∨ c.toNat = 0x7F)) : isForbidden c = false := by
  rw [not_or] at h
  simp [isForbidden, h.1, h.2]

/-- **A character is written as it is spelt**, but for quotes and line ends that
may stand as they are. -/
theorem charText_basicChar (long : Bool) (hquote : ¬ (c = '\x22' ∧ 0 < q))
    (hline : ¬ (c = '\n' ∧ long = true)) : CharText c (basicChar long q c) := by
  rw [basicChar]
  split
  case isTrue heq =>
    have hq : ¬ 0 < q := fun hq => hquote ⟨heq, hq⟩
    rw [if_neg hq, heq]
    exact .letter '\x22' rfl
  case isFalse hplainQuote =>
    split
    case isTrue heq => exact heq ▸ .letter '\\' rfl
    case isFalse hback =>
      split
      case isTrue heq => exact heq ▸ .letter 'b' rfl
      split
      case isTrue heq => exact heq ▸ .letter 't' rfl
      split
      case isTrue heq =>
        have hlong : ¬ long = true := fun hlong => hline ⟨heq, hlong⟩
        rw [if_neg hlong, heq]
        exact .letter 'n' rfl
      split
      case isTrue heq => exact heq ▸ .letter 'f' rfl
      split
      case isTrue heq => exact heq ▸ .letter 'r' rfl
      split
      case isTrue hcontrol => exact .number _ rfl (codePoint?_fourHex hcontrol)
      case isFalse hcontrol => exact .plain (isForbidden_eq_false hcontrol) hplainQuote hback

theorem basicText_cons (long : Bool) (q : Nat) (c : Char) (s : List Char) :
    basicText long q (c :: s) = basicChar long q c ++
      basicText long (if c = '\x22' ∧ 0 < q then q - 1 else quoteAllowance long) s := rfl

/-- **A string is spelt between double quotes**, whatever it holds. -/
theorem basicText_oneLine (s : List Char) : BasicText s (basicText false 0 s) := by
  induction s with
  | nil => exact .nil
  | cons c s ih =>
    have hc : CharText c (basicChar false 0 c) :=
      charText_basicChar false (fun h => Nat.lt_irrefl 0 h.2) fun h => Bool.false_ne_true h.2
    rw [basicText_cons, if_neg fun h => absurd h.2 (by decide)]
    exact .cons hc ih

/-- **And between three**, where so many quotes of a run stand as they are. -/
theorem longBasicText_basicText (q : Nat) (s : List Char) :
    LongBasicText q s (basicText true q s) := by
  induction s generalizing q with
  | nil => exact .nil
  | cons c s ih =>
    rw [basicText_cons]
    by_cases hquote : c = '\x22' ∧ 0 < q
    · obtain ⟨rfl, hpos⟩ := hquote
      obtain ⟨q, rfl⟩ := Nat.exists_eq_add_of_lt hpos
      rw [if_pos ⟨rfl, hpos⟩, basicChar, if_pos rfl, if_pos hpos, Nat.zero_add]
      exact .quote (ih q)
    rw [if_neg hquote]
    by_cases hline : c = '\n'
    · subst hline
      exact .lineEnd (ih 2)
    · exact .char (charText_basicChar true hquote fun h => hline h.1) (ih 2)

/-! ## Strings between single quotes -/

/-- One more character for the longest run and the one that is going on. -/
def countRun (c : Char) (p : Nat × Nat) (d : Char) : Nat × Nat :=
  if d = c then (max p.1 (p.2 + 1), p.2 + 1) else (p.1, 0)

theorem longestRun_eq (c : Char) (s : List Char) :
    longestRun c s = (s.foldl (countRun c) (0, 0)).1 := rfl

theorem le_foldl_countRun (s : List Char) (p : Nat × Nat) : p.1 ≤ (s.foldl (countRun c) p).1 := by
  induction s generalizing p with
  | nil => exact Nat.le_refl _
  | cons d s ih =>
    have hstep : p.1 ≤ (countRun c p d).1 := by
      unfold countRun
      split
      · exact Nat.le_max_left _ _
      · exact Nat.le_refl _
    exact Nat.le_trans hstep (ih _)

theorem foldl_countRun_mono (s : List Char) {p p' : Nat × Nat} (hbest : p.1 ≤ p'.1)
    (hrun : p.2 ≤ p'.2) : (s.foldl (countRun c) p).1 ≤ (s.foldl (countRun c) p').1 := by
  induction s generalizing p p' with
  | nil => exact hbest
  | cons d s ih =>
    refine ih ?_ ?_ <;> unfold countRun <;> split <;> simp only <;> omega

/-- A string has no longer run than one it is the end of. -/
theorem longestRun_le_cons (c d : Char) (s : List Char) :
    longestRun c s ≤ longestRun c (d :: s) := by
  rw [longestRun_eq, longestRun_eq, List.foldl_cons]
  exact foldl_countRun_mono s (Nat.zero_le _) (Nat.zero_le _)

theorem not_mem_of_longestRun (h : longestRun c s = 0) : c ∉ s := by
  induction s with
  | nil => exact List.not_mem_nil
  | cons d s ih =>
    have htail := longestRun_le_cons c d s
    rw [List.mem_cons, not_or]
    refine ⟨?_, ih (by omega)⟩
    rintro rfl
    have hone : 1 ≤ longestRun c (c :: s) := by
      rw [longestRun_eq, List.foldl_cons]
      refine Nat.le_trans ?_ (le_foldl_countRun s _)
      simp [countRun]
    omega

/-- **A string with no three quotes in a row can stand between three**: what is
left of a run are the quotes that have not been counted. -/
theorem longLiteralText_of_countRun (hallowed : ∀ c ∈ s, c = '\n' ∨ isForbidden c = false)
    {p : Nat × Nat} (hrun : p.2 ≤ 2) (h : (s.foldl (countRun '\'') p).1 ≤ 2) :
    LongLiteralText (2 - p.2) s := by
  induction s generalizing p with
  | nil => exact .nil
  | cons c s ih =>
    have hrest := fun d hd => hallowed d (List.mem_cons_of_mem c hd)
    rw [List.foldl_cons] at h
    by_cases hquote : c = '\''
    · subst hquote
      have hstep : countRun '\'' p '\'' = (max p.1 (p.2 + 1), p.2 + 1) := if_pos rfl
      rw [hstep] at h
      have hbest : p.2 + 1 ≤ 2 :=
        Nat.le_trans (Nat.le_max_right p.1 _)
          (Nat.le_trans (le_foldl_countRun s (max p.1 (p.2 + 1), p.2 + 1)) h)
      rw [show 2 - p.2 = 2 - (p.2 + 1) + 1 by omega]
      exact .quote (ih hrest hbest h)
    · have hstep : countRun '\'' p c = (p.1, 0) := if_neg hquote
      rw [hstep] at h
      exact .char hquote (hallowed c List.mem_cons_self) (ih hrest (Nat.zero_le 2) h)

/-! ## Strings in any form -/

/-- What the single-quoted forms are chosen for. -/
theorem of_stringForm_eq_literal (h : stringForm s = .literal) :
    s.any needsEscape = false ∧ longestRun '\'' s = 0 ∧ s.contains '\n' = false := by
  unfold stringForm at h
  grind

theorem of_stringForm_eq_longLiteral (h : stringForm s = .longLiteral) :
    s.any needsEscape = false ∧ longestRun '\'' s ≤ 2 := by
  unfold stringForm at h
  grind

theorem isForbidden_of_not_needsEscape (h : s.any needsEscape = false) :
    ∀ c ∈ s, c = '\n' ∨ isForbidden c = false := by
  intro c hc
  have hc := List.any_eq_false.1 h c hc
  simp only [needsEscape, isForbidden] at hc ⊢
  grind

/-- The line end put in front of a text that has one counts for nothing. -/
theorem opens_first (h : w.head? = some '\n' → '\n' ∈ s) :
    Opens (if s.contains '\n' then ['\n'] else []) w := by
  split
  · exact .inl rfl
  · rename_i hnone
    exact .inr ⟨rfl, fun hw => hnone (List.contains_iff_mem.2 (h hw))⟩

/-- A string begins with a line end if its text between double quotes does. -/
theorem LongBasicText.mem_of_head (h : LongBasicText q s w) (hw : w.head? = some '\n') :
    '\n' ∈ s := by
  cases h with
  | nil => cases hw
  | quote => exact absurd (Option.some.inj hw) (by decide)
  | lineEnd => exact List.mem_cons_self
  | char hc =>
    cases hc with
    | plain => exact Option.some.inj hw ▸ List.mem_cons_self
    | letter => exact absurd (Option.some.inj hw) (by decide)
    | number => exact absurd (Option.some.inj hw) (by decide)
    | longNumber => exact absurd (Option.some.inj hw) (by decide)

/-- **Every string is written as it is spelt.** -/
theorem stringText_stringText (s : List Char) : StringText s (stringText s) := by
  unfold stringText
  cases hform : stringForm s with
  | basic => exact .basic (basicText_oneLine s)
  | literal =>
    obtain ⟨hcontrols, hquotes, hlines⟩ := of_stringForm_eq_literal hform
    refine .literal (fun c hc => ?_) (not_mem_of_longestRun hquotes)
    refine (isForbidden_of_not_needsEscape hcontrols c hc).resolve_left ?_
    rintro rfl
    rw [List.contains_iff_mem.2 hc] at hlines
    cases hlines
  | longBasic =>
    have htext := longBasicText_basicText 2 s
    simpa only [List.append_assoc] using
      StringText.longBasic htext (opens_first htext.mem_of_head)
  | longLiteral =>
    obtain ⟨hcontrols, hruns⟩ := of_stringForm_eq_longLiteral hform
    have htext := longLiteralText_of_countRun (isForbidden_of_not_needsEscape hcontrols)
      (Nat.zero_le 2) hruns
    simpa only [List.append_assoc] using
      StringText.longLiteral htext (opens_first List.mem_of_mem_head?)

/-! ## Sections -/

theorem scalarText_scalarText (h : v.fits = true) : ScalarText v (scalarText v) := by
  cases v with
  | flag b => exact .flag b
  | count n => exact .count (of_decide_eq_true h)
  | word s => exact .word (stringText_stringText s.toList)

/-- The lines of a section are written one after the other. -/
theorem sectionText_flatMap (hkeys : ∀ e ∈ xs, IsBareName e.1) (hfits : ∀ e ∈ xs, e.2.fits = true) :
    SectionText xs (xs.flatMap lineText) := by
  have hblank : ∀ c ∈ [' '], isBlank c = true := by
    intro c hc
    rw [List.mem_singleton.1 hc]
    rfl
  induction xs with
  | nil => exact .nil
  | cons e xs ih =>
    have htext : SectionText (e :: xs) (e.1.toList ++
        ([' '] ++ '=' :: ([' '] ++ (scalarText e.2 ++ '\n' :: xs.flatMap lineText)))) :=
      .entry (hkeys e List.mem_cons_self) hblank hblank
        (scalarText_scalarText (hfits e List.mem_cons_self))
        (ih (fun e he => hkeys e (List.mem_cons_of_mem _ he))
          fun e he => hfits e (List.mem_cons_of_mem _ he))
    simpa [lineText] using htext

/-- **Sections are written as a document**, if there is room for their numbers. -/
theorem document_text (hnames : ∀ x ∈ ss, IsBareName x.1)
    (hkeys : ∀ x ∈ ss, ∀ e ∈ x.2, IsBareName e.1)
    (hfits : ∀ x ∈ ss, ∀ e ∈ x.2, e.2.fits = true) : Document ss ss.text := by
  fun_induction Sections.text ss with
  | case1 => exact .nil
  | case2 name xs =>
    have htext := Document.header (hnames _ List.mem_cons_self)
      (sectionText_flatMap (hkeys _ List.mem_cons_self) (hfits _ List.mem_cons_self)) .nil
    simpa [sectionText] using htext
  | case3 name xs ss hne ih =>
    have hrest := ih (fun x hx => hnames x (List.mem_cons_of_mem _ hx))
      (fun x hx => hkeys x (List.mem_cons_of_mem _ hx))
      fun x hx => hfits x (List.mem_cons_of_mem _ hx)
    have htext := Document.header (hnames _ List.mem_cons_self)
      (sectionText_flatMap (hkeys _ List.mem_cons_self) (hfits _ List.mem_cons_self)) hrest.lineEnd
    simpa [sectionText] using htext

/-- **A number that has no room is not written**, and all else is. -/
theorem write_eq (ss : Sections) :
    ((∀ x ∈ ss, ∀ e ∈ x.2, e.2.fits = true) ∧ write ss = .ok (String.ofList ss.text)) ∨
      (∃ x ∈ ss, ∃ e ∈ x.2, e.2.fits = false) ∧
        write ss = .error "out-of-range value for u64 type" := by
  unfold write
  split
  · rename_i hfits
    simp only [List.all_eq_true] at hfits
    exact .inl ⟨hfits, rfl⟩
  · rename_i hfits
    simp only [List.all_eq_true, not_forall, Bool.not_eq_true] at hfits
    obtain ⟨x, hx, e, he, hfalse⟩ := hfits
    exact .inr ⟨⟨x, hx, e, he, hfalse⟩, rfl⟩

end WildcardIndex.Toml
