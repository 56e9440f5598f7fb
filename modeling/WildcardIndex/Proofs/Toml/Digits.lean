import Mathlib.Data.List.Basic
import WildcardIndex.Toml.Reader
/-!
# TOML — a number reads back

A number is written in decimal digits, without a sign and without a leading
zero. At the end of a line such digits are no date, no time and no number with
a fraction, so what is read is the integer they stand for.
-/

namespace WildcardIndex.Toml

variable {c d : Char} {ds cs rest : List Char} {n k : Nat}

/-! ## The digits of a number -/

theorem isDigit_eq (c : Char) : isDigit c = c.isDigit := by
  rw [isDigit, Char.isDigit]
  rfl

theorem isDigit_of_mem_toDigits (h : d ∈ Nat.toDigits 10 n) : isDigit d = true := by
  rw [isDigit_eq]
  exact Nat.isDigit_of_mem_toDigits (by decide) (by decide) h

theorem digitsValue_eq_ofDigitChars (h : ∀ d ∈ ds, isDigit d = true) (m : Nat) :
    ds.foldl (fun n d => n * 10 + digitValue d) m = Nat.ofDigitChars 10 ds m := by
  induction ds generalizing m with
  | nil => rfl
  | cons d ds ih =>
    have hd : digitValue d = d.toNat - '0'.toNat := if_pos (h d List.mem_cons_self)
    rw [List.foldl_cons, ih fun d hd => h d (List.mem_cons_of_mem _ hd), Nat.ofDigitChars_cons, hd,
      Nat.mul_comm]

/-- **The digits of a number stand for it.** -/
theorem digitsValue_toDigits (n : Nat) : digitsValue 10 (Nat.toDigits 10 n) = n := by
  rw [digitsValue, digitsValue_eq_ofDigitChars fun _ => isDigit_of_mem_toDigits,
    Nat.ofDigitChars_ten_toDigits]

/-- A number begins with a digit, so with no other character. -/
theorem exists_toDigits_eq (n : Nat) :
    ∃ d ds, Nat.toDigits 10 n = d :: ds ∧ ∀ c, isDigit c = false → d ≠ c := by
  obtain ⟨d, ds, hds⟩ := List.exists_cons_of_ne_nil (Nat.toDigits_ne_nil (b := 10) (n := n))
  refine ⟨d, ds, hds, ?_⟩
  rintro c hc rfl
  rw [isDigit_of_mem_toDigits (hds ▸ List.mem_cons_self)] at hc
  cases hc

/-- Only zero begins with a zero. -/
theorem toDigits_eq_zero_cons (h : Nat.toDigits 10 n = '0' :: ds) : n = 0 ∧ ds = [] := by
  induction n using Nat.strongRecOn generalizing ds with
  | ind n ih =>
    by_cases hn : n < 10
    · rw [Nat.toDigits_of_lt_base hn, List.cons.injEq] at h
      have hzero : ∀ m < 10, m.digitChar = '0' → m = 0 := by decide
      exact ⟨hzero n hn h.1, h.2.symm⟩
    · have hne : Nat.toDigits 10 (n / 10) ≠ [] := Nat.toDigits_ne_nil
      obtain ⟨d, ds', hds⟩ := List.exists_cons_of_ne_nil hne
      rw [Nat.toDigits_of_base_le (by decide) (by omega), hds, List.cons_append,
        List.cons.injEq] at h
      obtain ⟨hquot, -⟩ := ih (n / 10) (by omega) (h.1 ▸ hds)
      omega

/-! ## Digits up to the end of a line -/

/-- Some digits, perhaps none, and then a line end. -/
def DigitsLine (rest cs : List Char) : Prop :=
  ∃ ds, (∀ d ∈ ds, isDigit d = true) ∧ cs = ds ++ '\n' :: rest

theorem digitsLine_toDigits (n : Nat) (rest : List Char) :
    DigitsLine rest (Nat.toDigits 10 n ++ '\n' :: rest) :=
  ⟨_, fun _ => isDigit_of_mem_toDigits, rfl⟩

theorem DigitsLine.char?_eq_none (h : DigitsLine rest cs) (hdigit : isDigit c = false)
    (hline : c ≠ '\n') : char? c cs = none := by
  obtain ⟨ds, hds, rfl⟩ := h
  cases ds with
  | nil => exact if_neg (Ne.symm hline)
  | cons d ds =>
    have hd := hds d List.mem_cons_self
    refine if_neg fun heq => ?_
    rw [heq, hdigit] at hd
    cases hd

/-- What is left behind some of the digits. -/
theorem DigitsLine.fixed? (h : DigitsLine rest cs) {m : Nat} {cs' : List Char}
    (hfixed : Toml.fixed? k cs = some (m, cs')) : DigitsLine rest cs' := by
  obtain ⟨ds, hds, rfl⟩ := h
  rw [Toml.fixed?] at hfixed
  split at hfixed
  case isFalse => cases hfixed
  case isTrue hk =>
    cases hfixed
    -- the line end is no digit, so the digits taken stand before it
    have hle : k ≤ ds.length := by
      by_contra hlt
      have hmem : '\n' ∈ (ds ++ '\n' :: rest).take k := by
        rw [List.take_append, show k - ds.length = (k - ds.length - 1) + 1 by omega,
          List.take_succ_cons]
        exact List.mem_append_right _ List.mem_cons_self
      have hdigit : isDigit '\n' = true := List.all_eq_true.1 hk.2 _ hmem
      exact absurd hdigit (by decide)
    exact ⟨ds.drop k, fun d hd => hds d (List.mem_of_mem_drop hd), List.drop_append_of_le_length hle⟩

theorem DigitsLine.twoDigits? (h : DigitsLine rest cs) {lo hi m : Nat} {cs' : List Char}
    (htwo : Toml.twoDigits? lo hi cs = some (m, cs')) : DigitsLine rest cs' :=
  h.fixed? (Option.filter_eq_some_iff.1 htwo).1

/-- **Digits are no date and no time.** -/
theorem DigitsLine.moment?_eq_none (h : DigitsLine rest cs) : moment? cs = none := by
  have hdate : date? cs = none := by
    rw [date?]
    cases hyear : Toml.fixed? 4 cs with
    | none => rfl
    | some found =>
      have hchar := (h.fixed? hyear).char?_eq_none (c := '-') (by decide) (by decide)
      simp [hchar]
  have htime : time? cs = none := by
    rw [time?]
    cases hhour : Toml.twoDigits? 0 23 cs with
    | none => rfl
    | some found =>
      have hchar := (h.twoDigits? hhour).char?_eq_none (c := ':') (by decide) (by decide)
      simp [hchar]
  rw [moment?, hdate, htime]
  rfl

/-! ## The digits of a number, at the end of a line -/

theorem moreDigits_append (h : ∀ d ∈ ds, isDigit d = true) :
    moreDigits isDigit (ds ++ '\n' :: rest) = (ds, '\n' :: rest) := by
  induction ds with
  | nil => rfl
  | cons d ds ih =>
    have hd := h d List.mem_cons_self
    have hne : d ≠ '_' := fun heq => absurd (heq ▸ hd) (by decide)
    rw [List.cons_append, moreDigits, if_pos hd, ih fun d hd => h d (List.mem_cons_of_mem _ hd)]
    exact fun _ _ heq => absurd heq hne

theorem decimalDigits?_toDigits (n : Nat) (rest : List Char) :
    decimalDigits? (Nat.toDigits 10 n ++ '\n' :: rest) = some (Nat.toDigits 10 n, '\n' :: rest) := by
  obtain ⟨d, ds, hds, -⟩ := exists_toDigits_eq n
  have hdigits : ∀ d' ∈ d :: ds, isDigit d' = true := fun d' hd' =>
    isDigit_of_mem_toDigits (hds ▸ hd')
  rw [hds, List.cons_append]
  by_cases hd : d = '0'
  · subst hd
    rw [(toDigits_eq_zero_cons hds).2]
    rfl
  · rw [decimalDigits?, digits?, if_pos (hdigits d List.mem_cons_self),
      moreDigits_append fun d' hd' => hdigits d' (List.mem_cons_of_mem _ hd')]
    exact fun _ heq => hd (List.cons.inj heq).1

/-- A number has no sign in front. -/
theorem sign_toDigits (n : Nat) (rest : List Char) :
    sign (Nat.toDigits 10 n ++ rest) = (false, Nat.toDigits 10 n ++ rest) := by
  obtain ⟨d, ds, hds, hne⟩ := exists_toDigits_eq n
  rw [hds, List.cons_append, sign]
  · exact fun _ heq => hne '-' (by decide) (List.cons.inj heq).1
  · exact fun _ heq => hne '+' (by decide) (List.cons.inj heq).1

/-- **Nor do they make a float.** -/
theorem float?_toDigits (n : Nat) (rest : List Char) :
    float? (Nat.toDigits 10 n ++ '\n' :: rest) = none := by
  have hdecimal : decimal? (Nat.toDigits 10 n ++ '\n' :: rest) = none := by
    simp [decimal?, sign_toDigits, decimalDigits?_toDigits, fraction?, exponent?]
  have hnamed : named? (Nat.toDigits 10 n ++ '\n' :: rest) = none := by
    obtain ⟨d, ds, hds, hne⟩ := exists_toDigits_eq n
    simp only [named?, sign_toDigits]
    rw [hds, List.cons_append]
    split
    · rename_i heq
      exact absurd (List.cons.inj heq).1 (hne 'i' (by decide))
    · rename_i heq
      exact absurd (List.cons.inj heq).1 (hne 'n' (by decide))
    · rfl
  rw [float?, hdecimal, hnamed]
  rfl

/-- **What they make is the integer**, if it has room. -/
theorem integer?_toDigits (h : (n : Int) ≤ maxInteger) (rest : List Char) :
    integer? (Nat.toDigits 10 n ++ '\n' :: rest) = some (.signed n, '\n' :: rest) := by
  have hmin : minInteger ≤ (n : Int) := Int.le_trans (by decide) (Int.natCast_nonneg n)
  -- behind a leading zero there is nothing, so no letter of a base
  have hbase : ∀ c cs, Nat.toDigits 10 n ++ '\n' :: rest = '0' :: c :: cs → c = '\n' := by
    intro c cs heq
    obtain ⟨d, ds, hds, -⟩ := exists_toDigits_eq n
    rw [hds, List.cons_append, List.cons.injEq] at heq
    obtain ⟨rfl, heq⟩ := heq
    rw [(toDigits_eq_zero_cons hds).2] at heq
    exact (List.cons.inj heq).1.symm
  rw [integer?]
  · simp [sign_toDigits, decimalDigits?_toDigits, digitsValue_toDigits, fitting?, hmin, h]
  all_goals
    intro cs heq
    exact absurd (hbase _ _ heq) (by decide)

/-- **A number reads back.** -/
theorem scalar?_toDigits (h : (n : Int) ≤ maxInteger) (rest : List Char) :
    scalar? (Nat.toDigits 10 n ++ '\n' :: rest) = some (.signed n, '\n' :: rest) := by
  have hother : ((moment? (Nat.toDigits 10 n ++ '\n' :: rest)).or
      (float? (Nat.toDigits 10 n ++ '\n' :: rest))).or
      (integer? (Nat.toDigits 10 n ++ '\n' :: rest)) = some (.signed n, '\n' :: rest) := by
    rw [(digitsLine_toDigits n rest).moment?_eq_none, float?_toDigits, integer?_toDigits h]
    rfl
  obtain ⟨d, ds, hds, hne⟩ := exists_toDigits_eq n
  rw [hds] at hother ⊢
  rw [List.cons_append] at hother ⊢
  simp only [scalar?, hne '\x22' (by decide), hne '\'' (by decide), hne 't' (by decide),
    hne 'f' (by decide), hne 'i' (by decide), hne 'n' (by decide), or_self, if_false]
  exact hother

end WildcardIndex.Toml
