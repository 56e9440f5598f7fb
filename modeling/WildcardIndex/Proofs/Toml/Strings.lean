import Mathlib.Data.List.Basic
import WildcardIndex.Proofs.Toml.Document
/-!
# TOML — every spelling of a string is read

Between double quotes every spelling of a character is read by itself; only the
quotes that stand as they are between three double quotes need a look at what
follows, because the last of them may touch the closing ones. Between single
quotes the same goes for the quotes between three. Whichever spelling of a string
it meets, **the reader takes it for the string**.
-/

namespace WildcardIndex.Toml

variable {c d : Char} {s w u cs rest first : List Char} {q : Nat}

/-! ## Characters between double quotes -/

/-- The letters of escapes. -/
theorem mem_of_escaped? {e : Char} (h : escaped? e = some c) :
    e ∈ ['b', 't', 'n', 'f', 'r', '\x22', '\\'] := by
  rw [escaped?.eq_def] at h
  split at h
  case h_8 => cases h
  all_goals decide

/-- A spelling begins with no quote and no line end. -/
theorem CharText.head (h : CharText c w) (cs : List Char) :
    ∃ d u, w ++ cs = d :: u ∧ d ≠ '\x22' ∧ d ≠ '\n' ∧ d ≠ '\r' := by
  cases h with
  | plain hallowed hquote =>
    refine ⟨c, cs, rfl, hquote, ?_, ?_⟩
    all_goals
      rintro rfl
      exact absurd hallowed (by decide)
  | letter => exact ⟨_, _, rfl, by decide, by decide, by decide⟩
  | number => exact ⟨_, _, rfl, by decide, by decide, by decide⟩
  | longNumber => exact ⟨_, _, rfl, by decide, by decide, by decide⟩

/-- **Between double quotes a spelling is read as its character.** -/
theorem CharText.basicBody (h : CharText c w) (cs : List Char) :
    Toml.basicBody (w ++ cs) = Reader.cons c (Toml.basicBody cs) := by
  cases h with
  | plain hallowed hquote hback =>
    rw [List.singleton_append, basicBody.eq_def]
    split <;> simp_all
  | letter e h =>
    have he := mem_of_escaped? h
    simp only [List.mem_cons, List.not_mem_nil, or_false] at he
    rcases he with rfl | rfl | rfl | rfl | rfl | rfl | rfl <;> cases h <;>
      simp [Toml.basicBody, escaped?]
  | number ds hfour h =>
    obtain ⟨a, b, d, e, rfl⟩ := List.length_eq_four.1 hfour
    simp [Toml.basicBody, h]
  | longNumber ds height h =>
    match ds, height with
    | [_, _, _, _, _, _, _, _], _ => simp [Toml.basicBody, h]

/-- Between three, a character that is not escaped is read as itself, unless it
is a quote and two more follow. -/
theorem longBasicBody_cons (hallowed : c = '\n' ∨ isForbidden c = false) (hback : c ≠ '\\')
    (h : ∀ u, c = '\x22' → cs ≠ '\x22' :: '\x22' :: u) :
    longBasicBody false (c :: cs) = Reader.cons c (longBasicBody false cs) := by
  have hreturn : c ≠ '\r' := by
    rintro rfl
    exact absurd hallowed (by decide)
  rw [longBasicBody.eq_def]
  split <;> grind

/-- **Any spelling is read as between two.** -/
theorem CharText.longBasicBody (h : CharText c w) (cs : List Char) :
    Toml.longBasicBody false (w ++ cs) = Reader.cons c (Toml.longBasicBody false cs) := by
  cases h with
  | plain hallowed hquote hback =>
    exact longBasicBody_cons (.inr hallowed) hback fun u heq => absurd heq hquote
  | letter e h =>
    have he := mem_of_escaped? h
    simp only [List.mem_cons, List.not_mem_nil, or_false] at he
    rcases he with rfl | rfl | rfl | rfl | rfl | rfl | rfl <;> cases h <;>
      simp [Toml.longBasicBody, escaped?, lineEndsHere, skipBlanks, isBlank, lineEnd?]
  | number ds hfour h =>
    obtain ⟨a, b, d, e, rfl⟩ := List.length_eq_four.1 hfour
    simp [Toml.longBasicBody, h]
  | longNumber ds height h =>
    match ds, height with
    | [_, _, _, _, _, _, _, _], _ => simp [Toml.longBasicBody, h]

/-! ## Strings between double quotes -/

/-- **What stands between double quotes is read as its string.** -/
theorem BasicText.basicBody (h : BasicText s w) (rest : List Char) :
    Toml.basicBody (w ++ '\x22' :: rest) = some (s, rest) := by
  induction h with
  | nil => rfl
  | cons hc hs ih =>
    rw [List.append_assoc, hc.basicBody, ih]
    rfl

/-- A quote that stands as it is is read as itself, unless two more follow. -/
theorem longBasicBody_quote (h : ∀ u, cs ≠ '\x22' :: '\x22' :: u) :
    longBasicBody false ('\x22' :: cs) = Reader.cons '\x22' (longBasicBody false cs) :=
  longBasicBody_cons (.inr (by decide)) (by decide) fun u _ => h u

/-- **What stands between three is read as its string**: of a run of quotes no
more than two stand as they are, and these are told from the closing ones. -/
theorem LongBasicText.longBasicBody (h : LongBasicText q s w) (hq : q ≤ 2)
    (hrest : ∀ u, rest ≠ '\x22' :: u) :
    Toml.longBasicBody false (w ++ '\x22' :: '\x22' :: '\x22' :: rest) = some (s, rest) := by
  induction h with
  | nil =>
    rw [List.nil_append, Toml.longBasicBody]
    · exact fun u heq => hrest _ heq
    · exact fun u heq => hrest _ heq
  | @quote q s w hs ih =>
    rw [List.cons_append]
    by_cases hfollow : ∀ u, w ++ '\x22' :: '\x22' :: '\x22' :: rest ≠ '\x22' :: '\x22' :: u
    · rw [longBasicBody_quote hfollow, ih (by omega)]
      rfl
    · -- two more quotes: the closing ones, or one of the string's and a closing one
      simp only [ne_eq, not_forall, not_not] at hfollow
      obtain ⟨u, hu⟩ := hfollow
      cases hs with
      | nil =>
        rw [List.nil_append, Toml.longBasicBody]
        exact fun u heq => hrest _ heq
      | lineEnd hs => exact absurd (List.cons.inj hu).1 (by decide)
      | char hc hs =>
        obtain ⟨d, u', heq, hquote, -⟩ := hc.head (_ ++ '\x22' :: '\x22' :: '\x22' :: rest)
        rw [List.append_assoc, heq] at hu
        exact absurd (List.cons.inj hu).1 hquote
      | quote hs =>
        rw [List.cons_append, List.cons.injEq] at hu
        cases hs with
        | nil => rfl
        | lineEnd hs => exact absurd (List.cons.inj hu.2).1 (by decide)
        | char hc hs =>
          obtain ⟨d, u', heq, hquote, -⟩ := hc.head (_ ++ '\x22' :: '\x22' :: '\x22' :: rest)
          rw [List.append_assoc, heq] at hu
          exact absurd (List.cons.inj hu.2).1 hquote
        | quote hs => omega
  | lineEnd hs ih =>
    rw [List.cons_append, longBasicBody_cons (.inl rfl) (by decide) fun u heq => absurd heq (by decide),
      ih (Nat.le_refl 2)]
    rfl
  | char hc hs ih =>
    rw [List.append_assoc, hc.longBasicBody, ih (Nat.le_refl 2)]
    rfl

/-! ## Strings between single quotes -/

/-- **A string without quotes and line ends is read between single quotes.** -/
theorem literalBody_append (hallowed : ∀ c ∈ s, isForbidden c = false) (hquote : '\'' ∉ s)
    (rest : List Char) : literalBody (s ++ '\'' :: rest) = some (s, rest) := by
  induction s with
  | nil => rfl
  | cons c s ih =>
    have hc := hallowed c List.mem_cons_self
    have hne : c ≠ '\'' := fun heq => hquote (heq ▸ List.mem_cons_self)
    rw [List.cons_append, literalBody, if_neg (by rw [hc]; nofun),
      ih (fun c hc => hallowed c (List.mem_cons_of_mem _ hc))
        fun h => hquote (List.mem_cons_of_mem _ h)]
    · rfl
    · exact fun heq => hne heq

/-- A character between three single quotes is read as itself, unless it is one
and two more follow. -/
theorem longLiteralBody_cons (hallowed : c = '\n' ∨ isForbidden c = false)
    (h : ∀ u, c = '\'' → cs ≠ '\'' :: '\'' :: u) :
    longLiteralBody (c :: cs) = Reader.cons c (longLiteralBody cs) := by
  have hreturn : c ≠ '\r' := by
    rintro rfl
    exact absurd hallowed (by decide)
  rw [longLiteralBody.eq_def]
  split <;> grind

/-- **A string with no three quotes in a row is read between three.** -/
theorem LongLiteralText.longLiteralBody (h : LongLiteralText q s) (hq : q ≤ 2)
    (hrest : ∀ u, rest ≠ '\'' :: u) :
    Toml.longLiteralBody (s ++ '\'' :: '\'' :: '\'' :: rest) = some (s, rest) := by
  induction h with
  | nil =>
    rw [List.nil_append, Toml.longLiteralBody]
    · exact fun u heq => hrest _ heq
    · exact fun u heq => hrest _ heq
  | @quote q s hs ih =>
    rw [List.cons_append]
    by_cases hfollow : ∀ u, s ++ '\'' :: '\'' :: '\'' :: rest ≠ '\'' :: '\'' :: u
    · rw [longLiteralBody_cons (.inr (by decide)) fun u _ => hfollow u, ih (by omega)]
      rfl
    · simp only [ne_eq, not_forall, not_not] at hfollow
      obtain ⟨u, hu⟩ := hfollow
      cases hs with
      | nil =>
        rw [List.nil_append, Toml.longLiteralBody]
        exact fun u heq => hrest _ heq
      | char hquote => exact absurd (List.cons.inj hu).1 hquote
      | quote hs =>
        rw [List.cons_append, List.cons.injEq] at hu
        cases hs with
        | nil => rfl
        | char hquote => exact absurd (List.cons.inj hu.2).1 hquote
        | quote hs => omega
  | char hquote hallowed hs ih =>
    rw [List.cons_append, longLiteralBody_cons hallowed fun u heq => absurd heq hquote,
      ih (Nat.le_refl 2)]
    rfl

/-! ## Strings in any form -/

/-- A text that begins with no line end loses none. -/
theorem withoutFirstLineEnd_cons (hline : c ≠ '\n') (hreturn : c ≠ '\r') (cs : List Char) :
    withoutFirstLineEnd (c :: cs) = c :: cs := by
  have hnone : lineEnd? (c :: cs) = none := by
    rw [lineEnd?.eq_def]
    split <;> simp_all
  rw [withoutFirstLineEnd, hnone]
  rfl

/-- The line end behind opening quotes is dropped, and none of the text's own
is. -/
theorem Opens.withoutFirstLineEnd (h : Opens first w) (hreturn : w.head? ≠ some '\r')
    (hcs : ∃ d u, cs = d :: u ∧ d ≠ '\n' ∧ d ≠ '\r') :
    Toml.withoutFirstLineEnd (first ++ w ++ cs) = w ++ cs := by
  rcases h with rfl | ⟨rfl, hline⟩
  · rfl
  · cases w with
    | nil =>
      obtain ⟨d, u, rfl, hd, hd'⟩ := hcs
      exact withoutFirstLineEnd_cons hd hd' u
    | cons c w =>
      exact withoutFirstLineEnd_cons (fun h => hline (congrArg some h))
        (fun h => hreturn (congrArg some h)) (w ++ cs)

theorem LongBasicText.head_ne_return (h : LongBasicText q s w) : w.head? ≠ some '\r' := by
  cases h with
  | nil => exact nofun
  | quote => exact fun heq => absurd (Option.some.inj heq) (by decide)
  | lineEnd => exact fun heq => absurd (Option.some.inj heq) (by decide)
  | char hc hs =>
    obtain ⟨d, u, heq, -, -, hreturn⟩ := hc.head _
    rw [heq]
    exact fun h => hreturn (Option.some.inj h)

theorem LongLiteralText.head_ne_return (h : LongLiteralText q s) : s.head? ≠ some '\r' := by
  cases h with
  | nil => exact nofun
  | quote => exact fun heq => absurd (Option.some.inj heq) (by decide)
  | char hquote hallowed =>
    intro heq
    rw [List.head?_cons, Option.some.injEq] at heq
    rw [heq] at hallowed
    exact absurd hallowed (by decide)

theorem string?_basic (h : ∀ u, cs ≠ '\x22' :: '\x22' :: u) :
    string? ('\x22' :: cs) = basicBody cs := by
  rw [string?.eq_def]
  split <;> grind

theorem string?_literal (h : ∀ u, cs ≠ '\'' :: '\'' :: u) :
    string? ('\'' :: cs) = literalBody cs := by
  rw [string?.eq_def]
  split <;> grind

/-- **Every spelling of a string is read as the string**, at the end of a line. -/
theorem StringText.string? (h : StringText s w) (rest : List Char) :
    Toml.string? (w ++ '\n' :: rest) = some (s, '\n' :: rest) := by
  have hdouble : ∀ u, '\n' :: rest ≠ '\x22' :: u := fun u h =>
    absurd (List.cons.inj h).1 (by decide)
  have hsingle : ∀ u, '\n' :: rest ≠ '\'' :: u := fun u h =>
    absurd (List.cons.inj h).1 (by decide)
  cases h with
  | @basic w h =>
    rw [List.cons_append, List.append_assoc, List.singleton_append, string?_basic, h.basicBody]
    intro u heq
    cases h with
    | nil => exact hdouble u (List.cons.inj heq).2
    | cons hc hs =>
      rw [List.append_assoc] at heq
      obtain ⟨d, w, hd, hne, -⟩ := hc.head _
      rw [hd] at heq
      exact hne (List.cons.inj heq).1
  | literal hallowed hquote =>
    rw [List.cons_append, List.append_assoc, List.singleton_append, string?_literal,
      literalBody_append hallowed hquote]
    intro u heq
    cases s with
    | nil => exact hsingle u (List.cons.inj heq).2
    | cons c s => exact hquote ((List.cons.inj heq).1 ▸ List.mem_cons_self)
  | @longBasic first w h hfirst =>
    simp only [List.append_assoc, List.cons_append, List.nil_append]
    rw [Toml.string?, ← List.append_assoc, hfirst.withoutFirstLineEnd h.head_ne_return,
      h.longBasicBody (Nat.le_refl 2) hdouble]
    exact ⟨_, _, rfl, by decide, by decide⟩
  | @longLiteral first h hfirst =>
    simp only [List.append_assoc, List.cons_append, List.nil_append]
    rw [Toml.string?, ← List.append_assoc, hfirst.withoutFirstLineEnd h.head_ne_return,
      h.longLiteralBody (Nat.le_refl 2) hsingle]
    exact ⟨_, _, rfl, by decide, by decide⟩

/-- A spelling of a string begins with a quote. -/
theorem StringText.exists_cons (h : StringText s w) :
    ∃ c u, w = c :: u ∧ (c = '\x22' ∨ c = '\'') := by
  cases h with
  | basic => exact ⟨_, _, rfl, .inl rfl⟩
  | literal => exact ⟨_, _, rfl, .inr rfl⟩
  | longBasic => exact ⟨_, _, rfl, .inl rfl⟩
  | longLiteral => exact ⟨_, _, rfl, .inr rfl⟩

end WildcardIndex.Toml
