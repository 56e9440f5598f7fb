import Mathlib.Data.List.Basic
import WildcardIndex.Proofs.Toml.Digits
import WildcardIndex.Proofs.Toml.Strings
/-!
# TOML — every document is read

Reading goes through the lines of a document one by one. A header begins a table
behind those there are, and the line of a key puts its entry into the table that
was begun last. So **what is read of a document are the tables of its sections**.
-/

namespace WildcardIndex.Toml

variable {c : Char} {cs w t rest before after : List Char} {v : Value} {name key : String}
  {s s' : State} {es kids : Entries} {xs : Section} {ss : Sections}

/-! ## Values at the end of a line -/

/-- **Every spelling of a plain value is read as the value.** -/
theorem ScalarText.scalar? {v : Scalar} (h : ScalarText v t) (rest : List Char) :
    Toml.scalar? (t ++ '\n' :: rest) = some (v.toValue, '\n' :: rest) := by
  cases h with
  | flag b => cases b <;> rfl
  | count hroom => exact scalar?_toDigits hroom rest
  | word h =>
    obtain ⟨c, u, rfl, hquote⟩ := h.exists_cons
    have hread := h.string? rest
    rw [List.cons_append] at hread ⊢
    simp only [Toml.scalar?, if_pos hquote, hread, Option.map_some, String.ofList_toList,
      Scalar.toValue]

/-- No value begins with a blank or a bracket. -/
theorem scalar?_eq_none (h : c = ' ' ∨ c = '\t' ∨ c = '[' ∨ c = '\x7b') :
    scalar? (c :: cs) = none := by
  have hdigit : isDigit c = false := by rcases h with rfl | rfl | rfl | rfl <;> rfl
  have hfixed : ∀ k, fixed? (k + 1) (c :: cs) = none := by
    intro k
    rw [fixed?, if_neg]
    rintro ⟨-, hall⟩
    rw [List.take_succ_cons, List.all_cons, hdigit] at hall
    cases hall
  have hmoment : moment? (c :: cs) = none := by
    simp [moment?, date?, time?, twoDigits?, hfixed]
  rw [scalar?]
  rcases h with rfl | rfl | rfl | rfl <;>
    simp [hmoment, float?, decimal?, named?, integer?, sign, decimalDigits?, digits?, isDigit]

/-- A value that holds no others is read at any depth, behind any blanks. -/
theorem value?_of_scalar? (h : scalar? cs = some (v, rest)) (depth fuel : Nat) :
    value? depth (fuel + 1) cs = some (v, rest) := by
  cases cs with
  | nil => cases h
  | cons c cs =>
    have hopen : ∀ b, b = '[' ∨ b = '\x7b' → c ≠ b := by
      rintro b hb rfl
      rw [scalar?_eq_none (by tauto)] at h
      cases h
    rw [value?.eq_def]
    simp only
    split
    · rename_i heq
      exact absurd (List.cons.inj heq).1 (hopen '[' (.inl rfl))
    · rename_i heq
      exact absurd (List.cons.inj heq).1 (hopen '\x7b' (.inr rfl))
    · exact h

theorem skipBlanks_of_scalar? (h : scalar? cs = some (v, rest)) : skipBlanks cs = cs := by
  cases cs with
  | nil => rfl
  | cons c cs =>
    have hblank : isBlank c = false := by
      rw [isBlank, Bool.or_eq_false_iff, beq_eq_false_iff_ne, beq_eq_false_iff_ne]
      constructor
      all_goals
        rintro rfl
        rw [scalar?_eq_none (by tauto)] at h
        cases h
    exact List.dropWhile_cons_of_neg (by rw [hblank]; exact Bool.false_ne_true)

/-! ## Blanks -/

theorem skipBlanks_append (h : ∀ c ∈ before, isBlank c = true) (cs : List Char) :
    skipBlanks (before ++ cs) = skipBlanks cs := List.dropWhile_append_of_pos h

/-- A blank is no character of a key. -/
theorem isBare_eq_false_of_isBlank (h : isBlank c = true) : isBare c = false := by
  rw [isBlank, Bool.or_eq_true, beq_iff_eq, beq_iff_eq] at h
  rcases h with rfl | rfl <;> rfl

/-! ## Bare keys -/

/-- What a bare name begins with. -/
theorem IsBareName.exists_cons (h : IsBareName name) :
    ∃ c cs, name.toList = c :: cs ∧ isBare c = true := by
  have hne : name.toList ≠ [] := fun heq => h.1 (String.toList_inj.1 heq)
  obtain ⟨c, cs, hcs⟩ := List.exists_cons_of_ne_nil hne
  exact ⟨c, cs, hcs, h.2 c (hcs ▸ List.mem_cons_self)⟩

theorem ne_of_isBare (h : isBare c = true) {d : Char} (hd : isBare d = false) : c ≠ d := by
  rintro rfl
  rw [h] at hd
  cases hd

theorem IsBareName.skipBlanks (h : IsBareName name) (cs : List Char) :
    skipBlanks (name.toList ++ cs) = name.toList ++ cs := by
  obtain ⟨c, cs', hcs, hc⟩ := h.exists_cons
  have hblank : isBlank c = false := by
    rw [isBlank, Bool.or_eq_false_iff, beq_eq_false_iff_ne, beq_eq_false_iff_ne]
    exact ⟨ne_of_isBare hc (by decide), ne_of_isBare hc (by decide)⟩
  rw [hcs]
  exact List.dropWhile_cons_of_neg (by rw [hblank]; exact Bool.false_ne_true)

/-- **A bare name is read as a key of one component**, in front of anything that
neither goes on with it nor has a point. -/
theorem IsBareName.dottedKey? (h : IsBareName name) (hstop : ∀ c ∈ cs.head?, isBare c = false)
    (hpoint : ∀ u, Toml.skipBlanks cs ≠ '.' :: u) :
    dottedKey? (name.toList ++ cs) = some (([], name), Toml.skipBlanks cs) := by
  have hkey : simpleKey? (name.toList ++ cs) = some (name, cs) := by
    have htake : cs.takeWhile isBare = [] ∧ cs.dropWhile isBare = cs := by
      cases cs with
      | nil => exact ⟨rfl, rfl⟩
      | cons c cs =>
        have hc : ¬ isBare c = true := by rw [hstop c rfl]; exact Bool.false_ne_true
        exact ⟨List.takeWhile_cons_of_neg hc, List.dropWhile_cons_of_neg hc⟩
    obtain ⟨d, ds, hds, hd⟩ := h.exists_cons
    have hne : name.toList.isEmpty = false := by rw [hds]; rfl
    rw [simpleKey?]
    · simp only [List.takeWhile_append_of_pos h.2, List.dropWhile_append_of_pos h.2, htake.1,
        htake.2, List.append_nil, hne, Bool.false_eq_true, if_false, String.ofList_toList]
    all_goals
      intro u heq
      rw [hds, List.cons_append, List.cons.injEq] at heq
      exact absurd heq.1 (ne_of_isBare hd (by decide))
  rw [Toml.dottedKey?, nestingLimit, key?, h.skipBlanks, hkey]
  simp only [Option.bind_eq_bind, Option.bind_some]
  rfl

/-- A line that begins with a bare name holds a key. -/
theorem IsBareName.line? (h : IsBareName name) (s : State) (cs : List Char) :
    line? s (name.toList ++ cs) = keyLine? s (name.toList ++ cs) := by
  obtain ⟨c, cs', hcs, hc⟩ := h.exists_cons
  rw [Toml.line?, h.skipBlanks, hcs, List.cons_append]
  split
  · rename_i heq
    cases heq
  · rename_i heq
    exact absurd (List.cons.inj heq).1 (ne_of_isBare hc (by decide))
  · rename_i heq
    exact absurd (List.cons.inj heq).1 (ne_of_isBare hc (by decide))
  · rename_i heq
    obtain ⟨rfl, rfl⟩ := List.cons.inj heq
    rw [if_neg]
    rintro (hd | hd | hd) <;> exact ne_of_isBare hc (by decide) hd

/-! ## Lines -/

/-- A line that is read up to its end leaves the lines behind it. -/
theorem lines?_of_line? (h : line? s cs = some (s', '\n' :: rest)) (hlt : rest.length < cs.length) :
    lines? s cs = lines? s' rest := by
  rw [lines?, h]
  cases rest with
  | nil => simp [restOfLine?, skipBlanks, isBlank, lineEnd?, lines?, line?]
  | cons c rest =>
    have hrest : restOfLine? ('\n' :: c :: rest) = some (c :: rest) := rfl
    simp only [hrest, if_pos hlt]

/-- An empty line adds nothing. -/
theorem lines?_lineEnd (s : State) (rest : List Char) : lines? s ('\n' :: rest) = lines? s rest :=
  lines?_of_line? rfl (Nat.lt_succ_self _)

/-- **The line of a key puts its entry into the table of the last header.** -/
theorem lines?_entry {v : Scalar} (hkey : IsBareName key) (hbefore : ∀ c ∈ before, isBlank c = true)
    (hafter : ∀ c ∈ after, isBlank c = true) (hv : ScalarText v t)
    (hput : s.root.under (Entries.put key v.toValue []) s.current = some es) (rest : List Char) :
    lines? s (key.toList ++ (before ++ '=' :: (after ++ (t ++ '\n' :: rest)))) =
      lines? { s with root := es } rest := by
  have hsign : skipBlanks (before ++ '=' :: (after ++ (t ++ '\n' :: rest))) =
      '=' :: (after ++ (t ++ '\n' :: rest)) := skipBlanks_append hbefore _
  have hstop : ∀ c ∈ (before ++ '=' :: (after ++ (t ++ '\n' :: rest))).head?, isBare c = false := by
    cases before with
    | nil => exact fun c hc => Option.some.inj hc ▸ rfl
    | cons d before =>
      intro c hc
      obtain rfl := Option.some.inj hc
      exact isBare_eq_false_of_isBlank (hbefore d List.mem_cons_self)
  have hdotted := hkey.dottedKey? hstop fun u heq => by
    rw [hsign] at heq
    exact absurd (List.cons.inj heq).1 (by decide)
  rw [hsign] at hdotted
  have hblanks : skipBlanks (after ++ (t ++ '\n' :: rest)) = t ++ '\n' :: rest := by
    rw [skipBlanks_append hafter, skipBlanks_of_scalar? (hv.scalar? rest)]
  have hline : line? s (key.toList ++ (before ++ '=' :: (after ++ (t ++ '\n' :: rest)))) =
      some ({ s with root := es }, '\n' :: rest) := by
    rw [hkey.line?, keyLine?, hdotted]
    simp only [Option.bind_eq_bind, Option.bind_some, char?, if_true, hblanks,
      value?_of_scalar? (hv.scalar? rest), hput]
    rfl
  refine lines?_of_line? hline ?_
  simp only [List.length_append, List.length_cons]
  omega

/-- **A header begins a table.** -/
theorem IsBareName.lines?_header (h : IsBareName name) (hopen : s.root.openTable name = some es)
    (rest : List Char) :
    lines? s ('[' :: (name.toList ++ ']' :: '\n' :: rest)) =
      lines? { root := es, current := [name] } rest := by
  have hkey : Toml.dottedKey? (name.toList ++ ']' :: '\n' :: rest) =
      some (([], name), ']' :: '\n' :: rest) :=
    h.dottedKey? (fun c hc => Option.some.inj hc ▸ rfl) fun u heq =>
      absurd (List.cons.inj heq).1 (by decide)
  have hheader : Toml.line? s ('[' :: (name.toList ++ ']' :: '\n' :: rest)) =
      tableLine? s (name.toList ++ ']' :: '\n' :: rest) := by
    obtain ⟨c, cs, hcs, hc⟩ := h.exists_cons
    have hblanks : ∀ u, Toml.skipBlanks ('[' :: u) = '[' :: u := fun _ => rfl
    rw [Toml.line?, hblanks, hcs, List.cons_append]
    split
    · rename_i heq
      cases heq
    · rename_i heq
      have heq := (List.cons.inj heq).2
      exact absurd (List.cons.inj heq).1 (ne_of_isBare hc (by decide))
    · rename_i heq
      rw [(List.cons.inj heq).2]
    · rename_i hone heq
      exact (hone (List.cons.inj heq).1.symm).elim
  have htable : tableLine? s (name.toList ++ ']' :: '\n' :: rest) =
      some ({ root := es, current := [name] }, '\n' :: rest) := by
    rw [tableLine?, hkey]
    simp only [Option.bind_eq_bind, Option.bind_some, char?, if_true, Entries.under, hopen]
    rfl
  refine lines?_of_line? (hheader.trans htable) ?_
  simp only [List.length_append, List.length_cons]
  omega

/-! ## Sections -/

/-- A name that is missing is missing from every entry. -/
theorem ne_of_lookup_eq_none (h : es.lookup name = none) {e : String × Value} (he : e ∈ es) :
    e.1 ≠ name := by
  have := List.lookup_eq_none_iff.1 h e he
  grind

/-- The table that was begun last is the one that a path to it leads to. -/
theorem under_last (f : Entries → Option Entries) (h : es.lookup name = none) :
    Entries.under f [name] (es ++ [(name, .table .header kids)]) =
      (f kids).map fun kids => es ++ [(name, .table .header kids)] := by
  have hlookup : (es ++ [(name, Value.table .header kids)]).lookup name =
      some (.table .header kids) := by
    rw [List.lookup_append, h]
    simp
  have hreplace : ∀ v, Entries.replace (es ++ [(name, .table .header kids)]) name v =
      es ++ [(name, v)] := by
    intro v
    have hothers : Entries.replace es name v = es := by
      conv_rhs => rw [← List.map_id es]
      refine List.map_congr_left fun e he => ?_
      simp only [if_neg (ne_of_lookup_eq_none h he), id]
    rw [Entries.replace, List.map_append, ← Entries.replace, hothers]
    simp
  rw [Entries.under, hlookup]
  simp only [Entries.under, hreplace]
  rfl

/-- **The lines of a section put its entries into the table of its header**, one
after the other. -/
theorem SectionText.lines? (h : SectionText xs w) (hdistinct : (xs.map Prod.fst).Nodup)
    (hkids : ∀ e ∈ xs, kids.lookup e.1 = none) (hname : es.lookup name = none) (rest : List Char) :
    Toml.lines? { root := es ++ [(name, .table .header kids)], current := [name] } (w ++ rest) =
      Toml.lines? { root := es ++ [(name, .table .header (kids ++ xs.map fun (key, v) =>
          (key, v.toValue)))], current := [name] } rest := by
  induction h generalizing kids with
  | nil => simp
  | lineEnd hxs ih =>
    rw [List.cons_append, lines?_lineEnd, ih hdistinct hkids]
  | @entry key v before after t w xs hkey hbefore hafter hv hxs ih =>
    rw [List.map_cons, List.nodup_cons] at hdistinct
    have hmissing : kids.lookup key = none := hkids _ List.mem_cons_self
    have hput : Entries.under (Entries.put key v.toValue []) [name]
        (es ++ [(name, .table .header kids)]) =
          some (es ++ [(name, .table .header (kids ++ [(key, v.toValue)]))]) := by
      rw [under_last _ hname, Entries.put, hmissing]
      rfl
    have hrest : ∀ e ∈ xs, (kids ++ [(key, v.toValue)]).lookup e.1 = none := by
      intro e he
      have hne : e.1 ≠ key := fun heq => hdistinct.1 (List.mem_map.2 ⟨e, he, heq⟩)
      rw [List.lookup_append, hkids e (List.mem_cons_of_mem _ he)]
      simp [hne]
    simp only [List.append_assoc, List.cons_append]
    rw [lines?_entry hkey hbefore hafter hv hput, ih hdistinct.2 hrest]
    simp

/-- Behind the last line stand the entries. -/
theorem lines?_nil (s : State) : lines? s [] = some s.root := by
  simp [lines?, line?, skipBlanks, restOfLine?]

/-- **Reading a document leaves the tables of its sections**, behind those there
were. -/
theorem Document.lines? (h : Document ss w) (hnames : (ss.map Prod.fst).Nodup)
    (hkeys : ∀ x ∈ ss, (x.2.map Prod.fst).Nodup) (hmissing : ∀ x ∈ ss, s.root.lookup x.1 = none) :
    Toml.lines? s w = some (s.root ++ ss.entries) := by
  induction h generalizing s with
  | nil => rw [lines?_nil, Sections.entries, List.map_nil, List.append_nil]
  | lineEnd hss ih => rw [lines?_lineEnd, ih hnames hkeys hmissing]
  | @header name xs ss u w hname hxs hss ih =>
    rw [List.map_cons, List.nodup_cons] at hnames
    have hnew : s.root.lookup name = none := hmissing _ List.mem_cons_self
    have hopen : s.root.openTable name = some (s.root ++ [(name, .table .header [])]) := by
      rw [Entries.openTable, hnew]
    have hrest : ∀ x ∈ ss, (s.root ++ [(name, xs.table)]).lookup x.1 = none := by
      intro x hx
      have hne : x.1 ≠ name := fun heq => hnames.1 (List.mem_map.2 ⟨x, hx, heq⟩)
      rw [List.lookup_append, hmissing x (List.mem_cons_of_mem _ hx)]
      simp [hne]
    rw [hname.lines?_header hopen,
      hxs.lines? (hkeys _ List.mem_cons_self) (fun _ _ => rfl) hnew w, List.nil_append]
    exact (ih hnames.2 (fun x hx => hkeys x (List.mem_cons_of_mem _ hx)) hrest).trans
      (by simp [Sections.entries, Section.table])

/-- **Every document is read as the tables of its sections.** -/
theorem Document.read? {text : String} (hss : ss.WellFormed) (h : Document ss text.toList) :
    Toml.read? text = some ss.entries := by
  have hlines := h.lines? (s := {}) hss.names hss.keys fun _ _ => rfl
  rw [Toml.read?]
  generalize text.toList = w at h hlines ⊢
  split
  · -- no document begins with a byte order mark
    rename_i cs
    generalize hcs : '\ufeff' :: cs = w at h
    cases h with
    | nil => cases hcs
    | lineEnd => exact absurd (List.cons.inj hcs).1 (by decide)
    | header => exact absurd (List.cons.inj hcs).1 (by decide)
  · exact hlines

end WildcardIndex.Toml
