import Mathlib.Data.List.Basic
import Mathlib.Order.Interval.Set.Defs
import WildcardIndex.Proofs.Pattern.Division
import WildcardIndex.Proofs.Query.Placing
/-!
# Queries — the bounds lose nothing

The bytes of a pattern that are not runs are its **shortest length**: no value
that matches is shorter, one of that length does match, and a run makes room for
any number of bytes more. The search uses the bound twice, to start from the
records that are long enough and to leave room for the parts to come. Held
against a search that does neither, it finds the same.
-/

namespace WildcardIndex

namespace Pattern

variable {p v : Bytes} {n : Nat}

/-! ## How long matching values are -/

/-- Empty segments add nothing to the length of the parts. -/
theorem total_length_nonempty (ss : List Bytes) :
    total Part.length (nonempty ss) = total List.length ss := by
  induction ss with
  | nil => rfl
  | cons s ss ih =>
    cases s with
    | nil => rw [nonempty_nil_cons, ih, total_cons, List.length_nil, Nat.zero_add]
    | cons c s => rw [nonempty_cons_of_ne (List.cons_ne_nil c s), total_cons, total_cons, ih, Part.length]

/-- **The shortest length counts the bytes that are not runs.** -/
theorem minLength_ofBytes (p : Bytes) :
    (ofBytes p).minLength = (p.filter (· != anyRun)).length := by
  rw [minLength, parts_ofBytes, total_length_nonempty]
  induction p with
  | nil => rfl
  | cons c p ih =>
    rw [total_cons] at ih
    by_cases hc : c = anyRun
    · subst hc
      rw [segments_run, List.filter_cons_of_neg (by simp), ← ih, total_cons, total_cons,
        List.length_nil, Nat.zero_add]
    · rw [segments_byte hc, List.filter_cons_of_pos (by simpa using hc), List.length_cons, ← ih,
        total_cons, List.length_cons]
      simp only
      omega

/-- A part is no longer than the pattern it was read from. -/
theorem length_le_of_mem_parts {part : Part} (h : part ∈ (ofBytes p).parts) :
    part.length ≤ p.length := by
  have hpart : part.length ≤ (ofBytes p).minLength := le_total h
  rw [minLength_ofBytes] at hpart
  exact hpart.trans (List.length_filter_le _ p)

theorem Matches.minLength_le (h : Matches p v) : (ofBytes p).minLength ≤ v.length :=
  ((matches_iff_fits p v).1 h).minLength_le

/-- A pattern without its runs is a value that it matches: a `_` takes itself. -/
theorem matches_filter (p : Bytes) : Matches p (p.filter (· != anyRun)) := by
  induction p with
  | nil => exact .nil
  | cons c p ih =>
    by_cases hrun : c = anyRun
    · subst hrun
      rw [List.filter_cons_of_neg (by simp)]
      exact ih.runEnds
    · rw [List.filter_cons_of_pos (by simpa using hrun)]
      by_cases hone : c = anyOne
      · subst hone
        exact ih.one
      · exact .literal hrun hone ih

/-- Without a run every byte of the pattern takes one byte. -/
theorem length_eq_of_matches (hrun : anyRun ∉ p) (h : Matches p v) :
    v.length = (ofBytes p).minLength := by
  have hfilter : p.filter (· != anyRun) = p := by
    refine List.filter_eq_self.2 fun c hc => ?_
    rw [bne_iff_ne]
    rintro rfl
    exact hrun hc
  rw [minLength_ofBytes, hfilter]
  exact ((matches_iff_agrees hrun).1 h).1

/-- A run takes as many bytes as are wanted. -/
theorem exists_matches_of_le (hrun : anyRun ∈ p) (hn : (ofBytes p).minLength ≤ n) :
    ∃ v, Matches p v ∧ v.length = n := by
  obtain ⟨q, r, rfl⟩ := List.append_of_mem hrun
  let filling : Bytes := List.replicate (n - (ofBytes (q ++ anyRun :: r)).minLength) 0
  refine ⟨q.filter (· != anyRun) ++ (filling ++ r.filter (· != anyRun)), ?_, ?_⟩
  · exact matches_append_iff.2 ⟨_, _, rfl, matches_filter q,
      matches_run_iff_append.2 ⟨filling, _, rfl, matches_filter r⟩⟩
  · have hmin := minLength_ofBytes (q ++ anyRun :: r)
    rw [List.filter_append, List.filter_cons_of_neg (by simp), List.length_append] at hmin
    rw [List.length_append, List.length_append, List.length_replicate]
    omega

/-- **Without a run one length matches**, the shortest. -/
theorem lengths_of_not_mem (hrun : anyRun ∉ p) :
    {n | ∃ v, Matches p v ∧ v.length = n} = {(ofBytes p).minLength} := by
  ext n
  constructor
  · rintro ⟨v, hv, rfl⟩
    exact length_eq_of_matches hrun hv
  · rintro rfl
    exact ⟨_, matches_filter p, length_eq_of_matches hrun (matches_filter p)⟩

/-- **With a run every length does** from the shortest on. -/
theorem lengths_of_mem (hrun : anyRun ∈ p) :
    {n | ∃ v, Matches p v ∧ v.length = n} = Set.Ici (ofBytes p).minLength := by
  ext n
  constructor
  · rintro ⟨v, hv, rfl⟩
    exact hv.minLength_le
  · exact exists_matches_of_le hrun

end Pattern

namespace Tables

variable {b : Backend} {m : Contents Bytes} {t : Tables} {r : Record} {v : Bytes} {p : Part}
variable {openEnd anchored : Bool} {rest ps : List Part} {i next : Nat} {ls : Placing}

/-! ## Ways that leave no room -/

/-- A way to place some parts that leaves no room for the parts to come: the
longest length has room for each part alone. -/
structure LooseWay (t : Tables) (openEnd : Bool) (ps : List Part) (anchored : Bool) (next : Nat)
    (ls : Placing) : Prop where
  /-- It places the parts that are to be placed, in order. -/
  parts_eq : ls.map Prod.snd = toPlace openEnd ps
  /-- The first one comes at or after the offset, and at the start if it is
  anchored. -/
  first : ∀ e ∈ ls.head?, next ≤ e.1 ∧ (anchored = true → e.1 = 0)
  /-- Each part comes behind the one before. -/
  chain : ls.IsChain fun d e => d.1 + d.2.length ≤ e.1
  /-- The longest length leaves room for it. -/
  fits : ∀ e ∈ ls, e.1 + e.2.length ≤ t.length.maxLength

theorem looseWay_cons_iff (hmore : ¬ (rest = [] ∧ openEnd = false)) :
    t.LooseWay openEnd (p :: rest) anchored next ((i, p) :: ls) ↔
      (next ≤ i ∧ (anchored = true → i = 0) ∧ i + p.length ≤ t.length.maxLength) ∧
        t.LooseWay openEnd rest false (i + p.length) ls := by
  constructor
  · intro h
    obtain ⟨hbehind, hchain⟩ := List.isChain_cons.1 h.chain
    obtain ⟨hnext, hstart⟩ := h.first (i, p) rfl
    have hparts := h.parts_eq
    rw [List.map_cons, toPlace_cons hmore, List.cons.injEq] at hparts
    exact ⟨⟨hnext, hstart, h.fits _ List.mem_cons_self⟩, hparts.2,
      fun e he => ⟨hbehind e he, nofun⟩, hchain, fun e he => h.fits e (List.mem_cons_of_mem _ he)⟩
  · rintro ⟨⟨hnext, hstart, hfits⟩, h⟩
    refine ⟨by rw [List.map_cons, h.parts_eq, toPlace_cons hmore], ?_,
      List.isChain_cons.2 ⟨fun e he => (h.first e he).1, h.chain⟩, fun e he => ?_⟩
    · rintro e he
      cases he
      exact ⟨hnext, hstart⟩
    · rcases List.mem_cons.1 he with rfl | he
      · exact hfits
      · exact h.fits e he

theorem LooseWay.exists_cons (h : t.LooseWay openEnd (p :: rest) anchored next ls)
    (hmore : ¬ (rest = [] ∧ openEnd = false)) : ∃ i ls', ls = (i, p) :: ls' := by
  have hparts := h.parts_eq
  rw [toPlace_cons hmore, List.map_eq_cons_iff] at hparts
  obtain ⟨⟨i, q⟩, ls', rfl, rfl, -⟩ := hparts
  exact ⟨i, ls', rfl⟩

/-- **A record that has the parts at some offsets has room for all of them.** The
induction is on the parts: each ends where the others begin. -/
theorem Represents.add_totalLength_le (h : t.Represents b m) (hv : m r = some v)
    (hnext : next ≤ v.length) (hway : t.LooseWay openEnd ps anchored next ls)
    (hhas : t.Has openEnd ps next ls r) : next + totalLength ps ≤ v.length := by
  have hlt := h.length_lt hv
  have hlen := h.length_le hv
  induction ps generalizing anchored next ls with
  | nil => exact hnext
  | cons p rest ih =>
    have htotal : totalLength (p :: rest) = p.length + totalLength rest := total_cons ..
    rw [htotal]
    by_cases hmore : rest = [] ∧ openEnd = false
    · -- the last part is not placed; the length it was bounded by has room for it
      obtain ⟨rfl, rfl⟩ := hmore
      obtain rfl : ls = [] := List.map_eq_nil_iff.1 hway.parts_eq
      have hend := (hhas.last rfl p rfl).2
      rw [h.mem_atLeast, Contents.exists_iff hv] at hend
      exact hend
    · obtain ⟨i, ls', rfl⟩ := hway.exists_cons hmore
      obtain ⟨⟨hge, -, hfits⟩, hway⟩ := (looseWay_cons_iff hmore).1 hway
      obtain ⟨hat, hhas⟩ := (has_cons_iff hmore).1 hhas
      have hslots := h.slots_le
      have hmax : t.length.maxLength ≤ t.length.slots := Nat.sub_le _ _
      rw [h.mem_partAt (by omega), Contents.exists_iff hv] at hat
      have hrest := ih hat.add_length_le hway hhas
      omega

/-- With nothing to place a way places nothing, with room or without. -/
theorem way_iff_looseWay_of_toPlace_nil (hplace : toPlace openEnd ps = []) :
    t.Way openEnd ps anchored next ls ↔ t.LooseWay openEnd ps anchored next ls := by
  constructor
  · intro hway
    obtain rfl : ls = [] := List.map_eq_nil_iff.1 (hway.parts_eq.trans hplace)
    exact ⟨hplace.symm, nofun, .nil, nofun⟩
  · intro hway
    obtain rfl : ls = [] := List.map_eq_nil_iff.1 (hway.parts_eq.trans hplace)
    exact ⟨hplace.symm, nofun, .nil, nofun⟩

/-- **Leaving room for the parts to come excludes no way that a record has.** -/
theorem Represents.way_iff_looseWay (h : t.Represents b m) (hv : m r = some v)
    (hnext : next ≤ v.length) (hhas : t.Has openEnd ps next ls r) :
    t.Way openEnd ps anchored next ls ↔ t.LooseWay openEnd ps anchored next ls := by
  have hlen := h.length_le hv
  have hlt := h.length_lt hv
  have hslots := h.slots_le
  have hmax : t.length.maxLength ≤ t.length.slots := Nat.sub_le _ _
  induction ps generalizing anchored next ls with
  | nil =>
    exact way_iff_looseWay_of_toPlace_nil (by cases openEnd <;> rfl)
  | cons p rest ih =>
    by_cases hmore : rest = [] ∧ openEnd = false
    · obtain ⟨rfl, rfl⟩ := hmore
      exact way_iff_looseWay_of_toPlace_nil rfl
    · have hcons : ∀ i ls', ls = (i, p) :: ls' →
          (t.Way openEnd (p :: rest) anchored next ls ↔
            t.LooseWay openEnd (p :: rest) anchored next ls) := by
        rintro i ls' rfl
        obtain ⟨hat, hhas⟩ := (has_cons_iff hmore).1 hhas
        rw [way_cons_iff hmore, looseWay_cons_iff hmore, mem_offsets]
        have hstands : i + p.length ≤ t.length.maxLength → i + p.length ≤ v.length := by
          intro hfits
          rw [h.mem_partAt (by omega), Contents.exists_iff hv] at hat
          exact hat.add_length_le
        constructor
        · rintro ⟨⟨hroom, hge, hle⟩, hway⟩
          have hfits : i + p.length ≤ t.length.maxLength := by
            split at hle <;> omega
          refine ⟨⟨hge, fun hanchored => ?_, hfits⟩, (ih (hstands hfits) hhas).1 hway⟩
          rw [if_pos hanchored] at hle
          exact Nat.le_zero.1 hle
        · rintro ⟨⟨hge, hstart, hfits⟩, hway⟩
          have hrest := h.add_totalLength_le hv (hstands hfits) hway hhas
          refine ⟨⟨by omega, hge, ?_⟩, (ih (hstands hfits) hhas).2 hway⟩
          split
          · rename_i hanchored
            exact Nat.le_of_eq (hstart hanchored)
          · omega
      constructor
      · intro hway
        obtain ⟨i, ls', hls⟩ := hway.exists_cons hmore
        exact (hcons i ls' hls).1 hway
      · intro hway
        obtain ⟨i, ls', hls⟩ := hway.exists_cons hmore
        exact (hcons i ls' hls).2 hway

/-- Several parts are what the search is for. -/
theorem two_le_length_parts_of_windowed {pattern : Pattern} (h : pattern.strategy = .windowed) :
    2 ≤ pattern.parts.length := by
  cases hparts : pattern.parts with
  | nil =>
    rw [Pattern.strategy, hparts] at h
    split at h <;> cases h
  | cons q qs =>
    cases qs with
    | nil =>
      rw [Pattern.strategy, hparts] at h
      split at h
      · cases h
      · revert h
        cases pattern.startsWithRun <;> cases pattern.endsWithRun <;> exact nofun
    | cons q' qs => exact Nat.le_add_left 2 qs.length

/-- **A way that leaves no room is tried all the same**, from a record that is
long enough, wherever a record has it. -/
theorem Represents.way_of_looseWay (h : t.Represents b m) (hr : r ∈ t.length.all)
    (hway : t.LooseWay openEnd ps anchored 0 ls) (hhas : t.Has openEnd ps 0 ls r) :
    r ∈ t.length.atLeast (totalLength ps) ∧ t.Way openEnd ps anchored 0 ls := by
  obtain ⟨v, hv, -⟩ := h.mem_atLeast.1 hr
  have hroom := h.add_totalLength_le hv (Nat.zero_le _) hway hhas
  rw [Nat.zero_add] at hroom
  exact ⟨h.mem_atLeast.2 ⟨v, hv, hroom⟩, (h.way_iff_looseWay hv (Nat.zero_le _) hhas).2 hway⟩

/-- **The search answers as one without bounds does.** -/
theorem Represents.mem_candidates_iff_looseWay {bytes : Bytes} (h : t.Represents b m)
    (hwindowed : (Pattern.ofBytes bytes).strategy = .windowed) :
    r ∈ t.candidates (.ofBytes bytes) ↔ r ∈ t.length.all ∧ ∃ ls,
      t.LooseWay (Pattern.ofBytes bytes).endsWithRun (Pattern.ofBytes bytes).parts
          (!(Pattern.ofBytes bytes).startsWithRun) 0 ls ∧
        t.Has (Pattern.ofBytes bytes).endsWithRun (Pattern.ofBytes bytes).parts 0 ls r := by
  rw [mem_candidates_iff_hasSomeWay h.valid.oneKind (two_le_length_parts_of_windowed hwindowed)]
  constructor
  · rintro ⟨hr, ls, hway, hhas⟩
    obtain ⟨v, hv, -⟩ := h.mem_atLeast.1 hr
    exact ⟨h.mem_atLeast.2 ⟨v, hv, Nat.zero_le _⟩, ls,
      (h.way_iff_looseWay hv (Nat.zero_le _) hhas).1 hway.toWay, hhas⟩
  · rintro ⟨hr, ls, hway, hhas⟩
    obtain ⟨hlong, hway⟩ := h.way_of_looseWay hr hway hhas
    exact ⟨hlong, ls, ⟨hway, hway.ascending fun q hq => length_pos_of_mem_parts hq⟩, hhas⟩

/-- **The shortest length is exactly the bound of the lengths that match**: a
pattern without a run matches values of that length only, one with a run values
of that length and of every greater one. So the search loses nothing by its
bounds. Over tables that represent values, every matching record is among those
it starts from; every way to place the parts that a record has, with no room
left for the parts to come, is one that the search tries; and its answer is
that of a search over all records and all such ways. -/
theorem minLength_bounds_matches (bytes : Bytes) :
    let pattern := Pattern.ofBytes bytes
    let lengths := {n | ∃ v, Pattern.Matches bytes v ∧ v.length = n}
    (anyRun ∉ bytes → lengths = {pattern.minLength}) ∧
      (anyRun ∈ bytes → lengths = Set.Ici pattern.minLength) ∧
      ∀ (b : Backend) (m : Contents Bytes) (t : Tables), t.Represents b m →
        pattern.strategy = .windowed →
          (∀ r v, m r = some v → Pattern.Matches bytes v →
            r ∈ t.length.atLeast pattern.minLength ∧ r ∈ t.candidates pattern) ∧
          (∀ r ls, r ∈ t.length.all →
            t.LooseWay pattern.endsWithRun pattern.parts (!pattern.startsWithRun) 0 ls →
            t.Has pattern.endsWithRun pattern.parts 0 ls r →
              r ∈ t.length.atLeast pattern.minLength ∧
                t.Way pattern.endsWithRun pattern.parts (!pattern.startsWithRun) 0 ls) ∧
          ∀ r, r ∈ t.candidates pattern ↔ r ∈ t.length.all ∧ ∃ ls,
            t.LooseWay pattern.endsWithRun pattern.parts (!pattern.startsWithRun) 0 ls ∧
              t.Has pattern.endsWithRun pattern.parts 0 ls r := by
  intro pattern lengths
  refine ⟨Pattern.lengths_of_not_mem, Pattern.lengths_of_mem, fun b m t h hwindowed => ?_⟩
  refine ⟨fun r v hv hmatches => ?_, fun r ls => h.way_of_looseWay, fun r => ?_⟩
  · exact ⟨h.mem_atLeast.2 ⟨v, hv, hmatches.minLength_le⟩,
      (h.mem_candidates bytes).2 ⟨v, hv, hmatches⟩⟩
  · exact h.mem_candidates_iff_looseWay hwindowed

/-- An `a`, a run and a `b`: the run makes room for three bytes, and the record of
an `axb` is found. -/
theorem lengths_of_two_parts :
    (∃ v, Pattern.Matches [97, 37, 98] v ∧ v.length = 5) ∧
      (0 : Record) ∈ ((empty .dense).add 0 [97, 120, 98]).candidates (.ofBytes [97, 37, 98]) := by
  obtain ⟨-, hrun, hbounds⟩ := minLength_bounds_matches [97, 37, 98]
  have h := (represents_empty .dense).add (r := 0) (v := [97, 120, 98]) rfl (by decide)
  refine ⟨?_, ((hbounds _ _ _ h (by decide)).1 0 [97, 120, 98] rfl (by decide)).2⟩
  have hlengths := hrun (by decide)
  have hmin : (Pattern.ofBytes [97, 37, 98]).minLength ≤ 5 := by decide
  rw [← Set.mem_Ici, ← hlengths] at hmin
  exact hmin

end Tables

end WildcardIndex
