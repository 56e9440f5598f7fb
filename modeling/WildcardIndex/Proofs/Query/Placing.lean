import Mathlib.Data.List.Chain
import Mathlib.Logic.Function.Iterate
import WildcardIndex.Proofs.Query.Candidates
/-!
# Queries — the search tries every way to place the parts

The search works off a stack that grows while it is worked off, and leaves out
placements that no record has. It comes to an end all the same, as each turn
leaves less work, and what it has found then is said without it: the records
that have the parts at **some** offsets, each behind the part before and early
enough for the parts to come. The tables need not describe any values for that,
as long as their sets are of one kind.
-/

namespace WildcardIndex

/-- Parts, each at an offset. -/
abbrev Placing := List (Nat × Part)

/-- The first offset behind the parts that were placed. -/
def Placing.behind (next : Nat) (ls : Placing) : Nat :=
  match ls.getLast? with
  | some (i, p) => i + p.length
  | none => next

namespace Tables

/-- The parts that are placed: all of them, but for a last one that no run
follows. -/
def toPlace (openEnd : Bool) (ps : List Part) : List Part := if openEnd then ps else ps.dropLast

/-- A way to place some parts, from an offset on. -/
structure Way (t : Tables) (openEnd : Bool) (ps : List Part) (anchored : Bool) (next : Nat)
    (ls : Placing) : Prop where
  /-- It places the parts that are to be placed, in order. -/
  parts_eq : ls.map Prod.snd = toPlace openEnd ps
  /-- The first one comes at or after the offset, and at the start if it is
  anchored. -/
  first : ∀ e ∈ ls.head?, next ≤ e.1 ∧ (anchored = true → e.1 = 0)
  /-- Each part comes behind the one before. -/
  chain : ls.IsChain fun d e => d.1 + d.2.length ≤ e.1
  /-- The longest length leaves room for it and all the parts after it. -/
  room : ∀ (k : Nat) e, ls[k]? = some e → e.1 + totalLength (ps.drop k) ≤ t.length.maxLength

/-- A record has the parts where they were placed. A last part that is not
placed comes at the end, behind the others. -/
structure Has (t : Tables) (openEnd : Bool) (ps : List Part) (next : Nat) (ls : Placing)
    (r : Record) : Prop where
  /-- Every part that was placed is found at its offset. -/
  placed : ∀ e ∈ ls, r ∈ t.partAt e.2 e.1
  /-- The other one is found at the end of what is long enough. -/
  last : openEnd = false → ∀ p ∈ ps.getLast?,
    r ∈ t.partAtEnd p ∧ r ∈ t.length.atLeast (ls.behind next + p.length)

variable {b : Backend} {t : Tables} {r : Record} {p : Part} {i n next : Nat}
variable {openEnd anchored : Bool} {rest ps : List Part} {ls : Placing}
variable {s found : RecordSet} {waiting : List Placement}

/-! ## What is reached -/

theorem toPlace_cons (hmore : ¬ (rest = [] ∧ openEnd = false)) :
    toPlace openEnd (p :: rest) = p :: toPlace openEnd rest := by
  cases openEnd with
  | true => rfl
  | false => exact List.dropLast_cons_of_ne_nil fun hrest => hmore ⟨hrest, rfl⟩

/-- A placed part is at the start of a way exactly if its offset is tried and
the rest is a way from behind it. -/
theorem way_cons_iff (hmore : ¬ (rest = [] ∧ openEnd = false)) :
    t.Way openEnd (p :: rest) anchored next ((i, p) :: ls) ↔
      i ∈ t.offsets p rest anchored next ∧ t.Way openEnd rest false (i + p.length) ls := by
  have htotal : totalLength (p :: rest) = p.length + totalLength rest := total_cons ..
  rw [mem_offsets]
  constructor
  · intro h
    obtain ⟨hbehind, hchain⟩ := List.isChain_cons.1 h.chain
    obtain ⟨hnext, hstart⟩ := h.first (i, p) rfl
    have hroom := h.room 0 (i, p) rfl
    rw [List.drop_zero, htotal] at hroom
    refine ⟨⟨by omega, hnext, ?_⟩, ?_, fun e he => ⟨hbehind e he, nofun⟩, hchain,
      fun k e he => h.room (k + 1) e he⟩
    · split
      · rename_i hanchored
        exact Nat.le_of_eq (hstart hanchored)
      · omega
    · have hparts := h.parts_eq
      rw [List.map_cons, toPlace_cons hmore, List.cons.injEq] at hparts
      exact hparts.2
  · rintro ⟨⟨hroom, hnext, hle⟩, h⟩
    have hchain : ∀ e ∈ ls.head?, i + p.length ≤ e.1 := fun e he => (h.first e he).1
    refine ⟨by rw [List.map_cons, h.parts_eq, toPlace_cons hmore], ?_,
      List.isChain_cons.2 ⟨hchain, h.chain⟩, ?_⟩
    · rintro e he
      cases he
      refine ⟨hnext, fun hanchored => ?_⟩
      rw [if_pos hanchored] at hle
      exact Nat.le_zero.1 hle
    · intro k e he
      cases k with
      | zero =>
        cases he
        rw [List.drop_zero, htotal]
        split at hle <;> omega
      | succ k => exact h.room k e he

theorem Way.exists_cons (h : t.Way openEnd (p :: rest) anchored next ls)
    (hmore : ¬ (rest = [] ∧ openEnd = false)) : ∃ i ls', ls = (i, p) :: ls' := by
  have hparts := h.parts_eq
  rw [toPlace_cons hmore, List.map_eq_cons_iff] at hparts
  obtain ⟨⟨i, q⟩, ls', rfl, rfl, -⟩ := hparts
  exact ⟨i, ls', rfl⟩

theorem behind_cons : Placing.behind next ((i, p) :: ls) = Placing.behind (i + p.length) ls := by
  unfold Placing.behind
  rw [List.getLast?_cons]
  cases ls.getLast? <;> rfl

theorem has_cons_iff (hmore : ¬ (rest = [] ∧ openEnd = false)) :
    t.Has openEnd (p :: rest) next ((i, p) :: ls) r ↔
      r ∈ t.partAt p i ∧ t.Has openEnd rest (i + p.length) ls r := by
  have hlast : openEnd = false → (p :: rest).getLast? = rest.getLast? := fun hopen =>
    List.getLast?_cons_of_ne_nil fun hrest => hmore ⟨hrest, hopen⟩
  constructor
  · intro h
    refine ⟨h.placed _ List.mem_cons_self, fun e he => h.placed e (List.mem_cons_of_mem _ he),
      fun hopen q hq => ?_⟩
    have hend := h.last hopen q (hlast hopen ▸ hq)
    rwa [behind_cons] at hend
  · rintro ⟨hat, h⟩
    refine ⟨fun e he => ?_, fun hopen q hq => ?_⟩
    · rcases List.mem_cons.1 he with rfl | he
      · exact hat
      · exact h.placed e he
    · rw [behind_cons]
      exact h.last hopen q (hlast hopen ▸ hq)

/-- **A record is reached if it has the parts in some way.** -/
theorem reached_iff_exists_way : t.Reached openEnd r ps anchored next ↔
    ∃ ls, t.Way openEnd ps anchored next ls ∧ t.Has openEnd ps next ls r := by
  induction ps generalizing anchored next with
  | nil =>
    refine iff_of_true trivial ⟨[], ⟨?_, nofun, .nil, nofun⟩, nofun, fun _ => nofun⟩
    cases openEnd <;> rfl
  | cons p rest ih =>
    rw [Reached]
    split
    · -- the last part is not placed, so there is one way, which places nothing
      rename_i hlast
      obtain ⟨rfl, rfl⟩ := hlast
      constructor
      · intro hr
        refine ⟨[], ⟨rfl, nofun, .nil, nofun⟩, nofun, fun _ q hq => ?_⟩
        cases hq
        exact hr
      · rintro ⟨ls, hway, hhas⟩
        obtain rfl : ls = [] := List.map_eq_nil_iff.1 hway.parts_eq
        exact hhas.last rfl p rfl
    · rename_i hmore
      constructor
      · rintro ⟨i, hi, hat, hreached⟩
        obtain ⟨ls, hway, hhas⟩ := ih.1 hreached
        exact ⟨(i, p) :: ls, (way_cons_iff hmore).2 ⟨hi, hway⟩, (has_cons_iff hmore).2 ⟨hat, hhas⟩⟩
      · rintro ⟨ls, hway, hhas⟩
        obtain ⟨i, ls', rfl⟩ := hway.exists_cons hmore
        obtain ⟨hi, hway⟩ := (way_cons_iff hmore).1 hway
        obtain ⟨hat, hhas⟩ := (has_cons_iff hmore).1 hhas
        exact ⟨i, hi, hat, ih.2 ⟨ls', hway, hhas⟩⟩

/-! ## Turns of the search -/

/-- One turn of the search: it takes the last placement off the stack. -/
def turn (t : Tables) (openEnd : Bool) : List Placement × RecordSet → List Placement × RecordSet
  | ([], found) => ([], found)
  | (⟨[], _, _, s⟩ :: waiting, found) => (waiting, found.union s)
  | (⟨p :: rest, anchored, next, s⟩ :: waiting, found) =>
    if rest.isEmpty && !openEnd then (waiting, found.union (t.closing p next s))
    else ((t.openings p rest anchored next s).reverse ++ waiting, found)

theorem weight_pos (t : Tables) (pl : Placement) : 0 < t.weight pl := work_pos _ _

/-- **After enough turns nothing waits**, and the search has found what it
finds. Each turn leaves less work. -/
theorem iterate_turn (t : Tables) (openEnd : Bool) (waiting : List Placement) (found : RecordSet)
    (hn : total t.weight waiting ≤ n) :
    (t.turn openEnd)^[n] (waiting, found) = ([], t.search openEnd waiting found) := by
  induction n generalizing waiting found with
  | zero =>
    cases waiting with
    | nil => rw [Function.iterate_zero, id, search]
    | cons pl waiting =>
      have := t.weight_pos pl
      rw [total_cons] at hn
      omega
  | succ n ih =>
    rw [Function.iterate_succ_apply]
    cases waiting with
    | nil => rw [turn, ih [] found (Nat.zero_le n)]
    | cons pl waiting =>
      have hpos := t.weight_pos pl
      rw [total_cons] at hn
      obtain ⟨parts, anchored, next, s⟩ := pl
      cases parts with
      | nil => rw [turn, ih waiting (found.union s) (by omega), search]
      | cons p rest =>
        rw [turn, search]
        split
        · exact ih waiting _ (by omega)
        · have := t.weight_openings_lt p rest anchored anchored next s
          refine ih _ found ?_
          rw [total_append, total_reverse]
          omega

/-! ## Two parts or more -/

/-- A way to place the parts of a pattern. -/
structure PatternWay (t : Tables) (p : Pattern) (ls : Placing) : Prop
    extends t.Way p.endsWithRun p.parts (!p.startsWithRun) 0 ls where
  /-- The offsets ascend. -/
  ascending : (ls.map Prod.fst).Pairwise (· < ·)

/-- A record of sufficient length has the parts of a pattern in some way. -/
def HasSomeWay (t : Tables) (p : Pattern) (r : Record) : Prop :=
  r ∈ t.length.atLeast p.minLength ∧
    ∃ ls, t.PatternWay p ls ∧ t.Has p.endsWithRun p.parts 0 ls r

theorem length_pos_of_mem_parts {bytes : Bytes} (hp : p ∈ (Pattern.ofBytes bytes).parts) :
    0 < p.length := by
  rw [Pattern.ofBytes, List.mem_map] at hp
  obtain ⟨stretch, hmem, rfl⟩ := hp
  obtain ⟨-, hne⟩ := List.mem_filter.1 hmem
  rw [Bool.not_eq_true', List.isEmpty_eq_false_iff] at hne
  exact List.length_pos_of_ne_nil hne

/-- Parts that take up room are placed at ascending offsets. -/
theorem Way.ascending (h : t.Way openEnd ps anchored next ls) (hps : ∀ p ∈ ps, 0 < p.length) :
    (ls.map Prod.fst).Pairwise (· < ·) := by
  rw [← List.isChain_iff_pairwise, List.isChain_map]
  refine h.chain.imp_of_mem_imp fun d e hd _ hle => ?_
  have hd : d.2 ∈ toPlace openEnd ps := h.parts_eq ▸ List.mem_map_of_mem hd
  have hpos : 0 < d.2.length := by
    refine hps d.2 ?_
    unfold toPlace at hd
    split at hd
    · exact hd
    · exact (List.dropLast_sublist ps).subset hd
  omega

/-- A pattern of several parts is answered by placing them. -/
theorem candidates_eq_placed {bytes : Bytes} (hp : 2 ≤ (Pattern.ofBytes bytes).parts.length) :
    t.candidates (.ofBytes bytes) = t.placed (.ofBytes bytes) := by
  have hsource : ¬ (Pattern.ofBytes bytes).isEmpty = true := by
    rw [Pattern.isEmpty, List.isEmpty_iff]
    rintro hnil
    cases (hnil : bytes = [])
    exact absurd hp (by decide)
  unfold candidates Pattern.strategy
  rw [if_neg hsource]
  cases hparts : (Pattern.ofBytes bytes).parts with
  | nil =>
    rw [hparts] at hp
    exact absurd hp (by decide)
  | cons first others =>
    cases others with
    | nil =>
      rw [hparts] at hp
      exact absurd hp (by simp)
    | cons second others => rfl

theorem mem_search_iff_hasSomeWay (h : t.OneKind b) (bytes : Bytes) :
    let pattern := Pattern.ofBytes bytes
    r ∈ t.search pattern.endsWithRun
        [⟨pattern.parts, !pattern.startsWithRun, 0, t.length.atLeast pattern.minLength⟩] t.nothing ↔
      t.HasSomeWay pattern r := by
  intro pattern
  rw [mem_search_start h (h.atLeast _), reached_iff_exists_way]
  refine and_congr_right fun _ => exists_congr fun ls => and_congr_left fun _ => ?_
  exact ⟨fun hway => ⟨hway, hway.ascending fun p hp => length_pos_of_mem_parts hp⟩,
    PatternWay.toWay⟩

/-- Several parts are answered with the records that have them in some way. -/
theorem mem_candidates_iff_hasSomeWay (h : t.OneKind b) {bytes : Bytes}
    (hp : 2 ≤ (Pattern.ofBytes bytes).parts.length) :
    r ∈ t.candidates (.ofBytes bytes) ↔ t.HasSomeWay (.ofBytes bytes) r := by
  rw [candidates_eq_placed hp, Tables.placed]
  split
  · -- no record is long enough, and the search is not even started
    rename_i hempty
    exact iff_of_false not_mem_nothing fun hr => RecordSet.not_mem_of_isEmpty hempty hr.1
  · exact mem_search_iff_hasSomeWay h bytes

/-- **The search finds the records that have the parts in some way**, and comes
to an end. Over tables of one kind, whatever they describe, the candidates of a
pattern of several parts are the long enough records that are found at the
offsets of some way to place its parts. Neither the order of the search nor the
placements it leaves out matter. -/
theorem search_tries_every_way (h : t.OneKind b) {bytes : Bytes}
    (hp : 2 ≤ (Pattern.ofBytes bytes).parts.length) :
    let pattern := Pattern.ofBytes bytes
    let start : Placement :=
      ⟨pattern.parts, !pattern.startsWithRun, 0, t.length.atLeast pattern.minLength⟩
    (∀ n, t.weight start ≤ n → ∃ found,
      (t.turn pattern.endsWithRun)^[n] ([start], t.nothing) = ([], found) ∧
        ∀ r, r ∈ found ↔ t.HasSomeWay pattern r) ∧
      ∀ r, r ∈ t.candidates pattern ↔ t.HasSomeWay pattern r := by
  intro pattern start
  refine ⟨fun n hn => ⟨_, iterate_turn t _ [start] t.nothing ?_, fun r => ?_⟩, fun r => ?_⟩
  · rwa [total_cons, total_nil, Nat.add_zero]
  · exact mem_search_iff_hasSomeWay h bytes
  · exact mem_candidates_iff_hasSomeWay h hp

/-- The positions and the lengths may disagree about a record. -/
theorem candidates_of_disagreeing_tables :
    let t : Tables :=
      ⟨(PositionalIndex.empty .dense).add 0 [97, 98], (LengthIndex.empty .dense).add 0 4⟩
    t.OneKind .dense ∧ (0 : Record) ∈ t.candidates (.ofBytes [97, 37, 98]) := by
  intro t
  have hkind : t.OneKind .dense := Valid.oneKind
    ⟨(PositionalIndex.valid_empty .dense).add 0 [97, 98], (LengthIndex.valid_empty .dense).add 0 4⟩
  have hway : t.PatternWay (.ofBytes [97, 37, 98]) [(0, ⟨[97]⟩)] := by
    refine ⟨⟨rfl, ?_, .singleton _, ?_⟩, List.pairwise_singleton _ _⟩
    · rintro e he
      cases he
      exact ⟨Nat.le_refl 0, fun _ => rfl⟩
    · intro k e he
      cases k with
      | zero =>
        cases he
        decide
      | succ k => cases he
  have hhas : t.Has false [⟨[97]⟩, ⟨[98]⟩] 0 [(0, ⟨[97]⟩)] 0 := by
    refine ⟨fun e he => ?_, fun _ q hq => ?_⟩
    · rw [List.mem_singleton.1 he]
      decide +kernel
    · cases hq
      decide +kernel
  exact ⟨hkind, ((search_tries_every_way hkind (by decide)).2 0).2 ⟨by decide, _, hway, hhas⟩⟩

end Tables

end WildcardIndex
