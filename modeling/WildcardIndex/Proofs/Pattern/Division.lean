import Mathlib.Data.List.Basic
import Mathlib.Data.List.Forall2
import WildcardIndex.Pattern.Strategy
import WildcardIndex.Proofs.Pattern.Rewriting
/-!
# Patterns — the parts and the open ends say it all

A pattern matches a value that **divides** into pieces, one for each part and
agreeing with it, and gaps between them; the outer gaps are empty where no run
allows for them. So what a pattern matches depends on its parts and its open
ends only, and one text stands for all that share them: the **canonical** one,
with a single run wherever there are some. Reading it gives the parts and the
ends back.
-/

namespace WildcardIndex

variable {v w bs : Bytes} {c : UInt8} {p : Bytes} {q : Part}

namespace Part

/-- A piece agrees with a part: it is as long, and has the part's byte wherever
that is not `_`. -/
def Agrees (q : Part) (w : Bytes) : Prop :=
  w.length = q.length ∧ ∀ (j : Nat) (c : UInt8), q.bytes[j]? = some c → c ≠ anyOne → w[j]? = some c

theorem agrees_nil_iff : Agrees ⟨[]⟩ w ↔ w = [] := by
  simp [Agrees, length]

/-- A piece agrees with a part if its first bytes do and the rest agrees. -/
theorem agrees_cons_iff :
    Agrees ⟨c :: bs⟩ v ↔ ∃ b w, v = b :: w ∧ (c = anyOne ∨ b = c) ∧ Agrees ⟨bs⟩ w := by
  constructor
  · rintro ⟨hlen, hbytes⟩
    obtain ⟨b, w, rfl⟩ := List.exists_cons_of_length_eq_add_one hlen
    refine ⟨b, w, rfl, ?_, Nat.succ.inj hlen, fun j d hd hne => hbytes (j + 1) d hd hne⟩
    by_cases hc : c = anyOne
    · exact .inl hc
    · exact .inr (Option.some.inj (hbytes 0 c rfl hc))
  · rintro ⟨b, w, rfl, hb, hlen, hbytes⟩
    refine ⟨congrArg Nat.succ hlen, fun j d hd hne => ?_⟩
    cases j with
    | zero =>
      obtain rfl : c = d := Option.some.inj hd
      rw [hb.resolve_left hne]
      rfl
    | succ j => exact hbytes j d hd hne

end Part

namespace Pattern

/-- A text without a run matches the pieces that agree with it. -/
theorem matches_iff_agrees (h : anyRun ∉ bs) : Matches bs w ↔ Part.Agrees ⟨bs⟩ w := by
  induction bs generalizing w with
  | nil =>
    rw [Part.agrees_nil_iff]
    constructor
    · intro hw
      cases hw
      rfl
    · rintro rfl
      exact .nil
  | cons c bs ih =>
    rw [List.mem_cons, not_or] at h
    simp only [matches_byte_iff (Ne.symm h.1), ih h.2, Part.agrees_cons_iff]

/-! ## Divisions -/

/-- A value cut into pieces, with gaps around them. -/
structure Division where
  /-- The gap in front. -/
  first : Bytes
  /-- The pieces in order, each with the gap behind it. -/
  others : List (Bytes × Bytes)

namespace Division

/-- Pieces and gaps, one after the other. -/
def joined (others : List (Bytes × Bytes)) : Bytes := others.flatMap fun e => e.1 ++ e.2

/-- The value that was cut. -/
def whole (d : Division) : Bytes := d.first ++ joined d.others

/-- The gap at the end. Without a piece it is the one in front. -/
def last (d : Division) : Bytes := (d.others.getLast?.map Prod.snd).getD d.first

/-- A division suits a pattern: its pieces agree with the parts, and it has a
gap at an end only if the pattern has a run there. -/
structure Suits (d : Division) (p : Pattern) : Prop where
  /-- There is a piece for each part, which agrees with it. -/
  pieces : List.Forall₂ (fun q e => q.Agrees e.1) p.parts d.others
  /-- Without a run in front there is no gap in front. -/
  first : p.startsWithRun = false → d.first = []
  /-- Without a run at the end there is no gap at the end. -/
  last : p.endsWithRun = false → d.last = []

theorem joined_cons (w g : Bytes) (others : List (Bytes × Bytes)) :
    joined ((w, g) :: others) = w ++ (g ++ joined others) := by
  rw [joined, List.flatMap_cons, List.append_assoc, joined]

end Division

/-! ## The canonical text -/

/-- A run, if an end is open. -/
def run (isOpen : Bool) : Bytes := if isOpen then [anyRun] else []

/-- The parts of a pattern with a single run between them, and one at either end
that is open. A pattern of runs only is a single run. -/
def canonical (p : Pattern) : Bytes :=
  if p.parts.isEmpty then run (p.startsWithRun || p.endsWithRun)
  else run p.startsWithRun ++ [anyRun].intercalate (p.parts.map Part.bytes) ++ run p.endsWithRun

/-- An open end takes any gap, a closed one none. -/
theorem matches_run_append_iff {isOpen : Bool} :
    Matches (run isOpen ++ p) v ↔ ∃ g u, v = g ++ u ∧ (isOpen = false → g = []) ∧ Matches p u := by
  cases isOpen with
  | true => simp [run, matches_run_iff_append]
  | false => simp [run]

theorem matches_end_iff {isOpen : Bool} : Matches (run isOpen) v ↔ (isOpen = false → v = []) := by
  have hnil : ∀ u, Matches [] u ↔ u = [] := by
    intro u
    rw [matches_iff_agrees List.not_mem_nil, Part.agrees_nil_iff]
  rw [← List.append_nil (run isOpen), matches_run_append_iff]
  simp only [hnil]
  constructor
  · rintro ⟨g, u, rfl, hg, rfl⟩ hclosed
    rw [List.append_nil, hg hclosed]
  · intro hv
    exact ⟨v, [], (List.append_nil v).symm, hv, rfl⟩

/-- A value divides into pieces that agree with some parts, each with the gap
behind it; the last gap is empty unless the end is open. -/
def Divides (isOpen : Bool) (ps : List Part) (v : Bytes) : Prop :=
  ∃ others, v = Division.joined others ∧ List.Forall₂ (fun q e => q.Agrees e.1) ps others ∧
    (isOpen = false → ∀ e ∈ others.getLast?, e.2 = [])

theorem divides_singleton_iff {isOpen : Bool} :
    Divides isOpen [q] v ↔ ∃ u g, v = u ++ g ∧ q.Agrees u ∧ (isOpen = false → g = []) := by
  constructor
  · rintro ⟨others, rfl, hpieces, hlast⟩
    obtain ⟨⟨u, g⟩, rest, hu, hrest, rfl⟩ := List.forall₂_cons_left_iff.1 hpieces
    obtain rfl := List.forall₂_nil_left_iff.1 hrest
    refine ⟨u, g, ?_, hu, fun hclosed => hlast hclosed (u, g) rfl⟩
    rw [Division.joined_cons, Division.joined, List.flatMap_nil, List.append_nil]
  · rintro ⟨u, g, rfl, hu, hg⟩
    refine ⟨[(u, g)], ?_, .cons hu .nil, ?_⟩
    · rw [Division.joined_cons, Division.joined, List.flatMap_nil, List.append_nil]
    · rintro hclosed e he
      cases he
      exact hg hclosed

/-- The gap behind a piece that is not the last may be anything. -/
theorem divides_cons_cons_iff {isOpen : Bool} {r : Part} {ps : List Part} :
    Divides isOpen (q :: r :: ps) v ↔
      ∃ u g w, v = u ++ (g ++ w) ∧ q.Agrees u ∧ Divides isOpen (r :: ps) w := by
  constructor
  · rintro ⟨others, rfl, hpieces, hlast⟩
    obtain ⟨⟨u, g⟩, rest, hu, hrest, rfl⟩ := List.forall₂_cons_left_iff.1 hpieces
    refine ⟨u, g, _, Division.joined_cons u g rest, hu, rest, rfl, hrest,
      fun hclosed e he => hlast hclosed e ?_⟩
    cases hrest
    exact he
  · rintro ⟨u, g, -, rfl, hu, others, rfl, hpieces, hlast⟩
    refine ⟨(u, g) :: others, (Division.joined_cons u g others).symm, .cons hu hpieces,
      fun hclosed e he => hlast hclosed e ?_⟩
    cases hpieces
    exact he

/-- **Parts with runs between them match what divides into agreeing pieces.** The
induction is on the parts; each run takes the gap behind a piece. -/
theorem matches_intercalate_iff {isOpen : Bool} {ps : List Part} (hps : ps ≠ [])
    (hfree : ∀ q ∈ ps, anyRun ∉ q.bytes) :
    Matches ([anyRun].intercalate (ps.map Part.bytes) ++ run isOpen) v ↔ Divides isOpen ps v := by
  induction ps generalizing v with
  | nil => exact absurd rfl hps
  | cons q ps ih =>
    have hq := hfree q List.mem_cons_self
    cases ps with
    | nil =>
      rw [List.map_cons, List.map_nil, List.intercalate_singleton, divides_singleton_iff]
      simp only [matches_append_iff, matches_end_iff, matches_iff_agrees hq]
    | cons r ps =>
      have ih : ∀ v, Matches ([anyRun].intercalate (r.bytes :: ps.map Part.bytes) ++ run isOpen) v ↔
          Divides isOpen (r :: ps) v :=
        fun v => ih (List.cons_ne_nil r ps) fun s hs => hfree s (List.mem_cons_of_mem q hs)
      rw [List.map_cons, List.map_cons, List.intercalate_cons_cons, List.append_assoc,
        List.append_assoc, matches_append_iff, divides_cons_cons_iff]
      simp only [List.cons_append, List.nil_append, matches_run_iff_append, matches_iff_agrees hq,
        ih]
      constructor
      · rintro ⟨u, -, rfl, hu, g, w, rfl, hw⟩
        exact ⟨u, g, w, rfl, hu, hw⟩
      · rintro ⟨u, g, w, rfl, hu, hw⟩
        exact ⟨u, g ++ w, rfl, hu, g, w, rfl, hw⟩

/-! ## Patterns as they are read -/

/-- What holds of every pattern that was read: its parts are not empty and have
no run in them, and without a part both ends are open or neither is. -/
structure Proper (p : Pattern) : Prop where
  /-- The parts are stretches between runs. -/
  parts : ∀ q ∈ p.parts, q.bytes ≠ [] ∧ anyRun ∉ q.bytes
  /-- A run without a part is at both ends. -/
  ends : p.parts = [] → p.startsWithRun = p.endsWithRun

/-- The segments of a text are what lies between its runs. -/
theorem segments_eq_splitOn (p : Bytes) :
    (segments p).1 :: (segments p).2 = p.splitOn anyRun := by
  induction p with
  | nil => rfl
  | cons c p ih =>
    rw [List.splitOn_cons_eq_if_modifyHead, ← ih]
    by_cases hc : c = anyRun
    · subst hc
      rw [segments_run, if_pos (beq_self_eq_true anyRun)]
    · rw [segments_byte hc, if_neg (by simpa using hc), List.modifyHead_cons]

theorem not_mem_of_mem_splitOn {s : Bytes} (hs : s ∈ p.splitOn anyRun) : anyRun ∉ s := by
  induction p generalizing s with
  | nil =>
    obtain rfl := List.mem_singleton.1 hs
    exact List.not_mem_nil
  | cons c p ih =>
    rw [← segments_eq_splitOn] at ih hs
    by_cases hc : c = anyRun
    · subst hc
      rw [segments_run, List.mem_cons] at hs
      rcases hs with rfl | hs
      · exact List.not_mem_nil
      · exact ih hs
    · rw [segments_byte hc, List.mem_cons] at hs
      rcases hs with rfl | hs
      · rw [List.mem_cons, not_or]
        exact ⟨Ne.symm hc, ih List.mem_cons_self⟩
      · exact ih (List.mem_cons_of_mem _ hs)

theorem parts_eq_nonempty_splitOn (p : Bytes) :
    (ofBytes p).parts = nonempty (p.splitOn anyRun) := by
  rw [parts_ofBytes, segments_eq_splitOn]

/-- A text starts with a run if there is nothing before the first one. -/
theorem startsWithRun_iff :
    (ofBytes p).startsWithRun = true ↔ p ≠ [] ∧ (p.splitOn anyRun).head? = some [] := by
  rw [← segments_eq_splitOn, List.head?_cons, Option.some.injEq, segments_fst_eq_nil_iff, ofBytes,
    beq_iff_eq]
  constructor
  · intro hhead
    refine ⟨?_, .inr hhead⟩
    rintro rfl
    cases hhead
  · rintro ⟨hp, hp' | hhead⟩
    · exact absurd hp' hp
    · exact hhead

/-- It ends with one if there is nothing behind the last. -/
theorem endsWithRun_iff :
    (ofBytes p).endsWithRun = true ↔ p ≠ [] ∧ (p.splitOn anyRun).getLast? = some [] := by
  rw [endsWithRun_ofBytes, beq_iff_eq, ← segments_eq_splitOn]
  cases hothers : (segments p).2 with
  | nil => simp [segments_eq_of_others_nil hothers]
  | cons s ss =>
    rw [List.getLast?_cons_cons]
    refine (and_iff_right fun hp => ?_).symm
    rw [hp] at hothers
    cases hothers

/-- **Reading gives proper patterns.** -/
theorem proper_ofBytes (p : Bytes) : (ofBytes p).Proper where
  parts q hq := by
    rw [parts_eq_nonempty_splitOn, nonempty, List.mem_map] at hq
    obtain ⟨s, hs, rfl⟩ := hq
    obtain ⟨hmem, hne⟩ := List.mem_filter.1 hs
    rw [Bool.not_eq_true', List.isEmpty_eq_false_iff] at hne
    exact ⟨hne, not_mem_of_mem_splitOn hmem⟩
  ends hparts := by
    by_cases hp : p = []
    · subst hp
      rfl
    · obtain ⟨hstart, hend⟩ := runs_of_parts_nil hp hparts
      rw [hstart, hend]

namespace Proper

variable {p : Pattern}

/-- **The canonical text of a pattern matches what divides to suit it.** -/
theorem matches_canonical_iff (h : p.Proper) :
    Matches p.canonical v ↔ ∃ d : Division, d.whole = v ∧ d.Suits p := by
  unfold canonical
  cases hparts : p.parts with
  | nil =>
    rw [List.isEmpty_nil, if_pos rfl, ← h.ends hparts, Bool.or_self, matches_end_iff]
    constructor
    · intro hv
      refine ⟨⟨v, []⟩, List.append_nil v, ?_, hv, fun hend => hv ?_⟩
      · rw [hparts]
        exact .nil
      · rw [h.ends hparts, hend]
    · rintro ⟨⟨g, others⟩, rfl, hsuits⟩ hstart
      have hpieces := hsuits.pieces
      rw [hparts] at hpieces
      obtain rfl := List.forall₂_nil_left_iff.1 hpieces
      exact (List.append_nil g).trans (hsuits.first hstart)
  | cons q ps =>
    have hfree : ∀ r ∈ q :: ps, anyRun ∉ r.bytes := fun r hr => (h.parts r (hparts ▸ hr)).2
    rw [List.isEmpty_cons, if_neg Bool.false_ne_true, List.append_assoc, matches_run_append_iff]
    simp only [matches_intercalate_iff (List.cons_ne_nil q ps) hfree]
    constructor
    · rintro ⟨g, -, rfl, hfirst, others, rfl, hpieces, hlast⟩
      refine ⟨⟨g, others⟩, rfl, by rwa [hparts], hfirst, fun hend => ?_⟩
      -- there is a piece, so the gap at the end is the one behind it
      obtain ⟨e, he⟩ : ∃ e, others.getLast? = some e := by
        cases hpieces
        exact ⟨_, List.getLast?_eq_some_getLast (List.cons_ne_nil _ _)⟩
      rw [Division.last, he]
      exact hlast hend e he
    · rintro ⟨⟨g, others⟩, rfl, hsuits⟩
      have hpieces := hsuits.pieces
      rw [hparts] at hpieces
      refine ⟨g, _, rfl, hsuits.first, others, rfl, hpieces, fun hend e he => ?_⟩
      have hlast := hsuits.last hend
      rwa [Division.last, Option.mem_def.1 he] at hlast

/-- The segments of the canonical text are the parts, and an empty one at either
end that is open. -/
theorem splitOn_canonical (h : p.Proper) (hparts : p.parts ≠ []) :
    p.canonical.splitOn anyRun =
      (if p.startsWithRun then [[]] else []) ++ p.parts.map Part.bytes ++
        (if p.endsWithRun then [[]] else []) := by
  have hinner : ([anyRun].intercalate (p.parts.map Part.bytes)).splitOn anyRun =
      p.parts.map Part.bytes := by
    refine List.splitOn_intercalate anyRun (fun s hs => ?_) (by simpa using hparts)
    obtain ⟨q, hq, rfl⟩ := List.mem_map.1 hs
    exact (h.parts q hq).2
  have hfront : ∀ (isOpen : Bool) (t : Bytes), (run isOpen ++ t).splitOn anyRun =
      (if isOpen then [[]] else []) ++ t.splitOn anyRun := by
    intro isOpen t
    cases isOpen with
    | true => exact List.splitOn_append_cons_self [] t
    | false => rfl
  have hback : ∀ (isOpen : Bool) (t : Bytes), (t ++ run isOpen).splitOn anyRun =
      t.splitOn anyRun ++ (if isOpen then [[]] else []) := by
    intro isOpen t
    cases isOpen with
    | true => exact List.splitOn_append_cons_self t []
    | false => simp [run]
  rw [canonical, if_neg (by simpa using hparts), hback, hfront, hinner]

/-- So the first and the last of them tell which ends are open. -/
theorem head?_splitOn_canonical (h : p.Proper) (hparts : p.parts ≠ []) :
    (p.canonical.splitOn anyRun).head? = some [] ↔ p.startsWithRun = true := by
  rw [h.splitOn_canonical hparts]
  cases hstart : p.startsWithRun with
  | true => simp
  | false =>
    obtain ⟨q, ps, hq⟩ := List.exists_cons_of_ne_nil hparts
    have hne := (h.parts q (hq ▸ List.mem_cons_self)).1
    simp [hq, hne]

theorem getLast?_splitOn_canonical (h : p.Proper) (hparts : p.parts ≠ []) :
    (p.canonical.splitOn anyRun).getLast? = some [] ↔ p.endsWithRun = true := by
  rw [h.splitOn_canonical hparts]
  cases hend : p.endsWithRun with
  | true => simp
  | false =>
    have hlast := List.getLast_mem hparts
    have hne := (h.parts _ hlast).1
    simp [List.getLast?_append, List.getLast?_eq_some_getLast hparts, hne]

/-- Without a part the canonical text is a run, or nothing. -/
theorem canonical_of_parts_nil (h : p.Proper) (hparts : p.parts = []) :
    p.canonical = run p.startsWithRun := by
  rw [canonical, hparts, List.isEmpty_nil, if_pos rfl, ← h.ends hparts, Bool.or_self]

theorem canonical_ne_nil (h : p.Proper) (hparts : p.parts ≠ []) : p.canonical ≠ [] := by
  intro hnil
  have hsplit := h.splitOn_canonical hparts
  rw [hnil, List.splitOn_nil] at hsplit
  obtain ⟨q, ps, hq⟩ := List.exists_cons_of_ne_nil hparts
  have hmem : q.bytes ∈ [([] : Bytes)] := by
    rw [hsplit, hq]
    simp
  exact (h.parts q (hq ▸ List.mem_cons_self)).1 (List.mem_singleton.1 hmem)

/-- **Reading the canonical text gives the parts and the ends back.** -/
theorem ofBytes_canonical (h : p.Proper) :
    (ofBytes p.canonical).parts = p.parts ∧
      (ofBytes p.canonical).startsWithRun = p.startsWithRun ∧
      (ofBytes p.canonical).endsWithRun = p.endsWithRun := by
  by_cases hparts : p.parts = []
  · rw [h.canonical_of_parts_nil hparts, hparts, ← h.ends hparts]
    cases p.startsWithRun <;> decide
  · have hne := h.canonical_ne_nil hparts
    have hkept : (p.parts.map Part.bytes).filter (!·.isEmpty) = p.parts.map Part.bytes := by
      refine List.filter_eq_self.2 fun s hs => ?_
      obtain ⟨q, hq, rfl⟩ := List.mem_map.1 hs
      simpa using (h.parts q hq).1
    have hpaired : p.parts.map (Part.mk ∘ Part.bytes) = p.parts := List.map_id p.parts
    refine ⟨?_, ?_, ?_⟩
    · rw [parts_eq_nonempty_splitOn, h.splitOn_canonical hparts, nonempty, List.filter_append,
        List.filter_append, hkept]
      cases p.startsWithRun <;> cases p.endsWithRun <;> simp [hpaired]
    · rw [Bool.eq_iff_iff, startsWithRun_iff, h.head?_splitOn_canonical hparts]
      exact and_iff_right hne
    · rw [Bool.eq_iff_iff, endsWithRun_iff, h.getLast?_splitOn_canonical hparts]
      exact and_iff_right hne

end Proper

/-- Only the empty text is read as a pattern whose canonical text is empty. -/
theorem canonical_ofBytes_eq_nil_iff : (ofBytes p).canonical = [] ↔ p = [] := by
  have hproper := proper_ofBytes p
  constructor
  · intro hnil
    by_contra hp
    by_cases hparts : (ofBytes p).parts = []
    · rw [hproper.canonical_of_parts_nil hparts, (runs_of_parts_nil hp hparts).1] at hnil
      cases hnil
    · exact hproper.canonical_ne_nil hparts hnil
  · rintro rfl
    rfl

/-- What fits a pattern depends on its parts and its open ends. -/
theorem fits_congr {p q : Pattern} (hparts : p.parts = q.parts)
    (hstart : p.startsWithRun = q.startsWithRun) (hend : p.endsWithRun = q.endsWithRun) :
    p.Fits v ↔ q.Fits v := by
  unfold Fits
  rw [hparts, hstart, hend]

/-- So do the strategy, if both are empty or neither is, and the shortest length. -/
theorem strategy_congr {p q : Pattern} (hempty : p.isEmpty = q.isEmpty)
    (hparts : p.parts = q.parts) (hstart : p.startsWithRun = q.startsWithRun)
    (hend : p.endsWithRun = q.endsWithRun) : p.strategy = q.strategy := by
  unfold strategy
  rw [hempty, hparts, hstart, hend]

/-- A pattern matches what its canonical text does. -/
theorem matches_canonical_ofBytes_iff :
    Matches (ofBytes p).canonical v ↔ Matches p v := by
  obtain ⟨hparts, hstart, hend⟩ := (proper_ofBytes p).ofBytes_canonical
  rw [matches_iff_fits, matches_iff_fits]
  exact fits_congr hparts hstart hend

/-- **The parts and the open ends of a pattern determine what it matches.** The
parts are stretches without a run. A value matches if it divides into pieces
that agree with them, with gaps at open ends only; without a part that is every
value, or the empty one for the empty text. The canonical text rebuilt from the
parts and the ends is read as the same ones, answered by the same strategy and
matches the same values; rebuilding it changes nothing. -/
theorem parts_determine_matches (p : Bytes) :
    let pattern := ofBytes p
    let reread := ofBytes pattern.canonical
    (∀ q ∈ pattern.parts, q.bytes ≠ [] ∧ anyRun ∉ q.bytes) ∧
      (∀ v, Matches p v ↔ ∃ d : Division, d.whole = v ∧ d.Suits pattern) ∧
      (pattern.parts = [] → ∀ v, Matches p v ↔ (p = [] → v = [])) ∧
      (reread.parts = pattern.parts ∧ reread.startsWithRun = pattern.startsWithRun ∧
        reread.endsWithRun = pattern.endsWithRun) ∧
      reread.strategy = pattern.strategy ∧ reread.minLength = pattern.minLength ∧
      reread.canonical = pattern.canonical ∧
      ∀ v, Matches pattern.canonical v ↔ Matches p v := by
  intro pattern reread
  have hproper : pattern.Proper := proper_ofBytes p
  obtain ⟨hparts, hstart, hend⟩ := hproper.ofBytes_canonical
  have hempty : reread.isEmpty = pattern.isEmpty := by
    rw [Bool.eq_iff_iff, Pattern.isEmpty, Pattern.isEmpty, List.isEmpty_iff, List.isEmpty_iff]
    exact canonical_ofBytes_eq_nil_iff
  have hmatches : ∀ v, Matches pattern.canonical v ↔ Matches p v :=
    fun v => matches_canonical_ofBytes_iff
  refine ⟨hproper.parts, fun v => ?_, fun hnone v => ?_, ⟨hparts, hstart, hend⟩,
    strategy_congr hempty hparts hstart hend, ?_, ?_, hmatches⟩
  · rw [← hmatches, hproper.matches_canonical_iff]
  · rw [← hmatches, hproper.canonical_of_parts_nil hnone, matches_end_iff]
    by_cases hp : p = []
    · subst hp
      exact ⟨fun hv _ => hv rfl, fun hv _ => hv rfl⟩
    · rw [show pattern.startsWithRun = true from (runs_of_parts_nil hp hnone).1]
      exact ⟨fun _ hp' => absurd hp' hp, fun _ => nofun⟩
  · rw [minLength, hparts, minLength]
  · rw [canonical, hparts, hstart, hend, canonical]

/-- A run written twice is one gap. The pattern is a run, an `a` and any byte, the
two runs, and a `b`; the value has a byte in each gap. -/
theorem matches_of_division :
    Matches [37, 97, 95, 37, 37, 98] [120, 97, 121, 122, 98] ∧
      (ofBytes [37, 97, 95, 37, 37, 98]).canonical = [37, 97, 95, 37, 98] ∧
      (ofBytes [37, 97, 95, 37, 98]).strategy = .windowed := by
  have hcanonical : (ofBytes [37, 97, 95, 37, 37, 98]).canonical = [37, 97, 95, 37, 98] := rfl
  obtain ⟨-, hdivides, -, -, hstrategy, -⟩ := parts_determine_matches [37, 97, 95, 37, 37, 98]
  rw [hcanonical] at hstrategy
  refine ⟨(hdivides _).2 ⟨⟨[120], [([97, 121], [122]), ([98], [])]⟩, rfl, ?_, nofun, fun _ => rfl⟩,
    hcanonical, hstrategy.trans (by decide)⟩
  refine .cons ?_ (.cons ?_ .nil)
  · exact Part.agrees_cons_iff.2 ⟨97, [121], rfl, .inr rfl,
      Part.agrees_cons_iff.2 ⟨121, [], rfl, .inl rfl, Part.agrees_nil_iff.2 rfl⟩⟩
  · exact Part.agrees_cons_iff.2 ⟨98, [], rfl, .inr rfl, Part.agrees_nil_iff.2 rfl⟩

end Pattern

end WildcardIndex
