import Mathlib.Data.List.Basic
import WildcardIndex.Proofs.Query.Candidates
import WildcardIndex.Proofs.Query.Stored
import WildcardIndex.Proofs.RecordSet.Traced
/-!
# Queries — no answer combines two representations

Every query is done once more with a trace of the sets it combines. The value is
that of the query, and the trace accounts for it: each set a query picks up is
stored in the tables or made in their backend, and whatever it comes to is
combined from such sets in the trace. So over tables of one backend the trace is
uniform.
-/

namespace WildcardIndex

namespace Traced

/-! ## Queries with a trace -/

/-- Narrows `found` by the sets of further literals. -/
def narrow {α : Type} (lookup : α → Option RecordSet) (found : RecordSet) :
    List α → Traced (Option RecordSet)
  | [] => pure (some found)
  | a :: rest =>
    match lookup a with
    | none => pure none
    | some s => do
      let found ← inter found s
      if found.isEmpty then pure none else narrow lookup found rest

/-- The records in the sets of all literals. -/
def meet {α : Type} (lookup : α → Option RecordSet) : List α → Traced (Option RecordSet)
  | [] => pure none
  | a :: rest =>
    match lookup a with
    | none => pure none
    | some s => narrow lookup s rest

/-- The members of a set whose value has at least `n` bytes. -/
def longEnough (t : Tables) (s : RecordSet) (n : Nat) : Traced RecordSet :=
  match t.length.atLeast? n with
  | some long => inter s long
  | none => pure s.clear

/-- What some literals met in, cut to the values of at least `n` bytes if asked
for. -/
def bounded (t : Tables) (cut : Bool) (n : Nat) : Option RecordSet → Traced RecordSet
  | none => pure t.nothing
  | some found => if cut then longEnough t found n else pure found

/-- The records with any byte at an offset. -/
def anyAt (x : PositionalIndex) (offset : Nat) : Traced RecordSet :=
  x.forward.toList.foldlM (fun found l =>
    match l.get? (positionOf offset) with
    | some s => union found s
    | none => pure found) (.empty x.backend)

/-- The records whose value has a part at an offset. -/
def partAt (t : Tables) (p : Part) (offset : Nat) : Traced RecordSet :=
  if p.isEmpty then pure (t.length.atLeast offset)
  else if p.allWild then anyAt t.positional (offset + p.length - 1)
  else do
    let met ← meet (fun (i, b) => t.positional.forward? b (offset + i)) p.literals
    bounded t p.wildTail (offset + p.length) met

/-- The records whose value ends with a part. -/
def partAtEnd (t : Tables) (p : Part) : Traced RecordSet :=
  if p.allWild then pure (t.length.atLeast p.length)
  else do
    let met ← meet (fun (i, b) => (Tables.fromEnd? (p.length - i)).bind (t.positional.backward? b))
      p.literals
    bounded t p.wildHead p.length met

/-- The records whose value is a part. -/
def exactly (t : Tables) (p : Part) : Traced RecordSet :=
  match t.length.exactly? p.length with
  | none => pure t.nothing
  | some long => do inter (← partAt t p 0) long

/-- The records whose value has a part anywhere. -/
def anywhere (t : Tables) (p : Part) : Traced RecordSet :=
  let longest := t.length.maxLength
  if longest < p.length then pure t.nothing
  else if p.allWild then pure (t.length.atLeast p.length)
  else
    (List.range (longest - p.length + 1)).foldlM
      (fun found offset => do union found (← partAt t p offset)) t.nothing

/-- The placements that put one more part. -/
def openings (t : Tables) (p : Part) (rest : List Part) (anchored : Bool) (next : Nat)
    (s : RecordSet) : Traced (List Placement) :=
  filterMap (fun offset => do
    let placed ← inter (← partAt t p offset) s
    pure (if placed.isEmpty then none
      else some { parts := rest, anchored := false, next := offset + p.length, records := placed }))
    (t.offsets p rest anchored next)

/-- The records that end with the last part, behind the parts already placed. -/
def closing (t : Tables) (p : Part) (next : Nat) (s : RecordSet) : Traced RecordSet := do
  longEnough t (← inter (← partAtEnd t p) s) (next + p.length)

/-! ## Their values -/

variable {t : Tables} {p : Part} {s : RecordSet} {n next : Nat} {rest : List Part}

@[simp] theorem value_narrow {α : Type} (lookup : α → Option RecordSet) (found : RecordSet)
    (as : List α) : (narrow lookup found as).value = Tables.narrow lookup found as := by
  induction as generalizing found with
  | nil => rfl
  | cons a as ih =>
    rw [narrow, Tables.narrow]
    cases lookup a with
    | none => rfl
    | some s => rw [value_bind, value_ite, value_pure, ih, value_inter]

@[simp] theorem value_meet {α : Type} (lookup : α → Option RecordSet) (as : List α) :
    (meet lookup as).value = Tables.meet lookup as := by
  cases as with
  | nil => rfl
  | cons a as =>
    rw [meet, Tables.meet]
    cases lookup a with
    | none => rfl
    | some s => exact value_narrow lookup s as

@[simp] theorem value_longEnough : (longEnough t s n).value = t.longEnough s n := by
  unfold longEnough Tables.longEnough
  cases t.length.atLeast? n <;> rfl

theorem value_bounded (cut : Bool) (o : Option RecordSet) :
    (bounded t cut n o).value = match o with
      | none => t.nothing
      | some found => if cut then t.longEnough found n else found := by
  cases o with
  | none => rfl
  | some found => simp only [bounded, value_ite, value_longEnough, value_pure]

@[simp] theorem value_anyAt (x : PositionalIndex) (offset : Nat) :
    (anyAt x offset).value = x.anyAt offset := by
  rw [anyAt, value_foldlM, PositionalIndex.anyAt]
  congr
  funext found l
  cases l.get? (positionOf offset) <;> rfl

@[simp] theorem value_partAt (offset : Nat) : (partAt t p offset).value = t.partAt p offset := by
  unfold partAt Tables.partAt
  by_cases hempty : p.isEmpty = true
  · rw [if_pos hempty, if_pos hempty, value_pure]
  by_cases hwild : p.allWild = true
  · rw [if_neg hempty, if_neg hempty, if_pos hwild, if_pos hwild, value_anyAt]
  rw [if_neg hempty, if_neg hempty, if_neg hwild, if_neg hwild, value_bind, value_meet]
  exact value_bounded _ _

@[simp] theorem value_partAtEnd : (partAtEnd t p).value = t.partAtEnd p := by
  unfold partAtEnd Tables.partAtEnd
  by_cases hwild : p.allWild = true
  · rw [if_pos hwild, if_pos hwild, value_pure]
  rw [if_neg hwild, if_neg hwild, value_bind, value_meet]
  exact value_bounded _ _

@[simp] theorem value_exactly : (exactly t p).value = t.exactly p := by
  unfold exactly Tables.exactly
  cases t.length.exactly? p.length with
  | none => rfl
  | some long => rw [value_bind, value_inter, value_partAt]

@[simp] theorem value_anywhere : (anywhere t p).value = t.anywhere p := by
  simp only [anywhere, Tables.anywhere, value_ite, value_pure, value_foldlM, value_bind,
    value_union, value_partAt]

@[simp] theorem value_openings (anchored : Bool) :
    (openings t p rest anchored next s).value = t.openings p rest anchored next s := by
  simp only [openings, Tables.openings, value_filterMap, value_bind, value_inter, value_partAt,
    value_pure]
  rfl

@[simp] theorem value_closing : (closing t p next s).value = t.closing p next s := by
  simp only [closing, Tables.closing, value_bind, value_inter, value_partAtEnd, value_longEnough]

/-! ## The search -/

/-- Continues the waiting placements until none is left. -/
def search (t : Tables) (openEnd : Bool) (waiting : List Placement) (found : RecordSet) :
    Traced RecordSet :=
  match waiting with
  | [] => pure found
  | ⟨[], _, _, s⟩ :: waiting => do
    search t openEnd waiting (← union found s)
  | ⟨p :: rest, anchored, next, s⟩ :: waiting =>
    if rest.isEmpty && !openEnd then do
      let closed ← closing t p next s
      search t openEnd waiting (← union found closed)
    else
      -- the openings are taken as a value, so that the stack is seen to get lighter
      let opened := openings t p rest anchored next s
      let final := search t openEnd (opened.value.reverse ++ waiting) found
      ⟨final.value, opened.pairs ++ final.pairs⟩
termination_by total t.weight waiting
decreasing_by
  · rw [total_cons]
    exact Nat.lt_add_of_pos_left (Tables.work_pos _ _)
  · rw [total_cons]
    exact Nat.lt_add_of_pos_left (Tables.work_pos _ _)
  · have := t.weight_openings_lt p rest anchored anchored next s
    simp only [value_openings, total_append, total_reverse, total_cons]
    omega

@[simp] theorem value_search (openEnd : Bool) (waiting : List Placement) (found : RecordSet) :
    (search t openEnd waiting found).value = t.search openEnd waiting found := by
  fun_induction Tables.search t openEnd waiting found with
  | case1 found => rw [search, value_pure]
  | case2 found anchored next s waiting ih => rw [search, value_bind, value_union, ih]
  | case3 found p rest anchored next s waiting hlast ih =>
    rw [search, if_pos hlast, value_bind, value_bind, value_closing, value_union, ih]
  | case4 found p rest anchored next s waiting hmore ih =>
    rw [search, if_neg hmore]
    simp only [value_openings, ih]

/-! ## The answer -/

/-- The records that have the parts of a pattern one after the other. -/
def placed (t : Tables) (p : Pattern) : Traced RecordSet :=
  let long := t.length.atLeast p.minLength
  if long.isEmpty then pure t.nothing
  else
    search t p.endsWithRun
      [{ parts := p.parts, anchored := !p.startsWithRun, next := 0, records := long }] t.nothing

/-- The answer of the strategy for one part, to the part of a pattern. -/
def onPart (t : Tables) (p : Pattern) (f : Part → Traced RecordSet) : Traced RecordSet :=
  match p.parts with
  | part :: _ => f part
  | [] => pure t.nothing

/-- The records whose value matches a pattern, deleted ones included. -/
def candidates (t : Tables) (p : Pattern) : Traced RecordSet :=
  match p.strategy with
  | .emptyString => pure ((t.length.exactly? 0).getD t.nothing)
  | .matchAll => pure t.length.all
  | .exact => onPart t p (exactly t)
  | .startingWith => onPart t p fun part => do longEnough t (← partAt t part 0) part.length
  | .endingWith => onPart t p fun part => do longEnough t (← partAtEnd t part) part.length
  | .substring => onPart t p (anywhere t)
  | .windowed => placed t p

/-- The records whose value matches a pattern and that are not tombstoned. -/
def answer (t : Tables) (tombstones : RecordSet) (p : Pattern) : Traced RecordSet :=
  if tombstones.isEmpty then candidates t p else do diff (← candidates t p) tombstones

theorem value_onPart (p : Pattern) (f : Part → Traced RecordSet) :
    (onPart t p f).value = t.onPart p fun part => (f part).value := by
  unfold onPart Tables.onPart
  cases p.parts <;> rfl

@[simp] theorem value_candidates (p : Pattern) : (candidates t p).value = t.candidates p := by
  unfold candidates Tables.candidates
  cases p.strategy with
  | emptyString => rfl
  | matchAll => rfl
  | exact => simp only [value_onPart, value_exactly]
  | startingWith => simp only [value_onPart, value_bind, value_partAt, value_longEnough]
  | endingWith => simp only [value_onPart, value_bind, value_partAtEnd, value_longEnough]
  | substring => simp only [value_onPart, value_anywhere]
  | windowed => simp only [placed, Tables.placed, value_ite, value_pure, value_search]

@[simp] theorem value_answer (tombstones : RecordSet) (p : Pattern) :
    (answer t tombstones p).value = t.answer tombstones p := by
  simp only [answer, Tables.answer, value_ite, value_bind, value_candidates, value_diff]

end Traced

/-! ## Their traces -/

namespace Tables

open Traced

variable {b : Backend} {t : Tables} {given given' : Set RecordSet} {s : RecordSet} {n : Nat}

/-- Among the given sets are those of the tables. -/
structure Gives (b : Backend) (given : Set RecordSet) (t : Tables) : Prop where
  /-- The tables are of the backend. -/
  valid : t.Valid b
  /-- Their sets are given. -/
  stored : ∀ s ∈ t.sets, s ∈ given

theorem Gives.mono (h : t.Gives b given) (hsub : given ⊆ given') : t.Gives b given' :=
  ⟨h.valid, fun s hs => hsub (h.stored s hs)⟩

theorem Gives.more (h : t.Gives b given) : t.Gives b (given ∪ given') :=
  h.mono Set.subset_union_left

theorem Gives.made_at? (h : t.Gives b given) {k : PositionalIndex.Place}
    (hs : t.positional.at? k = some s) : Made b given [] s :=
  .given (h.stored s (h.valid.mem_sets_of_at? hs))

theorem Gives.made_exactly? (h : t.Gives b given) (hs : t.length.exactly? n = some s) :
    Made b given [] s :=
  .given (h.stored s (mem_sets_of_exactly? hs))

theorem Gives.made_atLeast? (h : t.Gives b given) (hs : t.length.atLeast? n = some s) :
    Made b given [] s :=
  .given (h.stored s (mem_sets_of_atLeast? hs))

theorem Gives.made_nothing (h : t.Gives b given) : Made b given [] t.nothing := by
  rw [nothing, h.valid.positional.backend]
  exact .empty

theorem Gives.made_atLeast (h : t.Gives b given) (n : Nat) :
    Made b given [] (t.length.atLeast n) := by
  rw [LengthIndex.atLeast]
  cases hn : t.length.atLeast? n with
  | some s => exact h.made_atLeast? hn
  | none =>
    rw [h.valid.length.backend]
    exact .empty

/-! ### One part -/

section Meeting

variable {α : Type} {lookup : α → Option RecordSet}

theorem accounted_narrow (hl : ∀ a u, lookup a = some u → Made b given [] u) (as : List α)
    (hs : Made b given [] s) :
    (Traced.narrow lookup s as).Accounted b given fun o => {u | o = some u} := by
  induction as generalizing s given with
  | nil =>
    refine accounted_pure fun u hu => ?_
    rw [← Option.some.inj hu]
    exact hs
  | cons a as ih =>
    rw [Traced.narrow]
    cases ha : lookup a with
    | none => exact accounted_pure fun u hu => nomatch hu
    | some u =>
      refine (accounted_inter hs (hl a u ha)).bind ?_
      split
      · exact accounted_pure fun u hu => nomatch hu
      · exact ih (fun a u hu => (hl a u hu).more) (.given (.inr rfl))

theorem accounted_meet (hl : ∀ a u, lookup a = some u → Made b given [] u) (as : List α) :
    (Traced.meet lookup as).Accounted b given fun o => {u | o = some u} := by
  cases as with
  | nil => exact accounted_pure fun u hu => nomatch hu
  | cons a as =>
    rw [Traced.meet]
    cases ha : lookup a with
    | none => exact accounted_pure fun u hu => nomatch hu
    | some u => exact accounted_narrow hl as (hl a u ha)

end Meeting

theorem Gives.accounted_longEnough (h : t.Gives b given) (hs : Made b given [] s) (n : Nat) :
    (Traced.longEnough t s n).Accounted b given ({·}) := by
  unfold Traced.longEnough
  split
  · rename_i long hlong
    exact accounted_inter hs (h.made_atLeast? hlong)
  · exact accounted_pure_self (.clear hs)

theorem Gives.accounted_bounded (h : t.Gives b given) {o : Option RecordSet}
    (ho : ∀ u, o = some u → Made b given [] u) (cut : Bool) (n : Nat) :
    (Traced.bounded t cut n o).Accounted b given ({·}) := by
  cases o with
  | none => exact accounted_pure_self h.made_nothing
  | some found =>
    rw [Traced.bounded]
    split
    · exact h.accounted_longEnough (ho found rfl) n
    · exact accounted_pure_self (ho found rfl)

theorem Gives.accounted_anyAt (h : t.Gives b given) (i : Nat) :
    (Traced.anyAt t.positional i).Accounted b given ({·}) := by
  have hempty : Made b given [] (.empty t.positional.backend) := h.made_nothing
  refine accounted_foldlM (fun u hu => Set.mem_singleton_iff.1 hu ▸ hempty) ?_
  intro given' hsub found l hl hfound
  rw [ByteTable.toList_eq, List.mem_map] at hl
  obtain ⟨c, -, rfl⟩ := hl
  have hfound' := hfound found rfl
  split
  · rename_i u hu
    exact accounted_union hfound' ((h.mono hsub).made_at? (k := .fromStart c (positionOf i)) hu)
  · exact accounted_pure hfound

theorem Gives.accounted_partAt (h : t.Gives b given) (p : Part) (i : Nat) :
    (Traced.partAt t p i).Accounted b given ({·}) := by
  unfold Traced.partAt
  split
  · exact accounted_pure_self (h.made_atLeast i)
  split
  · exact h.accounted_anyAt _
  · refine (accounted_meet (fun (j, c) u hu => ?_) _).bind
      (h.more.accounted_bounded (fun u hu => .given (.inr hu)) _ _)
    exact h.made_at? (k := .fromStart c (positionOf (i + j))) hu

theorem Gives.accounted_partAtEnd (h : t.Gives b given) (p : Part) :
    (Traced.partAtEnd t p).Accounted b given ({·}) := by
  unfold Traced.partAtEnd
  split
  · exact accounted_pure_self (h.made_atLeast _)
  · refine (accounted_meet (fun (j, c) u hu => ?_) _).bind
      (h.more.accounted_bounded (fun u hu => .given (.inr hu)) _ _)
    obtain ⟨q, -, hq⟩ := Option.bind_eq_some_iff.1 hu
    exact h.made_at? (k := .fromEnd c q) hq

theorem Gives.accounted_exactly (h : t.Gives b given) (p : Part) :
    (Traced.exactly t p).Accounted b given ({·}) := by
  unfold Traced.exactly
  split
  · exact accounted_pure_self h.made_nothing
  · rename_i long hlong
    exact (h.accounted_partAt p 0).bind (accounted_inter made_last
      (h.more.made_exactly? hlong))

theorem Gives.accounted_anywhere (h : t.Gives b given) (p : Part) :
    (Traced.anywhere t p).Accounted b given ({·}) := by
  unfold Traced.anywhere
  simp only
  split
  · exact accounted_pure_self h.made_nothing
  split
  · exact accounted_pure_self (h.made_atLeast _)
  refine accounted_foldlM (fun u hu => Set.mem_singleton_iff.1 hu ▸ h.made_nothing) ?_
  intro given' hsub found i _ hfound
  exact ((h.mono hsub).accounted_partAt p i).bind (accounted_union
    (hfound found rfl).more made_last)

/-! ### Several parts -/

theorem Gives.accounted_openings (h : t.Gives b given) (hs : Made b given [] s) (p : Part)
    (rest : List Part) (anchored : Bool) (next : Nat) :
    (Traced.openings t p rest anchored next s).Accounted b given
      fun pls => {u | ∃ pl ∈ pls, u ∈ ({pl.records} : Set RecordSet)} := by
  refine accounted_filterMap fun given' hsub i _ => ?_
  have hs' : Made b given' [] s := hs.mono (List.nil_subset _) hsub
  refine ((h.mono hsub).accounted_partAt p i).bind
    ((accounted_inter made_last hs'.more).bind (accounted_pure ?_))
  rintro u ⟨pl, hpl, hu⟩
  split at hpl
  · cases hpl
  · obtain rfl := Option.some.inj hpl
    exact .given (.inr hu)

theorem Gives.accounted_closing (h : t.Gives b given) (hs : Made b given [] s) (p : Part)
    (next : Nat) : (Traced.closing t p next s).Accounted b given ({·}) := by
  refine (h.accounted_partAtEnd p).bind ((accounted_inter made_last hs.more).bind ?_)
  exact h.more.more.accounted_longEnough made_last _

/-- **The search is accounted for**: what it carries along comes of combinations
in the trace, and so does what it looks up. -/
theorem Gives.accounted_search (h : t.Gives b given) (openEnd : Bool) (waiting : List Placement)
    (found : RecordSet) (hw : ∀ pl ∈ waiting, Made b given [] pl.records)
    (hf : Made b given [] found) :
    (Traced.search t openEnd waiting found).Accounted b given ({·}) := by
  fun_induction Tables.search t openEnd waiting found generalizing given with
  | case1 found =>
    rw [Traced.search]
    exact accounted_pure_self hf
  | case2 found anchored next s waiting ih =>
    have hs := hw _ List.mem_cons_self
    rw [Traced.search]
    refine (accounted_union hf hs).bind (ih h.more (fun pl hpl => ?_) made_last)
    exact (hw pl (List.mem_cons_of_mem _ hpl)).more
  | case3 found p rest anchored next s waiting hlast ih =>
    have hclosing := h.accounted_closing (hw _ List.mem_cons_self) p next
    rw [Traced.search, if_pos hlast]
    refine hclosing.bind ((accounted_union hf.more made_last).bind ?_)
    rw [value_union, value_closing]
    exact ih h.more.more (fun pl hpl => (hw pl (List.mem_cons_of_mem _ hpl)).more.more) made_last
  | case4 found p rest anchored next s waiting hmore ih =>
    have hopenings := h.accounted_openings (hw _ List.mem_cons_self) p rest anchored next
    rw [Traced.search, if_neg hmore]
    refine hopenings.bind
      (f := fun pls => Traced.search t openEnd (pls.reverse ++ waiting) found) ?_
    rw [value_openings]
    refine ih h.more (fun pl hpl => ?_) hf.more
    rcases List.mem_append.1 hpl with hpl | hpl
    · exact .given (.inr ⟨pl, List.mem_reverse.1 hpl, rfl⟩)
    · exact (hw pl (List.mem_cons_of_mem _ hpl)).more

/-! ### Patterns -/

theorem Gives.accounted_candidates (h : t.Gives b given) (p : Pattern) :
    (Traced.candidates t p).Accounted b given ({·}) := by
  have hnothing : (pure t.nothing : Traced RecordSet).Accounted b given ({·}) :=
    accounted_pure_self h.made_nothing
  have honPart : ∀ f : Part → Traced RecordSet, (∀ q, (f q).Accounted b given ({·})) →
      (Traced.onPart t p f).Accounted b given ({·}) := by
    intro f hf
    unfold Traced.onPart
    split
    · exact hf _
    · exact hnothing
  unfold Traced.candidates
  split
  · refine accounted_pure fun u hu => ?_
    rw [Set.mem_singleton_iff.1 hu]
    cases hn : t.length.exactly? 0 with
    | none => exact h.made_nothing
    | some s => exact h.made_exactly? hn
  · exact accounted_pure_self (h.made_atLeast 0)
  · exact honPart _ h.accounted_exactly
  · exact honPart _ fun q => (h.accounted_partAt q 0).bind
      (h.more.accounted_longEnough made_last _)
  · exact honPart _ fun q => (h.accounted_partAtEnd q).bind
      (h.more.accounted_longEnough made_last _)
  · exact honPart _ h.accounted_anywhere
  · unfold Traced.placed
    simp only
    split
    · exact hnothing
    · refine h.accounted_search _ _ _ (fun pl hpl => ?_) h.made_nothing
      rw [List.mem_singleton.1 hpl]
      exact h.made_atLeast _

/-- **The trace of an answer leaves nothing out**: the answer comes of the sets
of the tables and of the tombstones by the combinations it has. -/
theorem Gives.accounted_answer (h : t.Gives b given) {tombstones : RecordSet}
    (ht : tombstones ∈ given) (p : Pattern) :
    (Traced.answer t tombstones p).Accounted b given ({·}) := by
  unfold Traced.answer
  split
  · exact h.accounted_candidates p
  · exact (h.accounted_candidates p).bind (accounted_diff made_last (.given (.inl ht)))

theorem Gives.made_present (h : t.Gives b given) (c : UInt8) :
    Made b given [] ((t.positional.presence? c).getD (.empty t.positional.backend)) := by
  cases hc : t.positional.presence? c with
  | none => exact h.made_nothing
  | some s => exact h.made_at? (k := .anywhere c) hc

end Tables

end WildcardIndex
