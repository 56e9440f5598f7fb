import Mathlib.Data.List.Basic
import WildcardIndex.Proofs.Checked.Query
import WildcardIndex.Proofs.Query.Bounds
import WildcardIndex.Query.Candidates
/-!
# Checked — placing the parts of a pattern

Here the parts of a pattern are told by their index, and what the parts behind
an index take up is read off a table that is filled from the last part to the
first. A placement on the stack with an index stands for one with the parts from
that index on, and **turn by turn** the search with indexes does what the search
does: it takes a part that is there, reads the table one further, and tries
offsets that leave the longest value room for the parts behind.
-/

namespace WildcardIndex

namespace Checked

variable {t : Tables} {p : Pattern} {ps : List Part} {suffix : Array Nat}

/-! ## What parts leave to each other -/

/-- Puts down what the parts from one part on take up, given what those behind
it do. -/
def tell (suffix : Array Nat) : Part × Nat → Checked (Array Nat)
  | (part, i) => do
    let behind ← cell suffix (i + 1)
    modified (fun _ => behind + part.length) i suffix

/-- For every index what the parts from it on take up, from the last one to the
first. -/
def suffixLengths (ps : List Part) : Checked (Array Nat) :=
  ps.zipIdx.reverse.foldlM tell (.replicate (ps.length + 1) 0)

theorem isOk_tell_iff {part : Part} {i : Nat} :
    (tell suffix (part, i)).isOk ↔ i + 1 < suffix.size := by
  refine ⟨fun h => ?_, fun h => ?_⟩
  · obtain ⟨_, hcell, -⟩ := isOk_bind_iff.1 h
    exact isOk_cell_iff.1 (isOk_of_eq_ok hcell)
  · rw [tell, cell_eq_ok (Array.getElem?_eq_getElem h), ok_bind, modified_eq_ok (by omega)]
    rfl

/-- A table has what the parts from an index on take up, from some index on. -/
def TellsFrom (n : Nat) (ps : List Part) (suffix : Array Nat) : Prop :=
  suffix.size = ps.length + 1 ∧
    ∀ i, n ≤ i → i ≤ ps.length → suffix[i]? = some (Tables.totalLength (ps.drop i))

/-- Each part is told once those behind it are. -/
theorem TellsFrom.tell {n : Nat} (h : TellsFrom (n + 1) ps suffix) {part : Part}
    (hpart : ps[n]? = some part) :
    ∃ suffix', Checked.tell suffix (part, n) = .ok suffix' ∧ TellsFrom n ps suffix' := by
  obtain ⟨hlt, rfl⟩ := List.getElem?_eq_some_iff.1 hpart
  obtain ⟨hsize, htells⟩ := h
  have hbehind := htells (n + 1) (Nat.le_refl _) hlt
  refine ⟨suffix.modify n fun _ => Tables.totalLength (ps.drop (n + 1)) + ps[n].length, ?_, ?_, ?_⟩
  · rw [Checked.tell, cell_eq_ok hbehind, ok_bind, modified_eq_ok (by omega)]
  · rw [Array.size_modify, hsize]
  · intro i hi hle
    rw [Array.getElem?_modify]
    by_cases hn : n = i
    · subst hn
      rw [if_pos rfl, Array.getElem?_eq_getElem (by omega), Option.map_some,
        List.drop_eq_getElem_cons hlt, Tables.totalLength, Tables.totalLength, total_cons,
        Nat.add_comm]
    · rw [if_neg hn, htells i (by omega) hle]

/-- The last parts fill the table as far as they go. -/
theorem tellsFrom_foldlM (before after : List Part) :
    ∃ suffix, (after.zipIdx before.length).reverse.foldlM tell
        (.replicate ((before ++ after).length + 1) 0) = .ok suffix ∧
      TellsFrom before.length (before ++ after) suffix := by
  induction after generalizing before with
  | nil =>
    refine ⟨_, rfl, Array.size_replicate, fun i hi hle => ?_⟩
    rw [List.append_nil] at hle ⊢
    obtain rfl := Nat.le_antisymm hle hi
    rw [List.drop_length, Array.getElem?_eq_getElem (by simp), Array.getElem_replicate]
    rfl
  | cons part after ih =>
    obtain ⟨suffix, hfold, htells⟩ := ih (before ++ [part])
    have hlength : (before ++ [part]).length = before.length + 1 := by
      rw [List.length_append, List.length_singleton]
    rw [← List.append_cons, hlength] at hfold htells
    obtain ⟨suffix', htell, htells'⟩ :=
      htells.tell (show (before ++ part :: after)[before.length]? = some part by simp)
    refine ⟨suffix', ?_, htells'⟩
    rw [List.zipIdx_cons, List.reverse_cons, List.foldlM_append, hfold, ok_bind, List.foldlM_cons,
      htell, ok_bind]
    rfl

/-- **The table is filled without a slip.** -/
theorem suffixLengths_spec (ps : List Part) :
    ∃ suffix, suffixLengths ps = .ok suffix ∧ TellsFrom 0 ps suffix :=
  tellsFrom_foldlM [] ps

/-! ## One turn -/

/-- A placement of the parts before an index. -/
structure Stage where
  /-- The index of the next part. -/
  index : Nat
  /-- The first offset that is free. -/
  next : Nat
  /-- The records that have the placed parts where they were placed. -/
  records : RecordSet

/-- The placement with the parts from the index on. -/
def Stage.placement (p : Pattern) (s : Stage) : Placement where
  parts := p.parts.drop s.index
  anchored := s.index == 0 && !p.startsWithRun
  next := s.next
  records := s.records

/-- The placement with one more part put at an offset, if any record has it
there. -/
def Stage.put (s : Stage) (part : Part) (offset : Nat) (placed : RecordSet) : Option Stage :=
  if placed.isEmpty then none else some ⟨s.index + 1, offset + part.length, placed⟩

/-- The offsets to try for a part, behind which the others take up `behind`. -/
def offsets (t : Tables) (p : Pattern) (part : Part) (behind : Nat) (s : Stage) : List Nat :=
  let needed := part.length + behind
  if t.length.maxLength < needed then []
  else
    let last := if s.index == 0 && !p.startsWithRun then 0 else t.length.maxLength - needed
    List.range' s.next (last + 1 - s.next)

/-- The placements that put one more part. -/
def openings (t : Tables) (p : Pattern) (suffix : Array Nat) (part : Part) (s : Stage) :
    Checked (List Stage) := do
  let behind ← cell suffix (s.index + 1)
  filterMap (fun offset => do
    pure (s.put part offset ((← partAt t part offset).inter s.records))) (offsets t p part behind s)

/-- The table has to tell what is behind the part. -/
theorem lt_size_of_isOk_openings {part : Part} {s : Stage} (h : (openings t p suffix part s).isOk) :
    s.index + 1 < suffix.size := by
  obtain ⟨_, hcell, -⟩ := isOk_bind_iff.1 h
  exact isOk_cell_iff.1 (isOk_of_eq_ok hcell)

/-- One turn of the search: it takes the last placement off the stack. -/
def turn (t : Tables) (p : Pattern) (suffix : Array Nat) :
    List Stage × RecordSet → Checked (List Stage × RecordSet)
  | ([], found) => pure ([], found)
  | (s :: waiting, found) =>
    if p.parts.length ≤ s.index then pure (waiting, found.union s.records)
    else do
      let part ← cell p.parts.toArray s.index
      if s.index + 1 = p.parts.length ∧ ¬ p.endsWithRun then do
        let last := (← partAtEnd t part).inter s.records
        pure (waiting, found.union (t.longEnough last (s.next + part.length)))
      else do
        let opened ← openings t p suffix part s
        pure (opened.reverse ++ waiting, found)

/-- Where a part is left, the index is that of a part. -/
theorem lt_length_of_drop {n : Nat} {part : Part} {rest : List Part}
    (h : ps.drop n = part :: rest) : n < ps.length := by
  by_contra hge
  rw [List.drop_eq_nil_iff.2 (Nat.not_lt.1 hge)] at h
  cases h

theorem openings_eq_ok (h : t.length.slots ≤ Tables.positionLimit) (hsuffix : TellsFrom 0 p.parts suffix)
    {s : Stage} {part : Part} {rest : List Part} (hparts : p.parts.drop s.index = part :: rest) :
    ∃ opened, openings t p suffix part s = .ok opened ∧
      opened.map (Stage.placement p) =
        t.openings part rest (s.index == 0 && !p.startsWithRun) s.next s.records := by
  have hlt := lt_length_of_drop hparts
  have hrest : p.parts.drop (s.index + 1) = rest := by
    rw [← List.tail_drop, hparts, List.tail_cons]
  have hbehind := hsuffix.2 (s.index + 1) (Nat.zero_le _) hlt
  rw [hrest] at hbehind
  have hoffsets : offsets t p part (Tables.totalLength rest) s =
      t.offsets part rest (s.index == 0 && !p.startsWithRun) s.next := rfl
  refine ⟨(t.offsets part rest (s.index == 0 && !p.startsWithRun) s.next).filterMap fun offset =>
    s.put part offset ((t.partAt part offset).inter s.records), ?_, ?_⟩
  · rw [openings, cell_eq_ok hbehind, ok_bind, hoffsets]
    refine filterMap_eq_ok fun offset hoffset => ?_
    obtain ⟨hroom, -, hlast⟩ := Tables.mem_offsets.1 hoffset
    have hends : offset + part.length ≤ Tables.positionLimit := by
      rw [LengthIndex.maxLength] at hroom hlast
      split at hlast <;> omega
    rw [partAt_eq_ok hends, ok_bind]
    rfl
  · rw [List.map_filterMap]
    refine List.filterMap_congr fun offset _ => ?_
    simp only [Stage.put]
    split
    · rfl
    · rw [Option.map_some, Stage.placement, hrest]
      rfl

/-- **A turn with indexes is a turn of the search.** -/
theorem turn_eq_ok (h : t.length.slots ≤ Tables.positionLimit) (hsuffix : TellsFrom 0 p.parts suffix)
    (waiting : List Stage) (found : RecordSet) :
    ∃ waiting' found', turn t p suffix (waiting, found) = .ok (waiting', found') ∧
      t.turn p.endsWithRun (waiting.map (Stage.placement p), found) =
        (waiting'.map (Stage.placement p), found') := by
  cases waiting with
  | nil => exact ⟨[], found, rfl, rfl⟩
  | cons s waiting =>
    rw [List.map_cons, turn]
    cases hparts : p.parts.drop s.index with
    | nil =>
      refine ⟨waiting, found.union s.records, if_pos (List.drop_eq_nil_iff.1 hparts), ?_⟩
      rw [Stage.placement, hparts, Tables.turn]
    | cons part rest =>
      have hlt := Nat.not_le.2 (lt_length_of_drop hparts)
      have hpart : p.parts.toArray[s.index]? = some part := by
        rw [List.getElem?_toArray, ← List.head?_drop, hparts, List.head?_cons]
      have hlast : rest = [] ↔ s.index + 1 = p.parts.length := by
        have hlength := congrArg List.length hparts
        rw [List.length_drop, List.length_cons] at hlength
        rw [← List.length_eq_zero_iff]
        omega
      rw [if_neg hlt, cell_eq_ok hpart, ok_bind, Stage.placement, hparts, Tables.turn]
      by_cases hclosing : rest = [] ∧ p.endsWithRun = false
      · refine ⟨waiting, found.union (t.closing part s.next s.records), ?_, ?_⟩
        · rw [if_pos (by simpa [hlast] using hclosing), partAtEnd_eq_ok, ok_bind]
          rfl
        · rw [if_pos (by simpa using hclosing)]
      · obtain ⟨opened, hopened, hplacements⟩ := openings_eq_ok h hsuffix hparts
        refine ⟨opened.reverse ++ waiting, found, ?_, ?_⟩
        · rw [if_neg (by simpa [hlast] using hclosing), hopened, ok_bind]
          rfl
        · rw [if_neg (by simpa using hclosing), ← hplacements, List.map_append, List.map_reverse]

/-! ## All turns -/

/-- So many turns of the search. -/
def turns (t : Tables) (p : Pattern) (suffix : Array Nat) :
    Nat → List Stage × RecordSet → Checked (List Stage × RecordSet)
  | 0, x => pure x
  | n + 1, x => do turns t p suffix n (← turn t p suffix x)

/-- The records that have the parts of a pattern one after the other, with as
many turns as there is work. -/
def placed (t : Tables) (p : Pattern) : Checked RecordSet :=
  let long := t.length.atLeast p.minLength
  if long.isEmpty then pure t.nothing
  else do
    let start : Stage := ⟨0, 0, long⟩
    let suffix ← suffixLengths p.parts
    match ← turns t p suffix (t.weight (start.placement p)) ([start], t.nothing) with
    | ([], found) => pure found
    | (_ :: _, _) => .error .unfinished

theorem turns_eq_ok (h : t.length.slots ≤ Tables.positionLimit) (hsuffix : TellsFrom 0 p.parts suffix)
    (n : Nat) (waiting : List Stage) (found : RecordSet) :
    ∃ waiting' found', turns t p suffix n (waiting, found) = .ok (waiting', found') ∧
      (t.turn p.endsWithRun)^[n] (waiting.map (Stage.placement p), found) =
        (waiting'.map (Stage.placement p), found') := by
  induction n generalizing waiting found with
  | zero => exact ⟨waiting, found, rfl, rfl⟩
  | succ n ih =>
    obtain ⟨waiting', found', hturn, hplain⟩ := turn_eq_ok h hsuffix waiting found
    rw [turns, hturn, ok_bind, Function.iterate_succ_apply, hplain]
    exact ih waiting' found'

/-- **The search does not slip, and comes to an end.** -/
theorem placed_eq_ok (h : t.length.slots ≤ Tables.positionLimit) (p : Pattern) :
    placed t p = .ok (t.placed p) := by
  unfold placed Tables.placed
  simp only
  split
  · rfl
  · obtain ⟨suffix, hfilled, hsuffix⟩ := suffixLengths_spec p.parts
    rw [hfilled, ok_bind]
    generalize hstart : (⟨0, 0, t.length.atLeast p.minLength⟩ : Stage) = start
    have hplacement : start.placement p =
        ⟨p.parts, !p.startsWithRun, 0, t.length.atLeast p.minLength⟩ := by
      rw [← hstart]
      rfl
    obtain ⟨waiting, found, hturns, hplain⟩ :=
      turns_eq_ok h hsuffix (t.weight (start.placement p)) [start] t.nothing
    rw [List.map_singleton, Tables.iterate_turn t _ _ _ (by simp), Prod.mk.injEq] at hplain
    obtain ⟨hnone, rfl⟩ := hplain
    rw [hturns, ok_bind, List.map_eq_nil_iff.1 hnone.symm, hplacement]
    rfl

/-! ## Patterns -/

/-- The answer of the strategy for one part, to the first part of a pattern. -/
def onPart (p : Pattern) (f : Part → Checked RecordSet) : Checked RecordSet := do
  f (← cell p.parts.toArray 0)

/-- The records whose value matches a pattern, deleted ones included. -/
def candidates (t : Tables) (p : Pattern) : Checked RecordSet :=
  match p.strategy with
  | .emptyString => pure ((t.length.exactly? 0).getD t.nothing)
  | .matchAll => pure t.length.all
  | .exact => onPart p (exactly t)
  | .startingWith => onPart p fun part => do
    pure (t.longEnough (← partAt t part 0) part.length)
  | .endingWith => onPart p fun part => do
    pure (t.longEnough (← partAtEnd t part) part.length)
  | .substring => onPart p (anywhere t)
  | .windowed => placed t p

/-- The records whose value matches a pattern and that are not tombstoned. -/
def answer (t : Tables) (tombstones : RecordSet) (p : Pattern) : Checked RecordSet := do
  let found ← candidates t p
  pure (if tombstones.isEmpty then found else found.diff tombstones)

/-- An answer from one part needs a part. -/
theorem isOk_onPart_iff {f : Part → Checked RecordSet} :
    (onPart p f).isOk ↔ ∃ part rest, p.parts = part :: rest ∧ (f part).isOk := by
  unfold onPart
  cases p.parts with
  | nil => simp [cell, bind, Except.bind, Except.isOk, Except.toBool]
  | cons part rest => simp [cell, bind, Except.bind]

/-- What is answered from one part has that part. -/
theorem onPart_eq_ok {f : Part → RecordSet} {f' : Part → Checked RecordSet}
    (hne : p.parts ≠ []) (hf : ∀ part ∈ p.parts, f' part = .ok (f part)) :
    onPart p f' = .ok (t.onPart p f) := by
  unfold onPart Tables.onPart
  cases hparts : p.parts with
  | nil => exact absurd hparts hne
  | cons part rest => exact hf part (hparts ▸ List.mem_cons_self)

/-- Only runs are answered without a part. -/
theorem parts_ne_nil (hempty : p.strategy ≠ .emptyString) (hall : p.strategy ≠ .matchAll) :
    p.parts ≠ [] := by
  intro hparts
  rw [Pattern.strategy, hparts] at hempty hall
  split at hempty
  · exact hempty rfl
  · rename_i hsource
    exact hall (if_neg hsource)

/-- **A pattern with parts that end where the positions do is answered without a
slip**, whatever the tables hold. -/
theorem candidates_eq_ok (h : t.length.slots ≤ Tables.positionLimit)
    (hp : ∀ part ∈ p.parts, part.length ≤ Tables.positionLimit) :
    candidates t p = .ok (t.candidates p) := by
  have hat : ∀ part ∈ p.parts, partAt t part 0 = .ok (t.partAt part 0) := fun part hpart =>
    partAt_eq_ok (by rw [Nat.zero_add]; exact hp part hpart)
  have hne := parts_ne_nil (p := p)
  unfold candidates Tables.candidates
  cases hstrategy : p.strategy with
  | emptyString => rfl
  | matchAll => rfl
  | exact =>
    rw [hstrategy] at hne
    exact onPart_eq_ok (hne nofun nofun) fun part hpart => exactly_eq_ok (hp part hpart)
  | startingWith =>
    rw [hstrategy] at hne
    refine onPart_eq_ok (hne nofun nofun) fun part hpart => ?_
    rw [hat part hpart, ok_bind]
    rfl
  | endingWith =>
    rw [hstrategy] at hne
    refine onPart_eq_ok (hne nofun nofun) fun part hpart => ?_
    rw [partAtEnd_eq_ok, ok_bind]
    rfl
  | substring =>
    rw [hstrategy] at hne
    exact onPart_eq_ok (hne nofun nofun) fun part _ => anywhere_eq_ok h
  | windowed => exact placed_eq_ok h p

theorem answer_eq_ok (h : t.length.slots ≤ Tables.positionLimit)
    (hp : ∀ part ∈ p.parts, part.length ≤ Tables.positionLimit) (tombstones : RecordSet) :
    answer t tombstones p = .ok (t.answer tombstones p) := by
  rw [answer, candidates_eq_ok h hp, ok_bind]
  unfold Tables.answer
  split <;> rfl

end Checked

end WildcardIndex
