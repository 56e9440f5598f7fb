import WildcardIndex.Query.Part
/-!
# Queries — placing the parts of a pattern

With two parts or more, the parts are placed one after the other, each at or
after the end of the one before, and every complete placement adds its records
to the answer. Placements still to be continued wait on a stack; the last one
put there goes on first. **An empty placement is never put there**, so the
search only follows prefixes that some record has.

A last part that no run follows is not placed: it is looked up at the end, among
the values long enough to hold it behind the part before.
-/

namespace WildcardIndex

/-- A placement of the first parts, to be continued. -/
structure Placement where
  /-- The parts still to be placed. -/
  parts : List Part
  /-- The next part may only be placed at the offset it starts from. -/
  anchored : Bool
  /-- The first offset that is free. -/
  next : Nat
  /-- The records that have the placed parts where they were placed. -/
  records : RecordSet

namespace Tables

/-- The total length of some parts. -/
def totalLength (ps : List Part) : Nat := total Part.length ps

/-- The offsets to try for a part that others follow: up to the last one that
leaves the longest value room for all of them, or the first only. -/
def offsets (t : Tables) (p : Part) (rest : List Part) (anchored : Bool) (next : Nat) : List Nat :=
  let needed := p.length + totalLength rest
  if t.length.maxLength < needed then []
  else
    let last := if anchored then 0 else t.length.maxLength - needed
    List.range' next (last + 1 - next)

/-- The placements that put one more part, by ascending offset. -/
def openings (t : Tables) (p : Part) (rest : List Part) (anchored : Bool) (next : Nat)
    (s : RecordSet) : List Placement :=
  (t.offsets p rest anchored next).filterMap fun offset =>
    let placed := (t.partAt p offset).inter s
    if placed.isEmpty then none
    else some { parts := rest, anchored := false, next := offset + p.length, records := placed }

/-- The records that end with the last part, behind the parts already placed. -/
def closing (t : Tables) (p : Part) (next : Nat) (s : RecordSet) : RecordSet :=
  t.longEnough ((t.partAtEnd p).inter s) (next + p.length)

/-- An upper bound on the work that parts leave, each with at most `n` offsets. -/
def work (n : Nat) : List Part → Nat
  | [] => 1
  | _ :: rest => (n + 1) * work n rest

/-- An upper bound on the work a placement leaves: a part has at most one offset
for each length. -/
def weight (t : Tables) (pl : Placement) : Nat := work (t.length.maxLength + 1) pl.parts

/-- A part has at most one offset for each length. -/
theorem length_offsets_le (t : Tables) (p : Part) (rest : List Part) (anchored : Bool)
    (next : Nat) : (t.offsets p rest anchored next).length ≤ t.length.maxLength + 1 := by
  unfold offsets
  grind

/-- Parts always leave some work, if only to be looked at. -/
theorem work_pos (n : Nat) : ∀ ps, 0 < work n ps
  | [] => Nat.zero_lt_one
  | _ :: rest => Nat.mul_pos (Nat.succ_pos n) (work_pos n rest)

/-- Every opening leaves the work of the parts that are still to be placed. -/
theorem weight_of_mem_openings {t : Tables} {p : Part} {rest : List Part} {anchored : Bool}
    {next : Nat} {s : RecordSet} {pl : Placement} (h : pl ∈ t.openings p rest anchored next s) :
    t.weight pl = work (t.length.maxLength + 1) rest := by
  simp only [openings, List.mem_filterMap] at h
  obtain ⟨offset, -, h⟩ := h
  split at h
  · cases h
  · cases h
    rfl

/-- **Putting one more part leaves less work.** There are at most `n` openings,
each a factor `n + 1` lighter. -/
theorem weight_openings_lt (t : Tables) (p : Part) (rest : List Part) (anchored anchored' : Bool)
    (next : Nat) (s : RecordSet) :
    total t.weight (t.openings p rest anchored next s) < t.weight ⟨p :: rest, anchored', next, s⟩ := by
  have count : (t.openings p rest anchored next s).length ≤ t.length.maxLength + 1 :=
    Nat.le_trans (List.length_filterMap_le _ _) (t.length_offsets_le p rest anchored next)
  refine Nat.lt_of_le_of_lt (total_le fun pl h => Nat.le_of_eq (weight_of_mem_openings h)) ?_
  exact Nat.mul_lt_mul_of_pos_right (Nat.lt_succ_of_le count) (work_pos _ rest)

/-- Continues the waiting placements until none is left, adding the records of
the complete ones to `found`. -/
def search (t : Tables) (openEnd : Bool) (waiting : List Placement) (found : RecordSet) :
    RecordSet :=
  match waiting with
  | [] => found
  | ⟨[], _, _, s⟩ :: waiting => t.search openEnd waiting (found.union s)
  | ⟨p :: rest, anchored, next, s⟩ :: waiting =>
    if rest.isEmpty && !openEnd then
      t.search openEnd waiting (found.union (t.closing p next s))
    else
      t.search openEnd ((t.openings p rest anchored next s).reverse ++ waiting) found
termination_by total t.weight waiting
decreasing_by
  · rw [total_cons]
    exact Nat.lt_add_of_pos_left (work_pos _ _)
  · rw [total_cons]
    exact Nat.lt_add_of_pos_left (work_pos _ _)
  · have := t.weight_openings_lt p rest anchored anchored next s
    simp only [total_append, total_reverse, total_cons]
    omega

/-- The records that have the parts of a pattern one after the other. -/
def placed (t : Tables) (p : Pattern) : RecordSet :=
  let long := t.length.atLeast p.minLength
  if long.isEmpty then t.nothing
  else
    t.search p.endsWithRun
      [{ parts := p.parts, anchored := !p.startsWithRun, next := 0, records := long }] t.nothing

end Tables

end WildcardIndex
