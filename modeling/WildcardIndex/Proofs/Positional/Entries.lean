import Mathlib.Data.List.Basic
import WildcardIndex.Positional.PositionList
import WildcardIndex.Proofs.RecordSet.Membership
/-!
# Position lists — the entries, and what halving finds

While positions ascend, halving splits the entries into those before a position
and the others (`exists_split`), so that a lookup finds precisely the stored
entry (`mem_entries_iff`), and an update changes that entry and no other
(`get?_insert`, `get?_erase`, `get?_subtract`). Every update keeps positions
ascending.
-/

namespace WildcardIndex

namespace PositionList

variable {l : PositionList} {p q : Position} {s : RecordSet}

/-- Positions ascend strictly. -/
def Ascending (l : PositionList) : Prop := l.entries.toList.Pairwise fun d e => d.1 < e.1

/-! ## Halving -/

theorem isBefore_iff {i : Nat} :
    l.isBefore i p = true ↔ ∃ e, l.entries.toList[i]? = some e ∧ e.1 < p := by
  unfold isBefore
  rw [Array.getElem?_toList]
  rcases l.entries[i]? with - | ⟨q, s⟩ <;> simp

/-- What lies before an entry that is before a position is before it too. -/
theorem isBefore_of_le (h : l.Ascending) {i j : Nat} (hij : i ≤ j)
    (hj : l.isBefore j p = true) : l.isBefore i p = true := by
  rw [isBefore_iff] at hj ⊢
  obtain ⟨e, he, hlt⟩ := hj
  rcases Nat.eq_or_lt_of_le hij with rfl | hij
  · exact ⟨e, he, hlt⟩
  · obtain ⟨hj, rfl⟩ := List.getElem?_eq_some_iff.1 he
    refine ⟨_, List.getElem?_eq_getElem (Nat.lt_trans hij hj), ?_⟩
    exact Int32.lt_trans (List.pairwise_iff_getElem.1 h i j _ hj hij) hlt

/-- **Halving ends between the entries before a position and the others**, as
long as it started with both on their sides of its bounds. -/
theorem isBefore_iff_lt_lowerBoundIn (h : l.Ascending) {lo hi : Nat} (hle : lo ≤ hi)
    (hlo : ∀ i, i < lo → l.isBefore i p = true) (hhi : ∀ i, hi ≤ i → l.isBefore i p = false)
    (i : Nat) : l.isBefore i p = true ↔ i < l.lowerBoundIn p lo hi := by
  fun_induction lowerBoundIn l p lo hi with
  | case1 lo hi hlt mid hmid ih =>
    refine ih (by omega) (fun i hi => ?_) hhi
    exact isBefore_of_le h (by omega) hmid
  | case2 lo hi hlt mid hmid ih =>
    refine ih (by omega) hlo fun i hi => ?_
    rw [← Bool.not_eq_true]
    exact fun hi' => hmid (isBefore_of_le h hi hi')
  | case3 lo hi hlt =>
    constructor
    · intro hi'
      by_contra hc
      rw [hhi i (by omega)] at hi'
      exact Bool.false_ne_true hi'
    · exact hlo i

theorem isBefore_iff_lt_lowerBound (h : l.Ascending) {i : Nat} :
    l.isBefore i p = true ↔ i < l.lowerBound p := by
  refine isBefore_iff_lt_lowerBoundIn h (Nat.zero_le _) (fun i hi => absurd hi (Nat.not_lt_zero i))
    (fun i hi => ?_) i
  rw [isBefore, Array.getElem?_eq_none hi]

/-- The entries fall apart at the place where halving ends. -/
theorem exists_split (h : l.Ascending) (p : Position) :
    ∃ as bs, l.entries.toList = as ++ bs ∧ as.length = l.lowerBound p ∧
      (∀ e ∈ as, e.1 < p) ∧ ∀ e ∈ bs, ¬ e.1 < p := by
  refine ⟨l.entries.toList.take (l.lowerBound p), l.entries.toList.drop (l.lowerBound p),
    (List.take_append_drop _ _).symm, ?_, fun e he => ?_, fun e he hlt => ?_⟩
  · rw [List.length_take]
    exact Nat.min_eq_left (l.lowerBound_le p)
  · obtain ⟨i, hi, rfl⟩ := List.mem_take_iff_getElem.1 he
    have hb := (isBefore_iff_lt_lowerBound (p := p) h).2
      (Nat.lt_of_lt_of_le hi (Nat.min_le_left _ _))
    obtain ⟨e, he, hlt⟩ := isBefore_iff.1 hb
    rw [List.getElem?_eq_some_iff] at he
    obtain ⟨_, rfl⟩ := he
    exact hlt
  · obtain ⟨i, hi, rfl⟩ := List.mem_drop_iff_getElem.1 he
    have hb : l.isBefore (l.lowerBound p + i) p = true :=
      isBefore_iff.2 ⟨_, List.getElem?_eq_getElem _, hlt⟩
    have := (isBefore_iff_lt_lowerBound h).1 hb
    omega

/-! ## The entries around a position -/

/-- The entries are `as`, then perhaps one at `p`, then `bs`. -/
structure Around (l : PositionList) (p : Position) (as bs : List (Position × RecordSet))
    (found : Option RecordSet) : Prop where
  /-- The entries, in order. -/
  entries_eq : l.entries.toList = as ++ (found.map (p, ·)).toList ++ bs
  /-- The first ones lie before the position. -/
  before : ∀ e ∈ as, e.1 < p
  /-- The last ones lie behind it. -/
  behind : ∀ e ∈ bs, p < e.1
  /-- And all of them ascend. -/
  ascending : (as ++ bs).Pairwise fun d e => d.1 < e.1

namespace Around

variable {as bs : List (Position × RecordSet)} {found : Option RecordSet}

theorem toAscending (h : l.Around p as bs found) : l.Ascending := by
  have hab := List.pairwise_append.1 h.ascending
  rw [PositionList.Ascending, h.entries_eq]
  cases found with
  | none =>
    rw [Option.map_none, Option.toList_none, List.append_nil]
    exact h.ascending
  | some s =>
    rw [Option.map_some, Option.toList_some, List.append_assoc, List.singleton_append]
    refine List.pairwise_append.2 ⟨hab.1, List.pairwise_cons.2 ⟨h.behind, hab.2.1⟩, ?_⟩
    intro d hd e he
    rcases List.mem_cons.1 he with rfl | he
    · exact h.before d hd
    · exact hab.2.2 d hd e he

theorem mem_iff (h : l.Around p as bs found) :
    (q, s) ∈ l.entries.toList ↔ ((q, s) ∈ as ∨ (q, s) ∈ bs) ∨ q = p ∧ found = some s := by
  rw [h.entries_eq]
  cases found with
  | none => simp
  | some t =>
    simp only [Option.map_some, Option.toList_some, List.mem_append, List.mem_singleton,
      Prod.mk.injEq, Option.some.injEq]
    rw [or_right_comm, eq_comm (a := s)]

/-- The entry at the position is the one in the middle. -/
theorem mem_at (h : l.Around p as bs found) : (p, s) ∈ l.entries.toList ↔ found = some s := by
  rw [h.mem_iff, or_iff_right, and_iff_right rfl]
  rintro (hp | hp)
  · have hlt : p < p := h.before (p, s) hp
    exact Int32.lt_irrefl hlt
  · have hlt : p < p := h.behind (p, s) hp
    exact Int32.lt_irrefl hlt

/-- The other entries do not depend on it. -/
theorem mem_of_ne (h : l.Around p as bs found) (hq : q ≠ p) :
    (q, s) ∈ l.entries.toList ↔ (q, s) ∈ as ∨ (q, s) ∈ bs := by
  rw [h.mem_iff, or_iff_left fun hp => hq hp.1]

end Around

/-- A lookup hands out the entry in the middle, and halving ends there. -/
theorem exists_around (h : l.Ascending) (p : Position) :
    ∃ as bs, l.Around p as bs (l.get? p) ∧ as.length = l.lowerBound p := by
  obtain ⟨as, bs, hl, hlen, has, hbs⟩ := exists_split h p
  have hget : l.get? p = (bs.head?.bind fun e => if e.1 = p then some e.2 else none) := by
    rw [get?, ← Array.getElem?_toList, hl, ← hlen, List.getElem?_append_right (Nat.le_refl _),
      Nat.sub_self, ← List.head?_eq_getElem?]
    rcases bs.head? with - | ⟨q, s⟩ <;> rfl
  have hasc : (as ++ bs).Pairwise fun d e => d.1 < e.1 := hl ▸ h
  rcases bs with - | ⟨⟨q, s⟩, bs⟩
  · refine ⟨as, [], ⟨?_, has, fun e he => absurd he List.not_mem_nil, hasc⟩, hlen⟩
    rw [hget, hl]
    simp
  · have hab := List.pairwise_append.1 hasc
    have hrest := (List.pairwise_cons.1 hab.2.1).1
    by_cases hq : q = p
    · subst hq
      refine ⟨as, bs, ⟨?_, has, hrest, ?_⟩, hlen⟩
      · rw [hget, hl]
        simp
      · exact List.pairwise_append.2 ⟨hab.1, (List.pairwise_cons.1 hab.2.1).2,
          fun d hd e he => hab.2.2 d hd e (List.mem_cons_of_mem _ he)⟩
    · -- what stands where halving ends is another position, so it lies behind
      have hlt : p < q :=
        Int32.lt_of_le_of_ne (Int32.not_lt.1 (hbs (q, s) List.mem_cons_self)) (Ne.symm hq)
      refine ⟨as, (q, s) :: bs, ⟨?_, has, fun e he => ?_, hasc⟩, hlen⟩
      · rw [hget, hl]
        simp [hq]
      · rcases List.mem_cons.1 he with rfl | he
        · exact hlt
        · exact Int32.lt_trans hlt (hrest e he)

/-- **A lookup finds exactly what is stored.** -/
theorem mem_entries_iff (h : l.Ascending) : (p, s) ∈ l.entries.toList ↔ l.get? p = some s := by
  obtain ⟨as, bs, har, -⟩ := exists_around h p
  exact har.mem_at

/-- The place of a position is where halving ends, if the lookup succeeds. -/
theorem find?_eq (l : PositionList) (p : Position) :
    l.find? p = (l.get? p).map fun _ => l.lowerBound p := by
  rw [find?, get?]
  rcases l.entries[l.lowerBound p]? with - | ⟨q, s⟩
  · rfl
  · by_cases hq : q = p <;> simp [hq]

/-- What is found has an entry. -/
theorem getElem?_of_find? {i : Nat} (h : l.find? p = some i) :
    ∃ s, l.entries[i]? = some (p, s) ∧ l.get? p = some s := by
  rw [find?_eq] at h
  obtain ⟨s, hs, rfl⟩ := Option.map_eq_some_iff.1 h
  refine ⟨s, ?_, hs⟩
  rw [get?] at hs
  split at hs
  · rename_i q u hentry
    split at hs
    · rename_i hq
      rw [hentry, hq, Option.some.inj hs]
    · cases hs
  · cases hs

theorem lt_size_of_find? {i : Nat} (h : l.find? p = some i) : i < l.entries.size := by
  obtain ⟨s, hs, -⟩ := getElem?_of_find? h
  exact (Array.getElem?_eq_some_iff.1 hs).1

theorem modify_length_append {α : Type} (as : List α) (a : α) (bs : List α) (f : α → α) :
    (as ++ a :: bs).modify as.length f = as ++ f a :: bs := by
  induction as with
  | nil => rfl
  | cons c as ih =>
    rw [List.cons_append, List.length_cons, List.modify_succ_cons, ih, List.cons_append]

theorem insertIdx_length_append {α : Type} (as : List α) (a : α) (bs : List α) :
    (as ++ bs).insertIdx as.length a = as ++ a :: bs := by
  induction as with
  | nil => rfl
  | cons c as ih =>
    rw [List.cons_append, List.length_cons, List.insertIdx_succ_cons, ih, List.cons_append]

/-- **An update leaves the other entries alone**, whether it finds the position
or puts it there. -/
theorem exists_around_alter (h : l.Ascending) (p : Position) (f : RecordSet → RecordSet)
    (fresh : RecordSet) :
    ∃ as bs, l.Around p as bs (l.get? p) ∧
      (l.alter p f fresh).Around p as bs (some ((l.get? p).elim fresh f)) := by
  obtain ⟨as, bs, har, hlen⟩ := exists_around h p
  refine ⟨as, bs, har, ⟨?_, har.before, har.behind, har.ascending⟩⟩
  have hl := har.entries_eq
  rw [alter, find?_eq]
  cases hfound : l.get? p with
  | none =>
    rw [hfound, Option.map_none, Option.toList_none, List.append_nil] at hl
    rw [Option.map_none, Array.toList_insertIdx, hl, ← hlen, insertIdx_length_append]
    simp
  | some s =>
    rw [hfound, Option.map_some, Option.toList_some, List.append_assoc,
      List.singleton_append] at hl
    rw [Option.map_some, Array.toList_modify, hl, ← hlen, modify_length_append]
    simp

/-- So does removing a record from the set at a position. -/
theorem exists_around_erase (h : l.Ascending) (p : Position) (r : Record) :
    ∃ as bs, l.Around p as bs (l.get? p) ∧
      (l.erase p r).Around p as bs ((l.get? p).map (·.erase r)) := by
  obtain ⟨as, bs, har, hlen⟩ := exists_around h p
  refine ⟨as, bs, har, ⟨?_, har.before, har.behind, har.ascending⟩⟩
  have hl := har.entries_eq
  rw [erase, find?_eq]
  cases hfound : l.get? p with
  | none =>
    rw [hfound] at hl
    exact hl
  | some s =>
    rw [hfound, Option.map_some, Option.toList_some, List.append_assoc,
      List.singleton_append] at hl
    rw [Option.map_some, Array.toList_modify, hl, ← hlen, modify_length_append]
    simp

/-! ## Lookups after an update -/

/-- Two lists with the same entries around a position look up the same
elsewhere. -/
theorem Around.get?_of_ne {m : PositionList} {as bs : List (Position × RecordSet)}
    {found found' : Option RecordSet} (hl : l.Around p as bs found) (hm : m.Around p as bs found')
    (hq : q ≠ p) : m.get? q = l.get? q := by
  refine Option.ext fun s => ?_
  rw [← mem_entries_iff hm.toAscending, ← mem_entries_iff hl.toAscending, hm.mem_of_ne hq,
    hl.mem_of_ne hq]

theorem Around.get?_self {as bs : List (Position × RecordSet)} {found : Option RecordSet}
    (h : l.Around p as bs found) : l.get? p = found :=
  Option.ext fun s => by rw [← mem_entries_iff h.toAscending, h.mem_at]

theorem get?_alter (h : l.Ascending) (p : Position) (f : RecordSet → RecordSet)
    (fresh : RecordSet) (q : Position) :
    (l.alter p f fresh).get? q =
      if q = p then some ((l.get? p).elim fresh f) else l.get? q := by
  obtain ⟨as, bs, hl, hm⟩ := exists_around_alter h p f fresh
  split
  · rename_i hq
    rw [hq, hm.get?_self]
  · rename_i hq
    exact hl.get?_of_ne hm hq

/-- **Adding a record at a position** changes the set there, a missing one
starting empty, and no other. -/
theorem get?_insert (h : l.Ascending) (p : Position) (b : Backend) (r : Record) (q : Position) :
    (l.insert p b r).get? q =
      if q = p then some (((l.get? p).getD (.empty b)).insert r) else l.get? q := by
  rw [insert, upsert, get?_alter h]
  cases l.get? p <;> rfl

/-- **Removing a record at a position** changes the set there, if it is there,
and no other. -/
theorem get?_erase (h : l.Ascending) (p : Position) (r : Record) (q : Position) :
    (l.erase p r).get? q = if q = p then (l.get? p).map (·.erase r) else l.get? q := by
  obtain ⟨as, bs, hl, hm⟩ := exists_around_erase h p r
  split
  · rename_i hq
    rw [hq, hm.get?_self]
  · rename_i hq
    exact hl.get?_of_ne hm hq

/-! ## Positions keep ascending -/

theorem ascending_nil : Ascending {} := List.Pairwise.nil

theorem Ascending.insert (h : l.Ascending) (p : Position) (b : Backend) (r : Record) :
    (l.insert p b r).Ascending := by
  obtain ⟨as, bs, -, hm⟩ :=
    exists_around_alter h p (·.insert r) ((RecordSet.empty b).insert r)
  exact hm.toAscending

theorem Ascending.erase (h : l.Ascending) (p : Position) (r : Record) :
    (l.erase p r).Ascending := by
  obtain ⟨as, bs, -, hm⟩ := exists_around_erase h p r
  exact hm.toAscending

theorem Ascending.subtract (h : l.Ascending) (gone : RecordSet) : (l.subtract gone).Ascending := by
  rw [Ascending, PositionList.subtract, Array.toList_map, List.pairwise_map]
  exact h

/-- **Subtracting a set** changes every set and no position. -/
theorem get?_subtract (h : l.Ascending) (gone : RecordSet) (p : Position) :
    (l.subtract gone).get? p = (l.get? p).map (·.diff gone) := by
  refine Option.ext fun t => ?_
  rw [← mem_entries_iff (h.subtract gone), subtract, Array.toList_map, List.mem_map,
    Option.map_eq_some_iff]
  constructor
  · rintro ⟨⟨q, s⟩, hs, he⟩
    cases he
    exact ⟨s, (mem_entries_iff h).1 hs, rfl⟩
  · rintro ⟨s, hs, rfl⟩
    exact ⟨(p, s), (mem_entries_iff h).2 hs, rfl⟩

end PositionList

end WildcardIndex
