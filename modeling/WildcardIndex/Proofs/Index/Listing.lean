import Mathlib.Data.List.Basic
import WildcardIndex.Proofs.Index.Run
/-!
# The index — a listing of its live records

The naive account of an index is a **listing**: the live records with their
identifiers and cut values, ascending, and nothing else. An operation changes it
in the obvious way once it is known which record a new value got. A store is
listed if the listing has exactly its live records; every operation keeps an
index listed, and answers as the listing allows.
-/

namespace WildcardIndex

/-- The live records with their identifiers and values, ascending. -/
abbrev Listing (I : Type) := List (Record × I × Bytes)

namespace Listing

variable {I σ : Type} {b : Backend} {m : Listing I} {store store' : Store I}
variable {r u : Record} {e f : I × Bytes} {i : I} {v : Bytes}

/-- Puts a record at its place. -/
def put (r : Record) (e : I × Bytes) : Listing I → Listing I
  | [] => [(r, e)]
  | (u, f) :: m => if u < r then (u, f) :: put r e m else (r, e) :: (u, f) :: m

/-- Drops the records a predicate chooses, asking about one after the other. -/
def keep (p : σ → I → Bool × σ) (s : σ) : Listing I → Listing I × σ
  | [] => ([], s)
  | (r, i, v) :: m =>
    let (chosen, s) := p s i
    let (kept, s) := keep p s m
    (if chosen then kept else (r, i, v) :: kept, s)

/-- The records of a scan, numbered from zero, their values cut. -/
def numbered (c : Config) (records : List (I × Bytes)) : Listing I :=
  records.zipIdx.map fun ((i, v), n) => (n.toUInt32, i, Index.indexedPart c v)

/-- What an operation leaves listed, given what it answered. -/
def after (c : Config) (m : Listing I) : Operation I σ → Reply σ → Listing I
  | .insert i v, .inserted (.ok r) => m.put r (i, Index.indexedPart c v)
  | .delete p s, .deleted _ _ => (m.keep p s).1
  | .replace p s i v, .replaced (.ok r) _ => (m.keep p s).1.put r (i, Index.indexedPart c v)
  | .clear, .cleared => []
  | .rebuild source, .rebuilt (.ok ()) => numbered c source.first
  | _, _ => m

/-- What the listing says about an answer: a new value gets a record that is not
listed, and fails to only if there is none; a deletion counts what it drops, and
hands the predicate its state on. -/
def Allows (m : Listing I) : Operation I σ → Reply σ → Prop
  | .insert _ _, .inserted (.ok r) => ∀ e, (r, e) ∉ m
  | .insert _ _, .inserted (.error e) => e = .capacityExceeded UInt32.size ∧ ∀ r, ∃ f, (r, f) ∈ m
  | .delete p s, .deleted n s' => n + (m.keep p s).1.length = m.length ∧ s' = (m.keep p s).2
  | .replace p s _ _, .replaced (.ok r) s' => (∀ e, (r, e) ∉ m) ∧ s' = (m.keep p s).2
  | .replace _ s _ _, .replaced (.error e) s' =>
    (e = .capacityExceeded UInt32.size ∧ ∀ r, ∃ f, (r, f) ∈ m) ∧ s' = s
  | .compact, .compacted _ => True
  | .clear, .cleared => True
  | .rebuild _, .rebuilt _ => True
  | _, _ => False

/-- What a run leaves listed, given what it answered. -/
def afterAll (c : Config) (m : Listing I) : List (Operation I σ) → List (Reply σ) → Listing I
  | op :: ops, reply :: replies => afterAll c (m.after c op reply) ops replies
  | _, _ => m

/-- Every answer of a run is as the listing at that moment says. -/
def AllowsAll (c : Config) (m : Listing I) : List (Operation I σ) → List (Reply σ) → Prop
  | [], [] => True
  | op :: ops, reply :: replies => m.Allows op reply ∧ AllowsAll c (m.after c op reply) ops replies
  | _, _ => False

/-! ## Putting and keeping -/

theorem mem_put {x : Record × I × Bytes} : x ∈ m.put r e ↔ x = (r, e) ∨ x ∈ m := by
  induction m with
  | nil => simp [put]
  | cons y m ih =>
    obtain ⟨u, f⟩ := y
    unfold put
    split
    · rw [List.mem_cons, ih, List.mem_cons]
      tauto
    · rw [List.mem_cons]

theorem length_put (m : Listing I) (r : Record) (e : I × Bytes) :
    (m.put r e).length = m.length + 1 := by
  fun_induction put r e m with
  | case1 => rfl
  | case2 u f m hlt ih => rw [List.length_cons, ih, List.length_cons]
  | case3 u f m hge => rfl

theorem pairwise_put (h : m.Pairwise fun x y => x.1 < y.1) (hr : ∀ e, (r, e) ∉ m) :
    (m.put r e).Pairwise fun x y => x.1 < y.1 := by
  induction m with
  | nil => exact List.pairwise_singleton _ _
  | cons y m ih =>
    obtain ⟨u, f⟩ := y
    obtain ⟨hu, hm⟩ := List.pairwise_cons.1 h
    unfold put
    split
    · rename_i hlt
      refine List.pairwise_cons.2 ⟨fun x hx => ?_, ih hm fun e he => hr e (List.mem_cons_of_mem _ he)⟩
      rcases mem_put.1 hx with rfl | hx
      · exact hlt
      · exact hu x hx
    · rename_i hge
      have hne : u ≠ r := fun heq => hr f (heq ▸ List.mem_cons_self)
      have hlt : r < u := by
        rw [UInt32.lt_iff_toNat_lt] at hge ⊢
        have : u.toNat ≠ r.toNat := fun heq => hne (UInt32.toNat_inj.1 heq)
        omega
      refine List.pairwise_cons.2 ⟨fun x hx => ?_, h⟩
      rcases List.mem_cons.1 hx with rfl | hx
      · exact hlt
      · exact UInt32.lt_trans hlt (hu x hx)

/-- **Keeping leaves what choosing does not take.** Both ask about the same
records in the same order. -/
theorem keep_spec (p : σ → I → Bool × σ) (s : σ) (m : Listing I)
    (h : m.Pairwise fun x y => x.1 < y.1) :
    let chosen := Index.choose p s (m.map fun x => (x.1, x.2.1))
    (m.keep p s).2 = chosen.2 ∧ (m.keep p s).1.Sublist m ∧
      chosen.1.length + (m.keep p s).1.length = m.length ∧
      ∀ x, x ∈ (m.keep p s).1 ↔ x ∈ m ∧ x.1 ∉ chosen.1 := by
  induction m generalizing s with
  | nil => simp [keep, Index.choose]
  | cons y m ih =>
    obtain ⟨r, i, v⟩ := y
    obtain ⟨hr, hm⟩ := List.pairwise_cons.1 h
    obtain ⟨hstate, hsub, hcount, hmem⟩ := ih (p s i).2 hm
    have hchosen := Index.choose_sublist p (p s i).2 (m.map fun x => (x.1, x.2.1))
    -- what is chosen further on lies behind `r`
    have hnot : ∀ x ∈ m, x.1 ≠ r := fun x hx heq => UInt32.lt_irrefl r (heq ▸ hr x hx)
    have hr' : r ∉ (Index.choose p (p s i).2 (m.map fun x => (x.1, x.2.1))).1 := by
      intro hmem'
      have := hchosen.subset hmem'
      rw [List.map_map, List.mem_map] at this
      obtain ⟨x, hx, heq⟩ := this
      exact hnot x hx heq
    simp only [keep, List.map_cons, Index.choose, List.length_cons]
    refine ⟨hstate, ?_, ?_, fun x => ?_⟩
    · split
      · exact hsub.cons _
      · exact hsub.cons_cons _
    · split
      · rw [List.length_cons]
        omega
      · rw [List.length_cons]
        omega
    · split
      · rw [hmem, List.mem_cons, List.mem_cons]
        constructor
        · rintro ⟨hx, hnotin⟩
          exact ⟨.inr hx, fun h => h.elim (hnot x hx) hnotin⟩
        · rintro ⟨rfl | hx, hnotin⟩
          · exact absurd (.inl rfl) hnotin
          · exact ⟨hx, fun h => hnotin (.inr h)⟩
      · rw [List.mem_cons, hmem, List.mem_cons]
        constructor
        · rintro (rfl | ⟨hx, hnotin⟩)
          · exact ⟨.inl rfl, hr'⟩
          · exact ⟨.inr hx, hnotin⟩
        · rintro ⟨rfl | hx, hnotin⟩
          · exact .inl rfl
          · exact .inr ⟨hx, hnotin⟩

theorem length_keep_le (p : σ → I → Bool × σ) (s : σ) (m : Listing I) :
    (m.keep p s).1.length ≤ m.length := by
  induction m generalizing s with
  | nil => exact Nat.le_refl _
  | cons e m ih =>
    obtain ⟨r, i, v⟩ := e
    have := ih (p s i).2
    simp only [keep, List.length_cons]
    split
    · omega
    · rw [List.length_cons]
      omega

/-! ## Listed stores -/

/-- The listing has exactly the live records of a store. -/
structure Lists (m : Listing I) (store : Store I) : Prop where
  /-- It ascends. -/
  ascending : m.Pairwise fun x y => x.1 < y.1
  /-- It has what the store has. -/
  mem_iff : ∀ r e, (r, e) ∈ m ↔ store.content? r = some e

theorem Lists.not_mem (h : m.Lists store) (hr : store.content? r = none) (e : I × Bytes) :
    (r, e) ∉ m := by
  rw [h.mem_iff, hr]
  exact nofun

/-- The live records are listed with their identifiers. -/
theorem Lists.map_eq_live (h : m.Lists store) (hstore : store.Valid b) :
    m.map (fun x => (x.1, x.2.1)) = store.live := by
  refine RecordSet.eq_of_pairwise_lt Prod.fst ?_ hstore.pairwise_live ?_
  · rw [List.pairwise_map]
    exact h.ascending
  · rintro ⟨r, i⟩
    rw [hstore.mem_live, List.mem_map]
    constructor
    · rintro ⟨⟨u, j, v⟩, hx, heq⟩
      cases heq
      exact ⟨v, (h.mem_iff _ _).1 hx⟩
    · rintro ⟨v, hv⟩
      exact ⟨(r, i, v), (h.mem_iff _ _).2 hv, rfl⟩

theorem Lists.took (h : m.Lists store) (htook : Store.Took b i v r store store') :
    (m.put r (i, v)).Lists store' where
  ascending := pairwise_put h.ascending (h.not_mem htook.fresh)
  mem_iff u f := by
    rw [mem_put, htook.content?_eq, h.mem_iff]
    by_cases hu : u = r
    · subst hu
      rw [Contents.set_self, htook.fresh]
      simp [eq_comm]
    · rw [Contents.set_of_ne hu]
      simp [hu]

theorem Lists.marked (h : m.Lists store) (hstore : store.Valid b) (p : σ → I → Bool × σ) (s : σ)
    (hmarked : Store.Marked b (Index.choose p s store.live).1 store store') :
    (m.keep p s).1.Lists store' := by
  obtain ⟨-, hsub, -, hmem⟩ := keep_spec p s m h.ascending
  rw [h.map_eq_live hstore] at hmem
  refine ⟨h.ascending.sublist hsub, fun u f => ?_⟩
  rw [hmem, hmarked.content?_eq, h.mem_iff]
  split
  · rename_i hu
    simp [hu]
  · rename_i hu
    simp [hu]

/-- Marking what was chosen before a value was taken in leaves the value. -/
theorem Lists.took_marked {store'' : Store I} (h : m.Lists store) (hstore : store.Valid b)
    (p : σ → I → Bool × σ) (s : σ) (htook : Store.Took b i v r store store')
    (hmarked : Store.Marked b (Index.choose p s store.live).1 store' store'') :
    ((m.keep p s).1.put r (i, v)).Lists store'' := by
  obtain ⟨-, hsub, -, hmem⟩ := keep_spec p s m h.ascending
  rw [h.map_eq_live hstore] at hmem
  have hnot := h.not_mem htook.fresh
  -- what was chosen was live before, and `r` was not
  have hchosen : r ∉ (Index.choose p s store.live).1 := by
    intro hr
    obtain ⟨⟨u, j⟩, hu, rfl⟩ :=
      List.mem_map.1 ((Index.choose_sublist p s store.live).subset hr)
    obtain ⟨w, hw⟩ := hstore.mem_live.1 hu
    rw [htook.fresh] at hw
    cases hw
  refine ⟨pairwise_put (h.ascending.sublist hsub) fun e he => hnot e (hsub.subset he), fun u f => ?_⟩
  rw [mem_put, hmem, hmarked.content?_eq, htook.content?_eq, h.mem_iff]
  by_cases hu : u = r
  · subst hu
    rw [if_neg hchosen, Contents.set_self, htook.fresh]
    simp [eq_comm]
  · rw [Contents.set_of_ne hu]
    by_cases hin : u ∈ (Index.choose p s store.live).1
    · simp [hu, hin]
    · simp [hu, hin]

theorem Lists.alike (h : m.Lists store) (halike : store'.Alike store) : m.Lists store' where
  ascending := h.ascending
  mem_iff r e := by rw [halike.content?_eq, h.mem_iff]

theorem lists_empty (b : Backend) : Lists [] (.empty b : Store I) where
  ascending := List.Pairwise.nil
  mem_iff r e := by
    rw [Store.content?_of_not_mem RecordSet.not_mem_empty]
    simp [Store.empty]

/-- With every slot taken, every record is listed. -/
theorem Lists.of_full (h : m.Lists store) (hstore : store.Valid b) (hr : store.next? = none)
    (r : Record) : ∃ e, (r, e) ∈ m := by
  obtain ⟨e, he⟩ := Option.isSome_iff_exists.1 (hstore.isSome_content?_of_full hr r)
  exact ⟨e, (h.mem_iff r e).2 he⟩

theorem lists_numbered {c : Config} {records : List (I × Bytes)} {x : Index I}
    (h : Index.Rebuilt c records x) : (numbered c records).Lists x.store := by
  have hsize := h.valid.store.size_le
  rw [h.totalSlots_eq] at hsize
  refine ⟨?_, fun r e => ?_⟩
  · rw [numbered, List.pairwise_map]
    exact Store.pairwise_zipIdx hsize
  · rw [h.content?_eq, Index.scanned?, numbered, List.mem_map, Option.map_eq_some_iff]
    constructor
    · rintro ⟨⟨⟨i, v⟩, n⟩, hn, heq⟩
      cases heq
      rw [List.mem_zipIdx_iff_getElem?] at hn
      have hlt : n < UInt32.size := Nat.lt_of_lt_of_le (List.getElem?_eq_some_iff.1 hn).1 hsize
      exact ⟨(i, v), by rw [Store.toNat_toUInt32 hlt]; exact hn, rfl⟩
    · rintro ⟨⟨i, v⟩, hr, rfl⟩
      refine ⟨((i, v), r.toNat), List.mem_zipIdx_iff_getElem?.2 hr, ?_⟩
      have hr' : r.toNat.toUInt32 = r := UInt32.ofNat_toNat
      simp only [hr']

/-! ## Runs -/

variable {x : Index I}

/-- **An operation keeps an index listed, and answers as the listing allows.** -/
theorem Lists.perform (h : m.Lists x.store) (hx : x.Valid) (op : Operation I σ) :
    m.Allows op (x.perform op).1 ∧ (m.after x.config op (x.perform op).1).Lists (x.perform op).2.store := by
  cases op with
  | insert i v =>
    simp only [Index.perform]
    cases hr : x.store.next? with
    | none =>
      obtain ⟨hresult, hindex⟩ := hx.insert_of_next?_eq_none hr i v
      rw [hresult, hindex]
      exact ⟨⟨rfl, h.of_full hx.store hr⟩, h⟩
    | some r =>
      obtain ⟨y, hplaced, hresult, hindex⟩ := hx.insert_of_next? hr i v
      rw [hresult, hindex]
      exact ⟨h.not_mem hplaced.took.fresh, h.took hplaced.took⟩
  | delete p s =>
    obtain ⟨store, hmarked, hresult, -, hcompacted⟩ := hx.delete_spec p s
    obtain ⟨hstate, -, hcount, -⟩ := keep_spec p s m h.ascending
    rw [h.map_eq_live hx.store] at hstate hcount
    simp only [Index.perform, hresult]
    -- a compaction may follow, and the live records do not tell
    refine ⟨⟨hcount, hstate.symm⟩, ?_⟩
    exact (h.marked hx.store p s hmarked).alike hcompacted.alike.store
  | replace p s i v =>
    simp only [Index.perform]
    cases hr : x.store.next? with
    | none =>
      obtain ⟨hresult, hindex⟩ := hx.replace_of_next?_eq_none hr p s i v
      rw [hresult, hindex]
      exact ⟨⟨⟨rfl, h.of_full hx.store hr⟩, rfl⟩, h⟩
    | some r =>
      obtain ⟨y, store, hplaced, hmarked, hresult, -, hcompacted⟩ := hx.replace_of_next? hr p s i v
      obtain ⟨hstate, -, -, -⟩ := keep_spec p s m h.ascending
      rw [h.map_eq_live hx.store] at hstate
      rw [hresult]
      refine ⟨⟨h.not_mem hplaced.took.fresh, hstate.symm⟩, ?_⟩
      exact (h.took_marked hx.store p s hplaced.took hmarked).alike hcompacted.alike.store
  | compact => exact ⟨trivial, h.alike hx.compact_spec.1.alike.store⟩
  | clear => exact ⟨trivial, lists_empty _⟩
  | rebuild source =>
    simp only [Index.perform]
    cases hbuild : (Index.build x.config source).1 with
    | error e =>
      obtain ⟨hresult, hindex⟩ := Index.rebuild_of_error hbuild
      rw [hresult, hindex]
      exact ⟨trivial, h⟩
    | ok y =>
      obtain ⟨hresult, hindex⟩ := Index.rebuild_of_ok hbuild
      rw [hresult, hindex]
      exact ⟨trivial, lists_numbered (Index.build_spec hx.config hbuild)⟩

end Listing

end WildcardIndex
