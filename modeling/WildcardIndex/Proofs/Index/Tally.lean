import WildcardIndex.Proofs.Index.Alike
import WildcardIndex.Proofs.Index.Extent
import WildcardIndex.Proofs.Index.Listing
import WildcardIndex.Proofs.Store.Lifecycle
/-!
# The index — the statistics account for the history

What was done to an index, and what it answered, can be **tallied** without it:
how many records are live, how many there were at most, what was inserted,
replaced and deleted, and which values were ever indexed, since it was made,
cleared or rebuilt. The statistics of an index are its tally. An index that lost
a slot, counted something twice or dropped a position would answer every query
as before, and its statistics would tell.
-/

namespace WildcardIndex

/-- What is told of an index since it was made, cleared or rebuilt. -/
structure Tally (I : Type) where
  /-- The live records. -/
  listing : Listing I := []
  /-- Records a rebuild started with. -/
  rebuilt : Nat := 0
  /-- Values inserted. -/
  inserted : Nat := 0
  /-- Replacements made. -/
  updated : Nat := 0
  /-- Records deleted, replacements apart. -/
  deleted : Nat := 0
  /-- Records that replacements dropped. -/
  dropped : Nat := 0
  /-- The most records that were live at one time. -/
  peak : Nat := 0
  /-- The values ever indexed, as far as they are, the last one first. -/
  values : List Bytes := []

namespace Tally

variable {I σ : Type}

/-- A record is given to a value, and is live along with the others. -/
def take (y : Tally I) (r : Record) (i : I) (v : Bytes) : Tally I :=
  let listing := y.listing.put r (i, v)
  { y with listing := listing, peak := max y.peak listing.length, values := v :: y.values }

/-- What an operation adds to a tally, given what it answered. A replacement
takes its record before it drops any. -/
def after (c : Config) (y : Tally I) : Operation I σ → Reply σ → Tally I
  | .insert i v, .inserted (.ok r) =>
    { y.take r i (Index.indexedPart c v) with inserted := y.inserted + 1 }
  | .delete p s, .deleted _ _ =>
    let kept := (y.listing.keep p s).1
    { y with listing := kept, deleted := y.deleted + (y.listing.length - kept.length) }
  | .replace p s i v, .replaced (.ok r) _ =>
    let kept := (y.listing.keep p s).1
    { y.take r i (Index.indexedPart c v) with
      listing := kept.put r (i, Index.indexedPart c v)
      updated := y.updated + 1
      dropped := y.dropped + (y.listing.length - kept.length) }
  | .clear, .cleared => {}
  | .rebuild source, .rebuilt (.ok ()) =>
    { listing := Listing.numbered c source.first
      rebuilt := source.first.length
      peak := source.first.length
      values := Index.indexedValues c source.first }
  | _, _ => y

/-- The tally of a run, given what it answered. -/
def afterAll (c : Config) (y : Tally I) : List (Operation I σ) → List (Reply σ) → Tally I
  | op :: ops, reply :: replies => afterAll c (y.after c op reply) ops replies
  | _, _ => y

/-! ## The balance -/

/-- What came in is what is there and what went out. -/
def Balanced (y : Tally I) : Prop :=
  y.listing.length + y.deleted + y.dropped = y.rebuilt + y.inserted + y.updated

variable {c : Config} {y : Tally I} {x x' : Index I} {r : Record} {i : I} {v : Bytes}

/-- **Every operation keeps the balance**, whatever it answers. -/
theorem Balanced.after (h : y.Balanced) (op : Operation I σ) (reply : Reply σ) :
    (y.after c op reply).Balanced := by
  unfold Balanced at h
  unfold Tally.after
  split
  · simp only [Balanced, take, Listing.length_put]
    omega
  · rename_i p s _ _
    have := Listing.length_keep_le p s y.listing
    simp only [Balanced]
    omega
  · rename_i p s i v r _
    have := Listing.length_keep_le p s y.listing
    simp only [Balanced, take, Listing.length_put]
    omega
  · rfl
  · simp [Balanced, Listing.numbered]
  · exact h

/-! ## An index and its tally -/

/-- A tally tells what an index holds. -/
structure Tells (y : Tally I) (x : Index I) : Prop where
  /-- The index is valid. -/
  valid : x.Valid
  /-- The live records are listed. -/
  lists : y.listing.Lists x.store
  /-- There are as many slots as records were live at most. -/
  totalSlots_eq : x.store.totalSlots = y.peak
  /-- The insertions are counted. -/
  inserts_eq : x.counters.inserts = y.inserted
  /-- So are the replacements. -/
  updates_eq : x.counters.updates = y.updated
  /-- So are the deletions. -/
  deletes_eq : x.counters.deletes = y.deleted
  /-- The tables span the values. -/
  spans : x.tables.Spans y.values

theorem tells_fresh (h : c.validate = .ok ()) : ({} : Tally I).Tells (Index.fresh c) where
  valid := Index.valid_fresh h
  lists := Listing.lists_empty c.backend
  totalSlots_eq := rfl
  inserts_eq := rfl
  updates_eq := rfl
  deletes_eq := rfl
  spans := Tables.spans_empty c.backend

/-- As many records are listed as are live. -/
theorem Tells.length_listing (h : y.Tells x) : y.listing.length = x.store.live.length := by
  rw [← h.lists.map_eq_live h.valid.store, List.length_map]

/-- Placing a value takes a record. -/
theorem Tells.placed (h : y.Tells x) (hr : x.store.next? = some r)
    (hplaced : Index.Placed i v r x x') : (y.take r i (Index.indexedPart x.config v)).Tells x' where
  valid := hplaced.valid
  lists := h.lists.took hplaced.took
  totalSlots_eq := by
    rw [h.valid.store.totalSlots_of_took hr hplaced.took, h.totalSlots_eq, take, Listing.length_put,
      h.length_listing]
  inserts_eq := by rw [hplaced.counters_eq]; exact h.inserts_eq
  updates_eq := by rw [hplaced.counters_eq]; exact h.updates_eq
  deletes_eq := by rw [hplaced.counters_eq]; exact h.deletes_eq
  spans := h.spans.cons hplaced.slots_eq hplaced.isSome_at?

/-- A compaction does not tell. -/
theorem Tells.compacted (h : y.Tells x) (hcompacted : Index.Compacted x x') : y.Tells x' where
  valid := hcompacted.valid
  lists := h.lists.alike hcompacted.alike.store
  totalSlots_eq := hcompacted.alike.store.totalSlots_eq.trans h.totalSlots_eq
  inserts_eq := hcompacted.alike.inserts_eq.trans h.inserts_eq
  updates_eq := hcompacted.alike.updates_eq.trans h.updates_eq
  deletes_eq := hcompacted.alike.deletes_eq.trans h.deletes_eq
  spans := h.spans.congr hcompacted.alike.slots_eq hcompacted.alike.isSome_at?

/-- **A tally that tells what an index holds does so after every operation.** -/
theorem Tells.perform (h : y.Tells x) (op : Operation I σ) :
    (y.after x.config op (x.perform op).1).Tells (x.perform op).2 := by
  cases op with
  | insert i v =>
    simp only [Index.perform]
    cases hr : x.store.next? with
    | none =>
      obtain ⟨hresult, hindex⟩ := h.valid.insert_of_next?_eq_none hr i v
      rw [hresult, hindex]
      exact h
    | some r =>
      obtain ⟨x', hplaced, hresult, hindex⟩ := h.valid.insert_of_next? hr i v
      have htook := h.placed hr hplaced
      rw [hresult, hindex]
      exact ⟨htook.valid.with_counters _, htook.lists, htook.totalSlots_eq,
        congrArg (· + 1) h.inserts_eq, h.updates_eq, h.deletes_eq, htook.spans⟩
  | delete p s =>
    obtain ⟨store, hmarked, -, -, hcompacted⟩ := h.valid.delete_spec p s
    obtain ⟨-, -, hcount, -⟩ := Listing.keep_spec p s y.listing h.lists.ascending
    rw [h.lists.map_eq_live h.valid.store] at hcount
    -- what is no longer listed was chosen
    have hdeletes : x.counters.deletes + (Index.choose p s x.store.live).1.length =
        y.deleted + (y.listing.length - (y.listing.keep p s).1.length) := by
      rw [h.deletes_eq]
      omega
    refine Tells.compacted ?_ hcompacted
    exact ⟨h.valid.marked hmarked _, h.lists.marked h.valid.store p s hmarked,
      hmarked.totalSlots_eq.trans h.totalSlots_eq, h.inserts_eq, h.updates_eq, hdeletes, h.spans⟩
  | replace p s i v =>
    simp only [Index.perform]
    cases hr : x.store.next? with
    | none =>
      obtain ⟨hresult, hindex⟩ := h.valid.replace_of_next?_eq_none hr p s i v
      rw [hresult, hindex]
      exact h
    | some r =>
      obtain ⟨x', store, hplaced, hmarked, hresult, -, hcompacted⟩ :=
        h.valid.replace_of_next? hr p s i v
      have htook := h.placed hr hplaced
      rw [hresult]
      refine Tells.compacted ?_ hcompacted
      exact ⟨htook.valid.marked (hplaced.config_eq ▸ hmarked) _,
        h.lists.took_marked h.valid.store p s hplaced.took hmarked,
        hmarked.totalSlots_eq.trans htook.totalSlots_eq, h.inserts_eq,
        congrArg (· + 1) h.updates_eq, h.deletes_eq, htook.spans⟩
  | compact => exact h.compacted h.valid.compact_spec.1
  | clear =>
    simp only [Index.perform, h.valid.clear_eq]
    exact tells_fresh h.valid.config
  | rebuild source =>
    simp only [Index.perform]
    cases hbuild : (Index.build x.config source).1 with
    | error e =>
      obtain ⟨hresult, hindex⟩ := Index.rebuild_of_error hbuild
      rw [hresult, hindex]
      exact h
    | ok x' =>
      obtain ⟨hresult, hindex⟩ := Index.rebuild_of_ok hbuild
      have hrebuilt := Index.build_spec h.valid.config hbuild
      rw [hresult, hindex]
      exact ⟨hrebuilt.valid, Listing.lists_numbered hrebuilt, hrebuilt.totalSlots_eq,
        congrArg Counters.inserts hrebuilt.counters_eq,
        congrArg Counters.updates hrebuilt.counters_eq,
        congrArg Counters.deletes hrebuilt.counters_eq, Index.spans_build h.valid.config hbuild⟩

/-- **And after every run**, in balance as before. -/
theorem Tells.run (h : y.Tells x) (hbalanced : y.Balanced) (ops : List (Operation I σ)) :
    let z := y.afterAll x.config ops (x.run ops).1
    z.Tells (x.run ops).2 ∧ z.Balanced := by
  induction ops generalizing x y with
  | nil => exact ⟨h, hbalanced⟩
  | cons op ops ih =>
    have hrest := ih (h.perform op) (hbalanced.after op (x.perform op).1)
    rw [(h.valid.perform op).2] at hrest
    exact hrest

/-! ## The statistics -/

/-- The statistics of an index are its tally. -/
structure Accounts (y : Tally I) (s : Stats) : Prop where
  /-- The live records are counted. -/
  activeRecords_eq : s.activeRecords = y.listing.length
  /-- They are what came in, less what went out. -/
  balance : s.activeRecords + s.deletes + y.dropped = y.rebuilt + s.inserts + s.updates
  /-- The insertions are counted. -/
  inserts_eq : s.inserts = y.inserted
  /-- So are the replacements. -/
  updates_eq : s.updates = y.updated
  /-- So are the deletions, those of replacements apart. -/
  deletes_eq : s.deletes = y.deleted
  /-- There are as many slots as records were live at most. -/
  totalSlots_eq : s.totalSlots = y.peak
  /-- The slots that are not live are free. -/
  freeSlots_eq : s.freeSlots = s.totalSlots - s.activeRecords
  /-- No more records are live than there are slots. -/
  activeRecords_le : s.activeRecords ≤ s.totalSlots
  /-- What is still to be purged is free already. -/
  tombstones_le : s.tombstones ≤ s.freeSlots
  /-- There is a length slot up to the longest value ever indexed. -/
  lengthSlots_eq : s.lengthSlots = if y.values = [] then 0 else 1 + longest y.values
  /-- Its length is the longest. -/
  maxLength_eq : s.maxLength = longest y.values
  /-- There is a position for each offset a byte was ever indexed at. -/
  positionEntries_eq : s.positionEntries = (startOffsets y.values).card + (endOffsets y.values).card

variable [SlotSized I]

theorem Tells.accounts (h : y.Tells x) (hbalanced : y.Balanced) : y.Accounts x.stats := by
  have hcount := h.valid.store.length_live_add
  have hactive := h.valid.store.length_live
  rw [← h.length_listing] at hcount hactive
  unfold Balanced at hbalanced
  refine ⟨hactive.symm, ?_, h.inserts_eq, h.updates_eq, h.deletes_eq, h.totalSlots_eq, ?_, ?_,
    h.valid.store.tombstoneCount_le, h.spans.slots_eq, h.spans.maxLength_eq,
    h.spans.entryCount_eq h.valid.tables.positional.toValid h.valid.tables.slots_le⟩
  · simp only [Index.stats, h.inserts_eq, h.updates_eq, h.deletes_eq]
    omega
  · simp only [Index.stats]
    omega
  · simp only [Index.stats]
    omega

end Tally

/-- The sizes that only ever grow are the same in two statistics. -/
structure Stats.SameExtent (s t : Stats) : Prop where
  /-- As many slots were made. -/
  totalSlots_eq : s.totalSlots = t.totalSlots
  /-- The longest length is the same. -/
  maxLength_eq : s.maxLength = t.maxLength
  /-- As many lengths have a slot. -/
  lengthSlots_eq : s.lengthSlots = t.lengthSlots
  /-- As many positions have a set. -/
  positionEntries_eq : s.positionEntries = t.positionEntries

namespace Tally

/-- Tallies with one peak and the same values tell of the same sizes. -/
theorem Accounts.sameExtent {I : Type} {y z : Tally I} {s t : Stats} (h : y.Accounts s)
    (h' : z.Accounts t) (hpeak : y.peak = z.peak) (hvalues : y.values = z.values) :
    s.SameExtent t where
  totalSlots_eq := by rw [h.totalSlots_eq, h'.totalSlots_eq, hpeak]
  maxLength_eq := by rw [h.maxLength_eq, h'.maxLength_eq, hvalues]
  lengthSlots_eq := by rw [h.lengthSlots_eq, h'.lengthSlots_eq, hvalues]
  positionEntries_eq := by rw [h.positionEntries_eq, h'.positionEntries_eq, hvalues]

end Tally

namespace Index

variable {I σ : Type} [SlotSized I] {c : Config}

/-- **The statistics account for the whole history.** After any run they are the
tally of what was done and answered, and neither deleting nor compacting takes
back a slot, a length or a position. -/
theorem stats_account_for_run {x₀ : Index I} (hc : withConfig c = .ok x₀)
    (ops : List (Operation I σ)) :
    let x := (x₀.run ops).2
    (({} : Tally I).afterAll c ops (x₀.run ops).1).Accounts x.stats ∧
      (∀ (τ : Type) (p : τ → I → Bool × τ) (s : τ), (x.delete p s).index.stats.SameExtent x.stats) ∧
      x.compact.index.stats.SameExtent x.stats := by
  intro x
  obtain ⟨hvalidate, rfl⟩ := fresh_of_withConfig hc
  obtain ⟨htells, hbalanced⟩ := (Tally.tells_fresh (I := I) hvalidate).run rfl ops
  have haccounts := htells.accounts hbalanced
  refine ⟨haccounts, fun τ p s => ?_, ?_⟩
  · have hdeleted := (htells.perform (.delete p s)).accounts (hbalanced.after (.delete p s) _)
    exact hdeleted.sameExtent haccounts rfl rfl
  · have hcompacted := (htells.perform (.compact : Operation I Unit)).accounts
      (hbalanced.after (.compact : Operation I Unit) _)
    exact hcompacted.sameExtent haccounts rfl rfl

/-- A replacement has its record before it drops another, so there are two slots
though no two records were ever visible. -/
theorem stats_after_replacement :
    let _ : SlotSized Nat := ⟨8⟩
    let all : Unit → Nat → Bool × Unit := fun s _ => (true, s)
    let x := ((fresh {} : Index Nat).run
      [.insert 1 [97, 98], .replace all () 2 [98], .delete all ()]).2
    x.stats.activeRecords = 0 ∧ x.stats.totalSlots = 2 ∧ x.stats.freeSlots = 2 ∧
      x.stats.lengthSlots = 3 ∧ x.stats.maxLength = 2 ∧ x.stats.positionEntries = 5 := by
  intro _ all x
  have haccounts := (stats_account_for_run (c := {}) rfl
    [.insert 1 [97, 98], .replace all () 2 [98], .delete all ()]).1
  have hactive : x.stats.activeRecords = 0 := haccounts.activeRecords_eq
  have htotal : x.stats.totalSlots = 2 := haccounts.totalSlots_eq
  refine ⟨hactive, htotal, ?_, haccounts.lengthSlots_eq, haccounts.maxLength_eq,
    haccounts.positionEntries_eq⟩
  rw [haccounts.freeSlots_eq, htotal, hactive]

end Index

end WildcardIndex
