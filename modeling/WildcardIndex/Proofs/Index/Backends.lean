import Mathlib.Data.List.Basic
import WildcardIndex.Proofs.Index.Timing
import WildcardIndex.Proofs.Index.Twins
import WildcardIndex.Proofs.Query.Traced
/-!
# The index — the backend does not show

Two runs make the same requests of indexes whose configurations differ in the
backend. The indexes are twins all along, so the responses are the same. And
neither run combines sets of different representations: done once more with a
trace, every pair of sets in it is of one backend. So the silent case, in which
a set is left as it was, is never met.

The trace leaves nothing out. Single records are put into sets and taken out
without a combination; everything else that a request leaves in the tables comes
of the sets there were by combining pairs of its trace (`accounted_respond`).
-/

namespace WildcardIndex

/-- What an index can be asked to do, and what can be asked of it. -/
inductive Request (I σ : Type) where
  /-- Make a call. -/
  | call (call : Call I σ)
  /-- Ask whether no record is live. -/
  | isEmpty
  /-- Ask whether enough records are tombstoned to compact. -/
  | needsCompaction
  /-- Compact if enough records are tombstoned. -/
  | compactIfNeeded

/-- What a request is answered. -/
inductive Response (I σ : Type) where
  /-- What a call is answered. -/
  | answer (a : Answer I σ)
  /-- Whether it is so. -/
  | test (holds : Bool)
  /-- How many records were purged. -/
  | purged (n : Nat)

/-! ## Operations with a trace -/

namespace Traced

variable {I σ : Type}

/-- Removes every record of a set from the tables: the set is subtracted from
each of theirs. -/
def subtract (t : Tables) (gone : RecordSet) : Traced Tables :=
  ⟨t.subtract gone, t.sets.map fun s => (s, gone)⟩

/-- Takes every tombstoned record out of the tables. -/
def compact (x : Index I) : Traced (Nat × Index I) :=
  let ⟨config, tables, store, counters⟩ := x
  let pending := store.tombstoneCount
  if pending = 0 then pure (0, ⟨config, tables, store, counters⟩)
  else do
    let (gone, store) := store.drain
    let tables ← subtract tables gone
    let done := counters.compactions + 1
    pure (pending, ⟨config, tables, store, { counters with compactions := done }⟩)

/-- Compacts if enough records are tombstoned. -/
def compactIfNeeded (x : Index I) : Traced (Nat × Index I) :=
  if x.needsCompaction then compact x else pure (0, x)

/-- Compacts if enough records are tombstoned and the index does so by itself. -/
def compactAfterwards (x : Index I) : Traced (Nat × Index I) :=
  if x.config.autoCompact then compactIfNeeded x else pure (0, x)

/-- Performs an operation. What inserts, clears or rebuilds puts single records
into sets and takes them out, and combines none. -/
def perform (x : Index I) : Operation I σ → Traced (Reply σ × Index I)
  | .delete p s => do
    let ⟨config, tables, store, counters⟩ := x
    let (removed, s, store) := Index.markChosen store p s store.live
    let counters := { counters with deletes := counters.deletes + removed }
    let (_, x) ← compactAfterwards ⟨config, tables, store, counters⟩
    pure (.deleted removed s, x)
  | .replace p s identifier v =>
    match x.place identifier v with
    | ⟨.error e, x, _⟩ => pure (.replaced (.error e) s, x)
    | ⟨.ok r, ⟨config, tables, store, counters⟩, _⟩ => do
      let (_, s, store) := Index.markChosen store p s (store.live.filter (·.1 != r))
      let counters := { counters with updates := counters.updates + 1 }
      let (_, x) ← compactAfterwards ⟨config, tables, store, counters⟩
      pure (.replaced (.ok r) s, x)
  | .compact => do
    let (purged, x) ← compact x
    pure (.compacted purged, x)
  | .insert identifier v => pure (x.perform (.insert identifier v))
  | .clear => pure (x.perform .clear)
  | .rebuild source => pure (x.perform (.rebuild source))

variable {x : Index I}

@[simp] theorem value_compact : (compact x).value = (x.compact.result, x.compact.index) := by
  obtain ⟨config, tables, store, counters⟩ := x
  simp only [compact, Index.compact]
  split <;> rfl

@[simp] theorem value_compactIfNeeded :
    (compactIfNeeded x).value = (x.compactIfNeeded.result, x.compactIfNeeded.index) := by
  rw [compactIfNeeded, Index.compactIfNeeded]
  split
  · exact value_compact
  · rfl

@[simp] theorem value_compactAfterwards :
    (compactAfterwards x).value = (x.compactAfterwards.result, x.compactAfterwards.index) := by
  rw [compactAfterwards, Index.compactAfterwards]
  split
  · exact value_compactIfNeeded
  · rfl

theorem value_perform (op : Operation I σ) : (perform x op).value = x.perform op := by
  obtain ⟨config, tables, store, counters⟩ := x
  cases op with
  | delete p s =>
    simp only [perform, Index.perform, Index.delete, value_bind, value_compactAfterwards]
    rfl
  | replace p s identifier v =>
    simp only [perform, Index.perform, Index.replace]
    generalize Index.place ⟨config, tables, store, counters⟩ identifier v = o
    obtain ⟨_ | r, ⟨config, tables, store, counters⟩, events⟩ := o
    · rfl
    · simp only [value_bind, value_compactAfterwards]
      rfl
  | compact =>
    simp only [perform, Index.perform, value_bind, value_compact]
    rfl
  | _ => rfl

end Traced

namespace Index

open Traced

variable {I σ : Type} {x y : Index I} {c d : Config}

/-- The sets an index combines: those of its tables, and the tombstones. -/
def sets (x : Index I) : Set RecordSet := {s | s = x.store.tombstones ∨ s ∈ x.tables.sets}

theorem tombstones_mem_sets : x.store.tombstones ∈ x.sets := .inl rfl

theorem Valid.gives (h : x.Valid) : x.tables.Gives x.config.backend x.sets :=
  ⟨h.tables.valid, fun _ hs => .inr hs⟩

theorem Valid.valid_of_mem_sets (h : x.Valid) {s : RecordSet} (hs : s ∈ x.sets) :
    s.Valid x.config.backend := by
  rcases hs with rfl | hs
  · exact h.store.tombstones
  · exact h.tables.valid.valid_of_mem_sets hs

/-- The index that an operation leaves to the compaction at its end. Up to there
single records are put into sets and taken out, and no two sets are combined. -/
def beforeCompaction (x : Index I) : Operation I σ → Index I
  | .delete p s => { x with store := (markChosen x.store p s x.store.live).2.2 }
  | .replace p s identifier v =>
    let o := x.place identifier v
    match o.result with
    | .error _ => o.index
    | .ok r =>
      { o.index with
        store := (markChosen o.index.store p s (o.index.store.live.filter (·.1 != r))).2.2 }
  | .compact => x
  | op => (x.perform op).2

/-- The sets of the tables after a subtraction are what its pairs make. -/
theorem accounted_subtract {b : Backend} {given : Set RecordSet} {t : Tables} {gone : RecordSet}
    (ht : ∀ s ∈ t.sets, s ∈ given) (hgone : gone ∈ given) :
    (Traced.subtract t gone).Accounted b given fun t => {s | s ∈ t.sets} := by
  refine ⟨fun s hs => ?_, fun e he => ?_⟩
  · obtain ⟨u, hu, rfl⟩ := List.mem_map.1 (Tables.sets_subtract t gone ▸ hs)
    exact .diff (List.mem_map.2 ⟨u, hu, rfl⟩) (.given (ht u hu)) (.given hgone)
  · obtain ⟨u, hu, rfl⟩ := List.mem_map.1 he
    exact ⟨.given (ht u hu), .given hgone⟩

variable {b : Backend} {given : Set RecordSet}

theorem accounted_compact (hx : x.sets ⊆ given) :
    (Traced.compact x).Accounted b given fun o => {s | s ∈ o.2.tables.sets} := by
  obtain ⟨config, tables, store, counters⟩ := x
  unfold Traced.compact
  simp only
  split
  · exact accounted_pure fun s hs => .given (hx (.inr hs))
  · have hsubtract : (Traced.subtract tables store.tombstones).Accounted b given
        fun t => {s | s ∈ t.sets} :=
      accounted_subtract (fun s hs => hx (.inr hs)) (hx (.inl rfl))
    exact hsubtract.bind (accounted_pure fun s hs => .given (.inr hs))

theorem accounted_compactIfNeeded (hx : x.sets ⊆ given) :
    (Traced.compactIfNeeded x).Accounted b given fun o => {s | s ∈ o.2.tables.sets} := by
  unfold Traced.compactIfNeeded
  split
  · exact accounted_compact hx
  · exact accounted_pure fun s hs => .given (hx (.inr hs))

theorem accounted_compactAfterwards (hx : x.sets ⊆ given) :
    (Traced.compactAfterwards x).Accounted b given fun o => {s | s ∈ o.2.tables.sets} := by
  unfold Traced.compactAfterwards
  split
  · exact accounted_compactIfNeeded hx
  · exact accounted_pure fun s hs => .given (hx (.inr hs))

/-- **The trace of an operation leaves nothing out**: from what it leaves to its
compaction on, the sets of the tables are what the pairs of the trace make. -/
theorem accounted_perform (x : Index I) (op : Operation I σ) :
    (Traced.perform x op).Accounted b (x.beforeCompaction op).sets
      fun o => {s | s ∈ o.2.tables.sets} := by
  cases op with
  | delete p s =>
    refine Accounted.bind (accounted_compactAfterwards ?_) ?_
    · exact subset_rfl
    · exact accounted_pure fun u hu => .given (.inr hu)
  | replace p s identifier v =>
    simp only [Traced.perform, beforeCompaction]
    generalize x.place identifier v = o
    obtain ⟨_ | r, ⟨config, tables, store, counters⟩, events⟩ := o
    · exact accounted_pure fun u hu => .given (.inr hu)
    · refine Accounted.bind (accounted_compactAfterwards ?_) ?_
      · exact subset_rfl
      · exact accounted_pure fun u hu => .given (.inr hu)
  | compact =>
    refine (accounted_compact subset_rfl).bind (accounted_pure ?_)
    exact fun u hu => .given (.inr hu)
  | insert identifier v => exact accounted_pure fun u hu => .given (.inr hu)
  | clear => exact accounted_pure fun u hu => .given (.inr hu)
  | rebuild source => exact accounted_pure fun u hu => .given (.inr hu)

theorem Valid.beforeCompaction (h : x.Valid) (op : Operation I σ) :
    (x.beforeCompaction op).Valid ∧ (x.beforeCompaction op).config = x.config := by
  cases op with
  | delete p s =>
    obtain ⟨store', hmarks, hmarked⟩ := markChosen_spec h.store p s (List.Sublist.refl _)
    refine ⟨?_, rfl⟩
    simp only [Index.beforeCompaction, hmarks]
    exact h.marked hmarked x.counters
  | replace p s identifier v =>
    simp only [Index.beforeCompaction]
    cases hr : x.store.next? with
    | none =>
      obtain ⟨hresult, hindex⟩ := h.place_of_next?_eq_none hr identifier v
      rw [hresult, hindex]
      exact ⟨h, rfl⟩
    | some r =>
      obtain ⟨hresult, hplaced⟩ := h.place_of_next? hr identifier v
      obtain ⟨store', hmarks, hmarked⟩ := markChosen_spec hplaced.valid.store p s
        (List.filter_sublist (p := (·.1 != r)))
      simp only [hresult, hmarks]
      exact ⟨hplaced.valid.marked hmarked _, hplaced.config_eq⟩
  | compact => exact ⟨h, rfl⟩
  | insert identifier v => exact h.perform (σ := σ) (.insert identifier v)
  | clear => exact h.perform (σ := σ) .clear
  | rebuild source => exact h.perform (σ := σ) (.rebuild source)

/-- The index whose sets a request combines, if it does. -/
def asked (x : Index I) : Request I σ → Index I
  | .call (.change op) => x.beforeCompaction op
  | _ => x

theorem Valid.asked (h : x.Valid) (request : Request I σ) :
    (x.asked request).Valid ∧ (x.asked request).config = x.config := by
  unfold Index.asked
  split
  · exact h.beforeCompaction _
  · exact ⟨h, rfl⟩

/-! ## Requests -/

variable [SlotSized I]

/-- Answers a request. Of the statistics, the backend and the memory are left
out. -/
def respond (x : Index I) : Request I σ → Response I σ × Index I
  | .call .stats => (.answer (.stats x.portableStats), x)
  | .call call =>
    let (a, x) := x.answer call
    (.answer a, x)
  | .isEmpty => (.test x.isEmpty, x)
  | .needsCompaction => (.test x.needsCompaction, x)
  | .compactIfNeeded =>
    let o := x.compactIfNeeded
    (.purged o.result, o.index)

/-- What the requests of a run are answered, one after the other. -/
def responses (x : Index I) : List (Request I σ) → List (Response I σ)
  | [] => []
  | request :: requests =>
    let (a, x) := x.respond request
    a :: x.responses requests

theorem Valid.respond (h : x.Valid) (request : Request I σ) :
    (x.respond request).2.Valid ∧ (x.respond request).2.config = x.config := by
  cases request with
  | call call =>
    cases call with
    | change op => exact h.perform op
    | _ => exact ⟨h, rfl⟩
  | isEmpty => exact ⟨h, rfl⟩
  | needsCompaction => exact ⟨h, rfl⟩
  | compactIfNeeded =>
    simp only [Index.respond, Index.compactIfNeeded]
    split
    · exact ⟨h.compact_spec.1.valid, h.compact_spec.1.config_eq⟩
    · exact ⟨h, rfl⟩

/-- **Twins respond the same to every request**, and stay twins. -/
theorem Twin.respond (h : x.Twin y) (hx : x.Valid) (hy : y.Valid) (request : Request I σ) :
    (x.respond request).1 = (y.respond request).1 ∧
      (x.respond request).2.Twin (y.respond request).2 := by
  have hcontent := h.store.content?_eq
  cases request with
  | call call =>
    cases call with
    | change op =>
      obtain ⟨hreply, htwin⟩ := h.perform hx hy op
      exact ⟨congrArg (Response.answer ∘ Answer.reply) hreply, htwin⟩
    | matching pattern =>
      exact ⟨congrArg (Response.answer ∘ Answer.records)
        (toList_matching_congr hcontent hx hy pattern), h⟩
    | matchingBy compare pattern =>
      exact ⟨congrArg (Response.answer ∘ Answer.identifiers)
        (matchingBy_congr hcontent hx hy compare pattern), h⟩
    | containing a =>
      exact ⟨congrArg (Response.answer ∘ Answer.records)
        (toList_containing_congr hcontent hx hy a), h⟩
    | identifier r =>
      exact ⟨congrArg (Response.answer ∘ Answer.identifier) (identifier?_congr hcontent r), h⟩
    | size => exact ⟨congrArg (Response.answer ∘ Answer.size) (size_congr h.store.toAlike), h⟩
    | stats => exact ⟨congrArg (Response.answer ∘ Answer.stats) (h.portableStats hx hy), h⟩
  | isEmpty =>
    refine ⟨?_, h⟩
    simp only [Index.respond, isEmpty, size_congr h.store.toAlike]
  | needsCompaction => exact ⟨congrArg Response.test (h.needsCompaction_eq hx hy), h⟩
  | compactIfNeeded =>
    obtain ⟨hresult, htwin⟩ := h.compactIfNeeded hx hy
    exact ⟨congrArg Response.purged hresult, htwin⟩

theorem Twin.responses (h : x.Twin y) (hx : x.Valid) (hy : y.Valid)
    (requests : List (Request I σ)) : x.responses requests = y.responses requests := by
  induction requests generalizing x y with
  | nil => rfl
  | cons request requests ih =>
    obtain ⟨hresponse, htwin⟩ := h.respond hx hy request
    have hrest := ih htwin (hx.respond request).1 (hy.respond request).1
    exact congrArg₂ List.cons hresponse hrest

end Index

/-! ## Requests with a trace -/

namespace Traced

variable {I σ : Type} [SlotSized I] {x : Index I}

/-- Answers a request. -/
def respond (x : Index I) : Request I σ → Traced (Response I σ × Index I)
  | .call (.change op) => do
    let (reply, x) ← perform x op
    pure (.answer (.reply reply), x)
  | .call (.matching pattern) => do
    let found ← answer x.tables x.store.tombstones (.ofBytes pattern)
    pure (.answer (.records found.toList), x)
  | .call (.matchingBy compare pattern) => do
    let found ← answer x.tables x.store.tombstones (.ofBytes pattern)
    pure (.answer (.identifiers (x.identifiersBy compare found)), x)
  | .call (.containing a) => do
    let present := (x.tables.positional.presence? a).getD (.empty x.tables.positional.backend)
    let found ← diff present x.store.tombstones
    pure (.answer (.records found.toList), x)
  | .compactIfNeeded => do
    let (purged, x) ← compactIfNeeded x
    pure (.purged purged, x)
  | request => pure (x.respond request)

/-- Answers the requests of a run. -/
def responses (x : Index I) : List (Request I σ) → Traced (List (Response I σ))
  | [] => pure []
  | request :: requests => do
    let (a, x) ← respond x request
    let as ← responses x requests
    pure (a :: as)

theorem value_respond (request : Request I σ) : (respond x request).value = x.respond request := by
  cases request with
  | call call =>
    cases call with
    | change op =>
      simp only [respond, value_bind, value_perform]
      rfl
    | matching pattern =>
      simp only [respond, value_bind, value_answer]
      rfl
    | matchingBy compare pattern =>
      simp only [respond, value_bind, value_answer]
      rfl
    | _ => rfl
  | compactIfNeeded =>
    simp only [respond, value_bind, value_compactIfNeeded]
    rfl
  | isEmpty => rfl
  | needsCompaction => rfl

/-- **A traced run is the run.** -/
theorem value_responses (requests : List (Request I σ)) :
    (responses x requests).value = x.responses requests := by
  induction requests generalizing x with
  | nil => rfl
  | cons request requests ih =>
    simp only [responses, value_bind, value_respond, value_pure, ih]
    rfl

end Traced

namespace Index

open Traced

variable {I σ : Type} [SlotSized I] {x y : Index I} {c d : Config}

/-- **The trace of a request leaves nothing out.** -/
theorem Valid.accounted_respond (h : x.Valid) (request : Request I σ) :
    (Traced.respond x request).Accounted x.config.backend (x.asked request).sets
      fun o => {s | s ∈ o.2.tables.sets} := by
  have hstays : ∀ (a : Response I σ) {given : Set RecordSet}, x.sets ⊆ given →
      (pure (a, x) : Traced (Response I σ × Index I)).Accounted x.config.backend given
        fun o => {s | s ∈ o.2.tables.sets} :=
    fun a _ hgiven => accounted_pure fun s hs => .given (hgiven (.inr hs))
  have hanswer := h.gives.accounted_answer tombstones_mem_sets
  cases request with
  | call call =>
    cases call with
    | change op => exact (accounted_perform x op).bind (accounted_pure fun s hs => .given (.inr hs))
    | matching pattern => exact (hanswer _).bind (hstays _ Set.subset_union_left)
    | matchingBy compare pattern => exact (hanswer _).bind (hstays _ Set.subset_union_left)
    | containing a =>
      exact (accounted_diff (h.gives.made_present a) (.given tombstones_mem_sets)).bind
        (hstays _ Set.subset_union_left)
    | _ => exact hstays _ subset_rfl
  | compactIfNeeded =>
    refine (accounted_compactIfNeeded subset_rfl).bind (accounted_pure ?_)
    exact fun s hs => .given (.inr hs)
  | isEmpty => exact hstays _ subset_rfl
  | needsCompaction => exact hstays _ subset_rfl

/-- **So a request combines sets of the backend only.** -/
theorem Valid.uniform_respond (h : x.Valid) (request : Request I σ) :
    (Traced.respond x request).Uniform x.config.backend := by
  obtain ⟨hvalid, hconfig⟩ := h.asked request
  refine (h.accounted_respond request).uniform fun s hs => ?_
  rw [← hconfig]
  exact hvalid.valid_of_mem_sets hs

/-- **A run combines sets of the backend only.** -/
theorem Valid.uniform_responses (h : x.Valid) (requests : List (Request I σ)) :
    (Traced.responses x requests).Uniform x.config.backend := by
  induction requests generalizing x with
  | nil => exact uniform_pure _
  | cons request requests ih =>
    obtain ⟨hvalid, hconfig⟩ := h.respond request
    refine (h.uniform_respond request).bind ?_
    rw [value_respond]
    refine Uniform.bind ?_ (uniform_pure _)
    rw [← hconfig]
    exact ih hvalid

/-- **The backend does not show.** Two runs from fresh indexes whose
configurations differ at most in the backend, with the same requests, get the
same responses. And a pair of sets that either run combines is always of one
backend. -/
theorem responses_eq_of_twin {x₀ y₀ : Index I} (hx : withConfig c = .ok x₀)
    (hy : withConfig d = .ok y₀) (hconfig : c.Twin d) (requests : List (Request I σ)) :
    x₀.responses requests = y₀.responses requests ∧
      (Traced.responses x₀ requests).value = x₀.responses requests ∧
      (Traced.responses y₀ requests).value = y₀.responses requests ∧
      ∀ e ∈ (Traced.responses x₀ requests).pairs ++ (Traced.responses y₀ requests).pairs,
        e.1.backend = e.2.backend := by
  obtain ⟨hvalidate, rfl⟩ := fresh_of_withConfig hx
  obtain ⟨hvalidate', rfl⟩ := fresh_of_withConfig hy
  have hvalid : (fresh c : Index I).Valid := valid_fresh hvalidate
  have hvalid' : (fresh d : Index I).Valid := valid_fresh hvalidate'
  refine ⟨(twin_fresh hconfig).responses hvalid hvalid' requests, value_responses requests,
    value_responses requests, fun e he => ?_⟩
  rcases List.mem_append.1 he with he | he
  · obtain ⟨hfst, hsnd⟩ := hvalid.uniform_responses requests e he
    exact hfst.trans hsnd.symm
  · obtain ⟨hfst, hsnd⟩ := hvalid'.uniform_responses requests e he
    exact hfst.trans hsnd.symm

/-- What was deleted is gone from both, which find the other value only, and both
combine sets to leave it out. -/
theorem responses_after_deletion :
    let _ : SlotSized Nat := ⟨8⟩
    let requests : List (Request Nat Unit) :=
      [.call (.change (.insert 1 [97, 98])), .call (.change (.insert 2 [97, 99])),
        .call (.change (.delete (fun s i => (i == 1, s)) ())), .call (.matching [97, 37]),
        .call .stats]
    let responses := (fresh {} : Index Nat).responses requests
    let pairs := (Traced.responses (fresh { backend := .dense } : Index Nat) requests).pairs
    responses = (fresh { backend := .dense } : Index Nat).responses requests ∧
      responses[3]? = some (.answer (.records [1])) ∧
      pairs ≠ [] ∧ ∀ e ∈ pairs, e.1.backend = e.2.backend := by
  intro _ requests responses pairs
  obtain ⟨hsame, -, -, hpairs⟩ := responses_eq_of_twin (c := {}) (d := { backend := .dense })
    rfl rfl rfl requests
  let x := ((fresh {} : Index Nat).run
    [.insert 1 [97, 98], .insert 2 [97, 99], .delete (fun (s : Unit) i => (i == 1, s)) ()]).2
  have hfound : (x.matching [97, 37]).toList = [1] := by decide +kernel
  refine ⟨hsame, ?_, by decide +kernel, fun e he => hpairs e (List.mem_append_right _ he)⟩
  rw [← hfound]
  rfl

end Index

end WildcardIndex
