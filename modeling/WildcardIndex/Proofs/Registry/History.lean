import WildcardIndex.Proofs.Registry.Calls
/-!
# The registry — a handle leads to one index

Calls on a registry leave a history behind: which index was registered under
which handle, which handles were taken off the list, and what was done to an
index through its handle. A registry shows what the history tells. A handle is
never given to two indexes, **and whatever is done through it is done to its
index and to no other**, also after it was taken off the list.
-/

namespace WildcardIndex

namespace Registry

/-- A call on a registry, or on an index that was handed out by it. -/
inductive Action (I σ : Type) where
  /-- Build an index from a source and register it. -/
  | build (source : Source I)
  /-- Register an index. -/
  | register (x : Index I)
  /-- Ask for the index under a handle. -/
  | load (handle : Nat)
  /-- Rebuild the index under a handle. -/
  | rebuild (handle : Nat) (source : Source I)
  /-- Take the index under a handle off the list. -/
  | remove (handle : Nat)
  /-- Change the index that was handed out under a handle, listed or not. -/
  | change (handle : Nat) (op : Operation I σ)

/-- What came of a call that changed something. -/
inductive Fact (I σ : Type) where
  /-- An index was registered under a handle. -/
  | registered (handle : Nat) (x : Index I)
  /-- A handle was taken off the list. -/
  | removed (handle : Nat)
  /-- The index under a handle was changed. -/
  | changed (handle : Nat) (op : Operation I σ)

/-- What came of the calls so far, the last one first. -/
abbrev History (I σ : Type) := List (Fact I σ)

namespace History

variable {I σ : Type}

/-- The handles that were given out, the last one first. -/
def given : History I σ → List Nat
  | [] => []
  | .registered handle _ :: past => handle :: given past
  | .removed _ :: past => given past
  | .changed _ _ :: past => given past

/-- The handles that were taken off the list. -/
def removed : History I σ → List Nat
  | [] => []
  | .registered _ _ :: past => removed past
  | .removed handle :: past => handle :: removed past
  | .changed _ _ :: past => removed past

/-- The index that was registered under a handle, as it was then. -/
def start? : History I σ → Nat → Option (Index I)
  | [], _ => none
  | .registered h x :: past, handle => if handle = h then some x else start? past handle
  | .removed _ :: past, handle => start? past handle
  | .changed _ _ :: past, handle => start? past handle

/-- What was done to the index under a handle since it was registered, in
order. -/
def changes : History I σ → Nat → List (Operation I σ)
  | [], _ => []
  | .registered h _ :: past, handle => if handle = h then [] else changes past handle
  | .removed _ :: past, handle => changes past handle
  | .changed h op :: past, handle =>
    if handle = h then changes past handle ++ [op] else changes past handle

/-- The handles that were given out and not taken off the list, in order. -/
def listed (past : History I σ) : List Nat := past.given.reverse.filter (· ∉ past.removed)

end History

variable {I σ : Type} {g : Registry I} {past : History I σ} {handle h k : Nat} {x : Index I}

/-- Makes one call: what came of it, and the registry after. -/
def act (g : Registry I) : Action I σ → History I σ × Registry I
  | .build source =>
    let (result, g', _) := g.build source
    (match result with
      | .ok handle => [.registered handle ((Index.fresh g.config).rebuild source).index]
      | .error _ => [], g')
  | .register x =>
    let (handle, g', _) := g.register x
    ([.registered handle x], g')
  | .load _ => ([], g)
  | .rebuild handle source =>
    let (result, g', _) := g.rebuild handle source
    (match result with
      | .ok () => [.changed handle (.rebuild source)]
      | .error _ => [], g')
  | .remove handle =>
    let (result, g', _) := g.remove handle
    (match result with
      | .ok _ => [.removed handle]
      | .error _ => [], g')
  | .change handle op =>
    match g.held? handle with
    | some x => ([.changed handle op], g.setIndex handle (x.perform op).2)
    | none => ([], g)

/-- Makes calls one after the other, which adds to the history. -/
def actAll (g : Registry I) (past : History I σ) : List (Action I σ) → History I σ × Registry I
  | [] => (past, g)
  | action :: actions =>
    let (facts, g) := g.act action
    g.actAll (facts ++ past) actions

/-! ## The history tells the registry -/

/-- A registry is as its history tells. -/
structure Recalls (past : History I σ) (g : Registry I) : Prop where
  /-- The configuration is acceptable. -/
  config : g.config.validate = .ok ()
  /-- Handles are numbered from 1. -/
  given_eq : past.given = (List.range' 1 g.entries.size).reverse
  /-- Only handles that were given out are taken off the list. -/
  removed_le : ∀ h ∈ past.removed, h ≤ g.entries.size
  /-- Under a handle is the index it was given to, changed as it was. -/
  entry?_eq : ∀ h, g.entry? h = (past.start? h).map fun x =>
    ⟨(x.run (past.changes h)).2, decide (h ∉ past.removed)⟩

theorem recalls_fresh {c : Config} (hc : c.validate = .ok ()) :
    Recalls ([] : History I σ) (fresh c) where
  config := hc
  given_eq := rfl
  removed_le := nofun
  entry?_eq h := by simp [ entry?, fresh, History.start?]

/-- Registering gives out the next handle. -/
theorem Recalls.register (hr : Recalls past g) (x : Index I) :
    Recalls (.registered (g.entries.size + 1) x :: past) (g.register x).2.1 where
  config := hr.config
  given_eq := by
    rw [Registry.register, Array.size_push, List.range'_concat, List.reverse_append, ← hr.given_eq,
      Nat.one_mul, Nat.add_comm 1]
    rfl
  removed_le h hh := by
    rw [Registry.register, Array.size_push]
    exact Nat.le_succ_of_le (hr.removed_le h hh)
  entry?_eq h := by
    rw [entry?_register, hr.entry?_eq]
    simp only [History.start?, History.changes, History.removed]
    split
    · rename_i heq
      have hnot : h ∉ past.removed := fun hh => by
        have := hr.removed_le h hh
        omega
      simp [hnot, Index.run]
    · rfl

/-- A change is one of the index under its handle. -/
theorem Recalls.change (hr : Recalls past g) (hx : g.held? handle = some x) (op : Operation I σ) :
    Recalls (.changed handle op :: past) (g.setIndex handle (x.perform op).2) where
  config := hr.config
  given_eq := by
    rw [setIndex, Array.size_modify]
    exact hr.given_eq
  removed_le h hh := by
    rw [setIndex, Array.size_modify]
    exact hr.removed_le h hh
  entry?_eq h := by
    have hsome : (g.entry? handle).isSome := by
      rw [← Option.isSome_map, ← held?, hx]
      rfl
    rw [entry?_setIndex hsome]
    simp only [History.start?, History.changes, History.removed]
    split
    · rename_i heq
      subst heq
      rw [held?, hr.entry?_eq] at hx
      rw [hr.entry?_eq]
      cases hstart : past.start? h with
      | none => rfl
      | some y =>
        rw [hstart, Option.map_some, Option.map_some, Option.some.injEq] at hx
        subst hx
        rw [Option.map_some, Option.map_some, Option.map_some, Index.run_concat]
        rfl
    · exact hr.entry?_eq h

/-- Taking a handle off the list leaves its index as it is. -/
theorem Recalls.unlist (hr : Recalls past g) (hload : g.load handle = .ok x) :
    Recalls (.removed handle :: past) (g.unlist handle) where
  config := hr.config
  given_eq := by
    rw [Registry.unlist, Array.size_modify]
    exact hr.given_eq
  removed_le h hh := by
    rw [Registry.unlist, Array.size_modify]
    rcases List.mem_cons.1 hh with rfl | hh
    · exact (isSome_entry?_iff.1 (by rw [load_eq_ok_iff.1 hload]; rfl)).2
    · exact hr.removed_le h hh
  entry?_eq h := by
    have hsome : (g.entry? handle).isSome := by
      rw [load_eq_ok_iff.1 hload]
      rfl
    rw [Registry.unlist, entry?_modify g (ne_zero_of_isSome hsome), hr.entry?_eq]
    simp only [History.start?, History.changes, History.removed, List.mem_cons]
    split
    · rename_i heq
      simp [heq, Option.map_map, Function.comp_def]
    · rename_i hne
      simp [hne]

/-- **Every call leaves a registry as its history tells.** -/
theorem Recalls.act (hr : Recalls past g) (action : Action I σ) :
    Recalls ((g.act action).1 ++ past) (g.act action).2 := by
  cases action with
  | build source =>
    simp only [Registry.act]
    cases hresult : ((Index.fresh g.config).rebuild source).result with
    | error e =>
      obtain ⟨hbuilt, hg⟩ := build_of_error hr.config hresult
      rw [hbuilt, hg]
      exact hr
    | ok =>
      obtain ⟨hbuilt, hg⟩ := build_of_ok hr.config hresult
      rw [hbuilt, hg]
      exact hr.register _
  | register x => exact hr.register x
  | load handle => exact hr
  | rebuild handle source =>
    simp only [Registry.act]
    by_cases hh : handle ∈ g.handles
    · obtain ⟨x, hx⟩ := mem_handles.1 hh
      obtain ⟨hresult, hg⟩ := rebuild_of_load (load_eq_ok_iff.2 hx) source
      rw [hresult, hg]
      have hheld : g.held? handle = some x := by rw [held?, hx]; rfl
      cases hbuild : (Index.build x.config source).1 with
      | error e =>
        obtain ⟨hresult, hindex⟩ := Index.rebuild_of_error hbuild
        rw [hresult, hindex, setIndex_self hx]
        exact hr
      | ok y =>
        obtain ⟨hresult, hindex⟩ := Index.rebuild_of_ok hbuild
        rw [hresult]
        exact hr.change hheld (.rebuild source)
    · obtain ⟨hresult, hg⟩ := rebuild_of_not_mem hh source
      rw [hresult, hg]
      exact hr
  | remove handle =>
    simp only [Registry.act]
    by_cases hh : handle ∈ g.handles
    · obtain ⟨x, hx⟩ := mem_handles.1 hh
      obtain ⟨hresult, hg⟩ := remove_of_load (load_eq_ok_iff.2 hx)
      rw [hresult, hg]
      exact hr.unlist (load_eq_ok_iff.2 hx)
    · obtain ⟨hresult, hg⟩ := remove_of_not_mem hh
      rw [hresult, hg]
      exact hr
  | change handle op =>
    simp only [Registry.act]
    cases hx : g.held? handle with
    | none => exact hr
    | some x => exact hr.change hx op

theorem Recalls.actAll (hr : Recalls past g) (actions : List (Action I σ)) :
    Recalls (g.actAll past actions).1 (g.actAll past actions).2 := by
  induction actions generalizing past g with
  | nil => exact hr
  | cons action actions ih => exact ih (hr.act action)

/-! ## What a registry shows -/

/-- A registry shows what its history tells. -/
structure Accounts (past : History I σ) (g : Registry I) : Prop where
  /-- Handles ascend, so none is ever given out twice. -/
  given_ascending : past.given.Pairwise (· > ·)
  /-- The list has the handles that were given out and not taken off it. -/
  handles_eq : g.handles = past.listed
  /-- It ascends. -/
  handles_ascending : g.handles.Pairwise (· < ·)
  /-- The size is its length. -/
  size_eq : g.size = past.listed.length
  /-- A handle on it leads to the index it was given to, with what was done to
  that index since. -/
  load_of_mem : ∀ h ∈ g.handles,
    ∃ x, past.start? h = some x ∧ g.load h = .ok (x.run (past.changes h)).2

theorem Recalls.mem_handles_iff (hr : Recalls past g) :
    h ∈ g.handles ↔ h ∈ past.given ∧ h ∉ past.removed := by
  have hgiven : h ∈ past.given ↔ (g.entry? h).isSome := by
    rw [hr.given_eq, List.mem_reverse, List.mem_range'_1, isSome_entry?_iff]
    omega
  rw [mem_handles, hgiven, hr.entry?_eq]
  cases past.start? h with
  | none => simp
  | some x => simp

/-- **A registry that recalls its history shows it.** -/
theorem Recalls.accounts (hr : Recalls past g) : Accounts past g := by
  have hascending : past.given.reverse.Pairwise (· < ·) := by
    rw [hr.given_eq, List.reverse_reverse]
    exact List.pairwise_lt_range'
  have hhandles : g.handles = past.listed := by
    refine (pairwise_handles g).eq_of_mem_iff (hascending.sublist List.filter_sublist) fun h => ?_
    rw [hr.mem_handles_iff, History.listed, List.mem_filter, List.mem_reverse, decide_eq_true_iff]
  refine ⟨List.pairwise_reverse.1 hascending, hhandles, pairwise_handles g,
    congrArg List.length hhandles, fun h hh => ?_⟩
  obtain ⟨y, hy⟩ := mem_handles.1 hh
  have hload := load_eq_ok_iff.2 hy
  rw [hr.entry?_eq] at hy
  obtain ⟨x, hx, heq⟩ := Option.map_eq_some_iff.1 hy
  rw [Registration.mk.injEq] at heq
  exact ⟨x, hx, heq.1 ▸ hload⟩

/-- What a registry answers, and what its calls leave alone. -/
structure Isolated (g : Registry I) : Prop where
  /-- Loading fails with the handle exactly if that is not listed. -/
  load_eq_error_iff : ∀ h k, g.load h = .error (.unknownHandle k) ↔ k = h ∧ h ∉ g.handles
  /-- So does rebuilding, -/
  rebuild_eq_error_iff : ∀ h source k,
    (g.rebuild h source).1 = .error (.unknownHandle k) ↔ k = h ∧ h ∉ g.handles
  /-- and so does removing. -/
  remove_eq_error_iff : ∀ h k,
    (g.remove h).1 = .error (.unknownHandle k) ↔ k = h ∧ h ∉ g.handles
  /-- A build fails as the rebuild of a new index does, and leaves no trace. -/
  build_failed : ∀ source e, ((Index.fresh g.config).rebuild source).result = .error e →
    (g.build source).1 = .error e ∧ (g.build source).2.1 = g
  /-- Else it registers that index. -/
  build_done : ∀ source, ((Index.fresh g.config).rebuild source).result = .ok () →
    ∃ h, (g.build source).1 = .ok h ∧
      (g.build source).2.1.load h = .ok ((Index.fresh g.config).rebuild source).index
  /-- Under a handle that is listed, a rebuild answers what rebuilding its index
  answers, and leaves there what that leaves. -/
  rebuild_listed : ∀ h x, g.load h = .ok x → ∀ source,
    (g.rebuild h source).1 = (x.rebuild source).result ∧
      (g.rebuild h source).2.1.load h = .ok (x.rebuild source).index
  /-- A rebuild that fails leaves the registry as it was. -/
  rebuild_failed : ∀ h source e, (g.rebuild h source).1 = .error e → (g.rebuild h source).2.1 = g
  /-- One that goes through rebuilds the index under its handle, -/
  rebuild_done : ∀ h source, (g.rebuild h source).1 = .ok () → ∃ x, g.load h = .ok x ∧
    (x.rebuild source).result = .ok () ∧
      (g.rebuild h source).2.1.load h = .ok (x.rebuild source).index
  /-- and no other. -/
  rebuild_others : ∀ h source k, k ≠ h → Registry.entry? (g.rebuild h source).2.1 k = g.entry? k

/-- With an acceptable configuration, no call meddles with another's index. -/
theorem isolated (hc : g.config.validate = .ok ()) : Isolated g where
  load_eq_error_iff h k := load_eq_error_iff
  rebuild_eq_error_iff h source k := by
    by_cases hh : h ∈ g.handles
    · obtain ⟨x, -, hresult, -⟩ := rebuild_of_mem hh source
      rw [hresult]
      simp [hh, Index.rebuild_ne_unknownHandle]
    · rw [(rebuild_of_not_mem hh source).1]
      simp [hh, eq_comm]
  remove_eq_error_iff h k := by
    by_cases hh : h ∈ g.handles
    · obtain ⟨x, hx⟩ := mem_handles.1 hh
      rw [(remove_of_load (load_eq_ok_iff.2 hx)).1]
      simp [hh]
    · rw [(remove_of_not_mem hh).1]
      simp [hh, eq_comm]
  build_failed source e hresult := build_of_error hc hresult
  build_done source hresult := by
    obtain ⟨hbuilt, hg⟩ := build_of_ok hc hresult
    refine ⟨_, hbuilt, ?_⟩
    rw [hg, load_eq_ok_iff, entry?_register, if_pos rfl]
  rebuild_listed h x hload source := by
    obtain ⟨hresult, hg⟩ := rebuild_of_load hload source
    exact ⟨hresult, hg ▸ load_setIndex hload _⟩
  rebuild_failed h source e hresult := by
    by_cases hh : h ∈ g.handles
    · obtain ⟨x, hload, hresult', hg⟩ := rebuild_of_mem hh source
      rw [hresult'] at hresult
      rw [hg, Index.index_rebuild_of_error hresult, setIndex_self (load_eq_ok_iff.1 hload)]
    · exact (rebuild_of_not_mem hh source).2
  rebuild_done h source hresult := by
    by_cases hh : h ∈ g.handles
    · obtain ⟨x, hload, hresult', hg⟩ := rebuild_of_mem hh source
      exact ⟨x, hload, hresult'.symm.trans hresult, hg ▸ load_setIndex hload _⟩
    · rw [(rebuild_of_not_mem hh source).1] at hresult
      cases hresult
  rebuild_others h source k hk := by
    by_cases hh : h ∈ g.handles
    · obtain ⟨x, hload, -, hg⟩ := rebuild_of_mem hh source
      rw [hg, entry?_setIndex (by rw [load_eq_ok_iff.1 hload]; rfl), if_neg hk]
    · rw [(rebuild_of_not_mem hh source).2]

/-- **A handle leads to one index, whatever is called.** After any calls the
handles are those given out and not taken back, each with its index and what was
done to it. Asking fails exactly for the others, and what fails leaves no trace. -/
theorem isolated_after_calls {c : Config} {g₀ : Registry I} (hc : withConfig c = .ok g₀)
    (actions : List (Action I σ)) :
    let told := g₀.actAll [] actions
    Accounts told.1 told.2 ∧ Isolated told.2 := by
  intro told
  obtain ⟨hvalidate, rfl⟩ := fresh_of_withConfig hc
  have hr : Recalls told.1 told.2 := (recalls_fresh hvalidate).actAll actions
  exact ⟨hr.accounts, isolated hr.config⟩

/-- The handle of a removed index is not given out again, and a build that fails
uses up none. Rebuilding under a handle that is left goes through. -/
theorem handles_after_removal :
    let g := ((fresh {} : Registry Nat).actAll ([] : History Nat Unit)
      [.register (Index.fresh {}), .build (.stable [(7, [97])]), .remove 1,
        .build ⟨[(1, [97])], []⟩, .change 2 (.insert 8 [98]), .register (Index.fresh {})]).2
    g.handles = [2, 3] ∧ g.load 1 = .error (.unknownHandle 1) ∧
      g.load 2 = .ok (((Index.fresh {}).rebuild (.stable [(7, [97])])).index.insert 8 [98]).index ∧
      (g.rebuild 2 (.stable [(9, [99])])).1 = .ok () := by
  intro g
  obtain ⟨haccounts, hisolated⟩ := isolated_after_calls (c := {}) rfl
    [.register (Index.fresh {}), .build (.stable [(7, [97])]), .remove 1,
      .build ⟨[(1, [97])], []⟩, .change 2 (.insert 8 [98] : Operation Nat Unit),
      .register (Index.fresh {})]
  have hhandles : g.handles = [2, 3] := haccounts.handles_eq
  have hone : 1 ∉ g.handles := by
    rw [hhandles]
    decide
  have htwo : 2 ∈ g.handles := by
    rw [hhandles]
    decide
  obtain ⟨x, hx, hload⟩ := haccounts.load_of_mem 2 htwo
  obtain rfl : ((Index.fresh {}).rebuild (.stable [(7, [97])])).index = x := Option.some.inj hx
  have hrebuilt := (hisolated.rebuild_listed 2 _ hload (.stable [(9, [99])])).1
  exact ⟨hhandles, (hisolated.load_eq_error_iff 1 1).2 ⟨rfl, hone⟩, hload,
    hrebuilt.trans (by decide +kernel)⟩

end Registry

end WildcardIndex
