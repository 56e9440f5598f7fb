import Mathlib.Data.List.Sort
import WildcardIndex.Proofs.Index.Source
import WildcardIndex.Registry
/-!
# The registry — what each call does

A registry keeps an entry for every handle it ever gave out. A call adds one
entry or changes the one under its handle, so what is found under the others
stays. A handle whose entry is not listed is turned away by name; nothing else
fails with the name of a handle, a rebuild least of all.

As a counter and a map, the entries are read by three facts: `entry?_register`,
that the counter is one more than their number; `load_eq_ok_iff`, that the map
has what is listed; and `mem_handles` with `pairwise_handles`, that the handles
are the keys of the map in ascending order.
-/

namespace WildcardIndex

/-! ## What a rebuild fails with -/

theorem Store.acquire_ne_unknownHandle {I : Type} {handle : Nat} (s : Store I) (i : I) (v : Bytes) :
    (s.acquire i v).1 ≠ .error (.unknownHandle handle) := by
  unfold Store.acquire
  split
  · split <;> simp
  · split <;> simp

namespace Index

variable {I : Type} {c : Config} {rest : List (I × Bytes)} {handle : Nat}

theorem scanFirst_ne_unknownHandle (scan : FirstScan I) :
    scanFirst c scan rest ≠ .error (.unknownHandle handle) := by
  induction rest generalizing scan with
  | nil => simp [scanFirst]
  | cons e rest ih =>
    obtain ⟨i, v⟩ := e
    have hacquire : (scan.store.acquire i (indexedPart c v)).1 ≠ .error (.unknownHandle handle) :=
      scan.store.acquire_ne_unknownHandle i (indexedPart c v)
    simp only [scanFirst]
    split
    · rename_i e _ he
      rw [he] at hacquire
      exact fun h => hacquire (congrArg _ (Except.error.inj h))
    · exact ih _

/-- **A rebuild does not fail for a handle.** It knows of none. -/
theorem rebuild_ne_unknownHandle (x : Index I) (source : Source I) :
    (x.rebuild source).result ≠ .error (.unknownHandle handle) := by
  intro h
  cases hbuild : (build x.config source).1 with
  | ok y =>
    rw [(rebuild_of_ok hbuild).1] at h
    cases h
  | error e =>
    rw [(rebuild_of_error hbuild).1, Except.error.injEq] at h
    subst h
    unfold build at hbuild
    simp only at hbuild
    split at hbuild
    · rename_i e hscan
      exact scanFirst_ne_unknownHandle _ (hscan.trans (congrArg _ (Except.error.inj hbuild)))
    · split at hbuild
      · rename_i e hsecond
        obtain ⟨cause, rfl⟩ := scanSecond_error hsecond
        cases hbuild
      · split at hbuild <;> cases hbuild

end Index

namespace Registry

variable {I : Type} {g : Registry I} {handle h k : Nat} {x : Index I}

theorem fresh_of_withConfig {c : Config} (hc : withConfig c = .ok g) :
    c.validate = .ok () ∧ g = fresh c := by
  unfold withConfig at hc
  split at hc
  · rename_i hvalid
    rw [Except.ok.injEq] at hc
    exact ⟨hvalid, hc.symm⟩
  · cases hc

/-! ## Entries -/

theorem isSome_entry?_iff : (g.entry? h).isSome ↔ 1 ≤ h ∧ h ≤ g.entries.size := by
  unfold entry?
  split
  · simp [*]
  · simp only [isSome_getElem?]
    omega

/-- Registering adds one entry, under the next handle. -/
theorem entry?_register (g : Registry I) (x : Index I) (h : Nat) :
    Registry.entry? (g.register x).2.1 h =
      if h = g.entries.size + 1 then some ⟨x, true⟩ else g.entry? h := by
  simp only [register, entry?, Array.getElem?_push]
  split
  · rw [if_neg (by omega)]
  · congr 1
    rw [eq_iff_iff]
    omega

/-- Changing an entry changes no other. -/
theorem entry?_modify (g : Registry I) (hhandle : handle ≠ 0) (f : Registration I → Registration I)
    (h : Nat) :
    Registry.entry? { g with entries := g.entries.modify (handle - 1) f } h =
      if h = handle then (g.entry? h).map f else g.entry? h := by
  simp only [ entry?, Array.getElem?_modify]
  split
  · simp
  · by_cases heq : h = handle
    · rw [if_pos heq, if_pos (by omega)]
    · rw [if_neg heq, if_neg (by omega)]

theorem ne_zero_of_isSome (hsome : (g.entry? h).isSome) : h ≠ 0 := by
  have := (isSome_entry?_iff.1 hsome).1
  omega

theorem entry?_setIndex (hsome : (g.entry? handle).isSome) (x : Index I) (h : Nat) :
    Registry.entry? (g.setIndex handle x) h =
      if h = handle then (g.entry? h).map fun e => { e with index := x } else g.entry? h :=
  entry?_modify g (ne_zero_of_isSome hsome) _ h

/-! ## Handles -/

/-- The listed handles are those whose entry is. -/
theorem mem_handles : h ∈ g.handles ↔ ∃ x, g.entry? h = some ⟨x, true⟩ := by
  unfold handles entry?
  simp only [List.mem_filterMap, Prod.exists, List.mem_zipIdx_iff_getElem?, Array.getElem?_toList]
  constructor
  · rintro ⟨⟨x, listed⟩, n, hn, heq⟩
    simp only [Option.ite_none_right_eq_some, Option.some.injEq] at heq
    obtain ⟨rfl, rfl⟩ := heq
    exact ⟨x, hn⟩
  · rintro ⟨x, hx⟩
    split at hx
    · cases hx
    · exact ⟨⟨x, true⟩, h - 1, hx, by simp only [if_true]; congr 1; omega⟩

theorem pairwise_handles (g : Registry I) : g.handles.Pairwise (· < ·) := by
  have hidx : g.entries.toList.zipIdx.Pairwise fun x y => x.2 < y.2 := by
    rw [← List.pairwise_map (f := Prod.snd), List.zipIdx_map_snd]
    exact List.pairwise_lt_range'
  refine List.Pairwise.filterMap _ ?_ hidx
  rintro ⟨e, m⟩ ⟨e', n⟩ hlt a ha b hb
  simp only [Option.ite_none_right_eq_some, Option.some.injEq] at ha hb
  obtain ⟨-, rfl⟩ := ha
  obtain ⟨-, rfl⟩ := hb
  exact Nat.add_lt_add_right hlt 1

/-! ## Asking by handle -/

theorem load_eq_ok_iff : g.load h = .ok x ↔ g.entry? h = some ⟨x, true⟩ := by
  unfold load
  split
  · rename_i y hy
    rw [hy]
    simp
  · rename_i hnot
    constructor
    · exact nofun
    · exact fun hx => absurd hx (hnot x)

/-- What is put in the place of a listed index is loaded from then on. -/
theorem load_setIndex (hload : g.load h = .ok x) (y : Index I) :
    (g.setIndex h y).load h = .ok y := by
  have hx := load_eq_ok_iff.1 hload
  rw [load_eq_ok_iff, entry?_setIndex (by rw [hx]; rfl), if_pos rfl, hx]
  rfl

theorem load_of_not_mem (hh : h ∉ g.handles) : g.load h = .error (.unknownHandle h) := by
  unfold load
  split
  · rename_i y hy
    exact absurd (mem_handles.2 ⟨y, hy⟩) hh
  · rfl

/-- **A handle that is not listed leads nowhere**, and the error names it. -/
theorem load_eq_error_iff : g.load h = .error (.unknownHandle k) ↔ k = h ∧ h ∉ g.handles := by
  by_cases hh : h ∈ g.handles
  · obtain ⟨x, hx⟩ := mem_handles.1 hh
    rw [load_eq_ok_iff.2 hx]
    simp [hh]
  · rw [load_of_not_mem hh]
    simp [hh, eq_comm]

theorem build_of_ok (hc : g.config.validate = .ok ()) {source : Source I}
    (hresult : ((Index.fresh g.config).rebuild source).result = .ok ()) :
    (g.build source).1 = .ok (g.entries.size + 1) ∧
      (g.build source).2.1 = (g.register ((Index.fresh g.config).rebuild source).index).2.1 := by
  unfold build Index.withConfig
  simp only [hc]
  generalize (Index.fresh g.config).rebuild source = o at *
  obtain ⟨result, y, events⟩ := o
  simp only at hresult
  subst hresult
  exact ⟨rfl, rfl⟩

/-- **A build that fails registers nothing** and uses up no handle. -/
theorem build_of_error (hc : g.config.validate = .ok ()) {source : Source I} {e : Error}
    (hresult : ((Index.fresh g.config).rebuild source).result = .error e) :
    (g.build source).1 = .error e ∧ (g.build source).2.1 = g := by
  unfold build Index.withConfig
  simp only [hc]
  generalize (Index.fresh g.config).rebuild source = o at *
  obtain ⟨result, y, events⟩ := o
  simp only at hresult
  subst hresult
  exact ⟨rfl, rfl⟩

theorem rebuild_of_load (hload : g.load h = .ok x) (source : Source I) :
    (g.rebuild h source).1 = (x.rebuild source).result ∧
      (g.rebuild h source).2.1 = g.setIndex h (x.rebuild source).index := by
  simp [rebuild, hload]

theorem rebuild_of_not_mem (hh : h ∉ g.handles) (source : Source I) :
    (g.rebuild h source).1 = .error (.unknownHandle h) ∧ (g.rebuild h source).2.1 = g := by
  simp [rebuild, load_of_not_mem hh]

theorem rebuild_of_mem (hh : h ∈ g.handles) (source : Source I) :
    ∃ x, g.load h = .ok x ∧ (g.rebuild h source).1 = (x.rebuild source).result ∧
      (g.rebuild h source).2.1 = g.setIndex h (x.rebuild source).index := by
  obtain ⟨x, hx⟩ := mem_handles.1 hh
  have hload := load_eq_ok_iff.2 hx
  exact ⟨x, hload, rebuild_of_load hload source⟩

/-- What a failed rebuild puts back is there already. -/
theorem setIndex_self (hx : g.entry? h = some ⟨x, true⟩) : g.setIndex h x = g := by
  have hslot : g.entries[h - 1]? = some ⟨x, true⟩ := by
    unfold entry? at hx
    split at hx
    · cases hx
    · exact hx
  have hentries : g.entries.modify (h - 1) (fun e => { e with index := x }) = g.entries := by
    refine Array.ext_getElem? fun n => ?_
    rw [Array.getElem?_modify]
    split
    · rename_i heq
      rw [← heq, hslot]
      rfl
    · rfl
  rw [setIndex, hentries]

/-- Takes a handle off the list. -/
def unlist (g : Registry I) (handle : Nat) : Registry I :=
  { g with entries := g.entries.modify (handle - 1) fun e => { e with listed := false } }

theorem remove_of_load (hload : g.load h = .ok x) :
    (g.remove h).1 = .ok x ∧ (g.remove h).2.1 = g.unlist h := by
  simp [remove, hload, unlist]

theorem remove_of_not_mem (hh : h ∉ g.handles) :
    (g.remove h).1 = .error (.unknownHandle h) ∧ (g.remove h).2.1 = g := by
  simp [remove, load_of_not_mem hh]

end Registry

end WildcardIndex
