import Mathlib.Data.List.Basic
import WildcardIndex.Proofs.Index.Rebuild
import WildcardIndex.Proofs.Index.Update
import WildcardIndex.Proofs.Mirrors
/-!
# The index — runs

A run is a list of operations performed one after the other. Every operation
leaves a valid index, so every index a run from a fresh one reaches is valid:
its tables **mirror** its slots, set by set.
-/

namespace WildcardIndex

/-- An operation that changes an index. The predicates of a run share the type
of their states; several types are one sum. -/
inductive Operation (I σ : Type) where
  /-- Insert a value. -/
  | insert (identifier : I) (v : Bytes)
  /-- Delete what a predicate chooses. -/
  | delete (p : σ → I → Bool × σ) (s : σ)
  /-- Put a value in the place of what a predicate chooses. -/
  | replace (p : σ → I → Bool × σ) (s : σ) (identifier : I) (v : Bytes)
  /-- Compact. -/
  | compact
  /-- Drop every record. -/
  | clear
  /-- Hold the records of a source instead. -/
  | rebuild (source : Source I)

/-- What an operation answers. -/
inductive Reply (σ : Type) where
  /-- The record of a value, or why it has none. -/
  | inserted (result : Except Error Record)
  /-- How many records were deleted, and the predicate's state. -/
  | deleted (removed : Nat) (s : σ)
  /-- The record of a value, or why it has none, and the predicate's state. -/
  | replaced (result : Except Error Record) (s : σ)
  /-- How many records were purged. -/
  | compacted (purged : Nat)
  /-- Done. -/
  | cleared
  /-- Done, or why not. -/
  | rebuilt (result : Except Error Unit)

namespace Index

variable {I σ : Type} {x : Index I} {c : Config} {r : Record}

/-- Performs an operation. -/
def perform (x : Index I) : Operation I σ → Reply σ × Index I
  | .insert identifier v =>
    let o := x.insert identifier v
    (.inserted o.result, o.index)
  | .delete p s =>
    let o := x.delete p s
    (.deleted o.result.1 o.result.2, o.index)
  | .replace p s identifier v =>
    let o := x.replace p s identifier v
    (.replaced o.result.1 o.result.2, o.index)
  | .compact =>
    let o := x.compact
    (.compacted o.result, o.index)
  | .clear => (.cleared, x.clear.index)
  | .rebuild source =>
    let o := x.rebuild source
    (.rebuilt o.result, o.index)

/-- Performs operations one after the other. -/
def run (x : Index I) : List (Operation I σ) → List (Reply σ) × Index I
  | [] => ([], x)
  | op :: ops =>
    let (reply, x) := x.perform op
    let (replies, x) := x.run ops
    (reply :: replies, x)

/-- The last operation of a run is performed last. -/
theorem run_concat (x : Index I) (ops : List (Operation I σ)) (op : Operation I σ) :
    (x.run (ops ++ [op])).2 = ((x.run ops).2.perform op).2 := by
  induction ops generalizing x with
  | nil => rfl
  | cons o ops ih => exact ih (x.perform o).2

/-! ## Every index reached is valid -/

theorem fresh_of_withConfig (h : withConfig c = .ok x) : c.validate = .ok () ∧ x = fresh c := by
  unfold withConfig at h
  split at h
  · rename_i hvalid
    rw [Except.ok.injEq] at h
    exact ⟨hvalid, h.symm⟩
  · cases h

theorem rebuild_of_ok {source : Source I} {y : Index I} (h : (build x.config source).1 = .ok y) :
    (x.rebuild source).result = .ok () ∧ (x.rebuild source).index = y := by
  unfold rebuild
  generalize build x.config source = o at *
  obtain ⟨result, events⟩ := o
  simp only at h
  subst h
  exact ⟨rfl, rfl⟩

/-- **A rebuild that fails gives nothing up.** -/
theorem rebuild_of_error {source : Source I} {e : Error} (h : (build x.config source).1 = .error e) :
    (x.rebuild source).result = .error e ∧ (x.rebuild source).index = x := by
  unfold rebuild
  generalize build x.config source = o at *
  obtain ⟨result, events⟩ := o
  simp only at h
  subst h
  exact ⟨rfl, rfl⟩

theorem index_rebuild_of_error {source : Source I} {e : Error}
    (h : (x.rebuild source).result = .error e) : (x.rebuild source).index = x := by
  cases hbuild : (build x.config source).1 with
  | error e' => exact (rebuild_of_error hbuild).2
  | ok y =>
    rw [(rebuild_of_ok hbuild).1] at h
    cases h

/-- **Every operation leaves a valid index**, with the configuration it had. -/
theorem Valid.perform (h : x.Valid) (op : Operation I σ) :
    (x.perform op).2.Valid ∧ (x.perform op).2.config = x.config := by
  cases op with
  | insert identifier v =>
    simp only [Index.perform]
    cases hr : x.store.next? with
    | none =>
      rw [(h.insert_of_next?_eq_none hr identifier v).2]
      exact ⟨h, rfl⟩
    | some r =>
      obtain ⟨y, hplaced, -, hindex⟩ := h.insert_of_next? hr identifier v
      rw [hindex]
      exact ⟨hplaced.valid.with_counters _, hplaced.config_eq⟩
  | delete p s =>
    obtain ⟨store, -, -, -, hcompacted⟩ := h.delete_spec p s
    exact ⟨hcompacted.valid, hcompacted.config_eq⟩
  | replace p s identifier v =>
    simp only [Index.perform]
    cases hr : x.store.next? with
    | none =>
      rw [(h.replace_of_next?_eq_none hr p s identifier v).2]
      exact ⟨h, rfl⟩
    | some r =>
      obtain ⟨y, store, hplaced, -, -, -, hcompacted⟩ := h.replace_of_next? hr p s identifier v
      exact ⟨hcompacted.valid, hcompacted.config_eq.trans hplaced.config_eq⟩
  | compact => exact ⟨h.compact_spec.1.valid, h.compact_spec.1.config_eq⟩
  | clear => exact ⟨h.clear, rfl⟩
  | rebuild source =>
    simp only [Index.perform]
    cases hbuild : (build x.config source).1 with
    | error e =>
      rw [(rebuild_of_error hbuild).2]
      exact ⟨h, rfl⟩
    | ok y =>
      have hrebuilt := build_spec h.config hbuild
      rw [(rebuild_of_ok hbuild).2]
      exact ⟨hrebuilt.valid, hrebuilt.config_eq⟩

/-- **So does every run.** -/
theorem Valid.run (h : x.Valid) (ops : List (Operation I σ)) : (x.run ops).2.Valid := by
  induction ops generalizing x with
  | nil => exact h
  | cons op ops ih => exact ih (h.perform op).1

/-- No operation touches the configuration. -/
theorem Valid.config_run (h : x.Valid) (ops : List (Operation I σ)) :
    (x.run ops).2.config = x.config := by
  induction ops generalizing x with
  | nil => rfl
  | cons op ops ih =>
    obtain ⟨hvalid, hconfig⟩ := h.perform op
    exact (ih hvalid).trans hconfig

/-- **The tables of every index reached mirror its slots.** Every one of their
sets holds exactly the records whose slot still holds a fitting value: live ones
and tombstoned ones. So a vacant slot is in no set, and after a compaction every
record in a set is live. -/
theorem tables_mirror_slots {x₀ : Index I} (hc : withConfig c = .ok x₀)
    (ops : List (Operation I σ)) :
    let x := (x₀.run ops).2
    x.tables.Mirrors x.store.value? ∧
      (∀ r, (x.store.value? r).isSome ↔
        x.store.state? r = some .live ∨ x.store.state? r = some .tombstoned) ∧
      (∀ r, x.store.state? r = some .vacant → ¬ x.tables.Mentions r) ∧
      ∀ r, x.compact.index.tables.Mentions r → x.compact.index.store.state? r = some .live := by
  intro x
  obtain ⟨hvalidate, rfl⟩ := fresh_of_withConfig hc
  have hvalid : x.Valid := (valid_fresh hvalidate).run ops
  have hcached := fun r => Store.isSome_value?_iff (s := x.store) (r := r)
  refine ⟨hvalid.tables.mirrors, hcached, fun r hr hmentions => ?_, fun r hmentions => ?_⟩
  · have hsome := hvalid.tables.isSome_of_mentions hmentions
    rw [hcached, hr] at hsome
    rcases hsome with h | h <;> cases h
  · obtain ⟨hcompacted, hnot⟩ := hvalid.compact_spec
    have hsome := hcompacted.valid.tables.isSome_of_mentions hmentions
    rw [Store.state?_eq_live_iff]
    exact (Store.content?_isSome_or_mem hsome).resolve_right (hnot r)

/-- A slot that was given a shorter value before it was purged is filed under
that value only. -/
theorem reused_slot_mirrored :
    let x := ((fresh {} : Index Nat).run
      [.insert 1 [97, 98], .delete (fun (s : Unit) _ => (true, s)) (), .insert 2 [99]]).2
    (∃ s, x.tables.length.exactly? 1 = some s ∧ 0 ∈ s) ∧
      ¬ ∃ s, x.tables.length.exactly? 2 = some s ∧ 0 ∈ s := by
  intro x
  have hvalue : x.store.value? 0 = some [99] := by decide
  have hc : withConfig {} = .ok (fresh {} : Index Nat) := rfl
  have hmirrors := (tables_mirror_slots hc
    [.insert 1 [97, 98], .delete (fun (s : Unit) _ => (true, s)) (), .insert 2 [99]]).1
  refine ⟨(hmirrors.exactly 1 0).2 ⟨[99], hvalue, rfl⟩, fun hmem => ?_⟩
  obtain ⟨v, hv, hlen⟩ := (hmirrors.exactly 2 0).1 hmem
  have hv' := hvalue.symm.trans hv
  rw [Option.some.injEq] at hv'
  rw [← hv'] at hlen
  cases hlen

end Index

end WildcardIndex
