import Mathlib.Data.List.Basic
import WildcardIndex.Proofs.Checked.Index
import WildcardIndex.Proofs.Index.Tally
import WildcardIndex.Proofs.Positional.Extent
/-!
# Checked — nothing slips in a run

Every index a run reaches is valid, so none of its operations slips, and no
question put to it does. The tables of such an index span the values ever
indexed, each of which was cut to the maximum indexed length. So **the positions
in use and the length slots stay within that length**, far below where a
position would change its value.
-/

namespace WildcardIndex

/-- The positions and the length slots of tables stay within a length. -/
structure Tables.Bounded (n : Nat) (t : Tables) : Prop where
  /-- The offsets are those of values up to the length. -/
  forward : ∀ c q s, (q, s) ∈ (t.positional.forward.get c).toList → 0 ≤ q.toInt ∧ q.toInt < n
  /-- So are the distances from the end. -/
  backward : ∀ c q s, (q, s) ∈ (t.positional.backward.get c).toList →
    -(n : Int) ≤ q.toInt ∧ q.toInt ≤ -1
  /-- There is a slot for each length up to it at most. -/
  slots_le : t.length.slots ≤ n + 1

namespace Tally

variable {I σ : Type} {c : Config} {x : Index I} {y : Tally I}

/-- Every value that was indexed was cut. -/
def Cut (c : Config) (y : Tally I) : Prop := ∀ v ∈ y.values, v.length ≤ c.maxIndexedLength

theorem cut_nothing (c : Config) : ({} : Tally I).Cut c := fun _ hv => absurd hv List.not_mem_nil

theorem Cut.cons (h : y.Cut c) (v : Bytes) :
    ∀ w ∈ Index.indexedPart c v :: y.values, w.length ≤ c.maxIndexedLength :=
  List.forall_mem_cons.2 ⟨Index.length_indexedPart_le c v, h⟩

/-- **What an operation indexes is cut**, whatever it answers. -/
theorem Cut.after (h : y.Cut c) (op : Operation I σ) (reply : Reply σ) : (y.after c op reply).Cut c := by
  unfold Tally.after
  split
  · exact h.cons _
  · exact h
  · exact h.cons _
  · exact cut_nothing c
  · exact List.forall_mem_map.2 fun e _ => Index.length_indexedPart_le c e.2
  · exact h

theorem Cut.afterAll (h : y.Cut c) (ops : List (Operation I σ)) (replies : List (Reply σ)) :
    (y.afterAll c ops replies).Cut c := by
  induction ops generalizing y replies with
  | nil => exact h
  | cons op ops ih =>
    cases replies with
    | nil => exact h
    | cons reply replies => exact ih (h.after op reply) replies

/-- **Tables that span values up to a length are bounded by it.** -/
theorem Tells.bounded (h : y.Tells x) (hcut : y.Cut c) (hc : c.validate = .ok ()) :
    x.tables.Bounded c.maxIndexedLength := by
  have hwithin : x.tables.positional.Within c.maxIndexedLength := by
    intro k hk
    obtain ⟨v, hv, hplace⟩ := (h.spans.isSome_at? k).1 hk
    exact ⟨v, hcut v hv, hplace⟩
  have hvalid := h.valid.tables.positional.toValid
  have hlimit : c.maxIndexedLength < Tables.positionLimit := by
    have := Config.maxIndexedLength_le hc
    simp only [Config.maxIndexedLengthLimit, Tables.positionLimit] at *
    omega
  refine ⟨fun _ _ _ hq => hwithin.forward hvalid hlimit hq,
    fun _ _ _ hq => hwithin.backward hvalid hlimit hq, ?_⟩
  rw [h.spans.slots_eq, lengthSlotsFor]
  have := longest_le hcut
  split <;> omega

end Tally

namespace Index

variable {I σ : Type} [SlotSized I] {c : Config}

/-- **Nothing slips in any run.** With an acceptable configuration every
operation of every run takes only cells that are there, subtracts only what is
not more than it is taken from, and files under offsets that keep their values
as positions; so does every question to the index it reaches, as long as a
pattern fits the positions. Its positions and length slots stay within the
maximum indexed length. -/
theorem nothing_slips {x₀ : Index I} (hc : withConfig c = .ok x₀) (ops : List (Operation I σ)) :
    let x := (x₀.run ops).2
    Checked.run x₀ ops = .ok (x₀.run ops) ∧
      (∀ (τ : Type) (op : Operation I τ), Checked.perform x op = .ok (x.perform op)) ∧
      Checked.stats x = .ok x.stats ∧
      (∀ b, Checked.containing x b = .ok (x.containing b)) ∧
      (∀ pattern : Bytes, pattern.length < 2 ^ 31 →
        Checked.matching x pattern = .ok (x.matching pattern)) ∧
      x.tables.Bounded c.maxIndexedLength := by
  intro x
  obtain ⟨hvalidate, rfl⟩ := fresh_of_withConfig hc
  have hfresh := valid_fresh (I := I) hvalidate
  have hvalid : x.Valid := hfresh.run ops
  obtain ⟨htells, -⟩ := (Tally.tells_fresh (I := I) hvalidate).run rfl ops
  have hcut := (Tally.cut_nothing c).afterAll ops ((fresh c : Index I).run ops).1
  refine ⟨Checked.run_eq_ok hfresh ops, fun _ => Checked.perform_eq_ok hvalid,
    Checked.stats_eq_ok hvalid, Checked.containing_eq_ok x,
    fun pattern hpattern => Checked.matching_eq_ok hvalid (Nat.le_of_lt hpattern),
    htells.bounded hcut hvalidate⟩

/-- A slot is given out again before it was purged, to a shorter value than the
one it still held, and patterns ask for more than any value has left. -/
theorem nothing_slips_in_reused_slot :
    let _ : SlotSized Nat := ⟨8⟩
    let ops : List (Operation Nat Unit) :=
      [.insert 1 [97, 98], .delete (fun s _ => (true, s)) (), .insert 2 [99], .insert 3 []]
    let x := ((fresh {} : Index Nat).run ops).2
    Checked.run (fresh {}) ops = .ok ([.inserted (.ok 0), .deleted 1 (), .inserted (.ok 0),
        .inserted (.ok 1)], x) ∧
      (∃ s, Checked.stats x = .ok s ∧ s.activeRecords = 2 ∧ s.lengthSlots = 3) ∧
      Checked.matching x [37, 97, 98, 99, 37] = .ok (x.matching [37, 97, 98, 99, 37]) ∧
      Checked.matching x [97, 37, 98, 37, 99] = .ok (x.matching [97, 37, 98, 37, 99]) ∧
      x.tables.Bounded 256 := by
  intro _ ops x
  have hc : withConfig {} = .ok (fresh {} : Index Nat) := rfl
  obtain ⟨hrun, -, hstats, -, hmatching, hbounded⟩ := nothing_slips hc ops
  exact ⟨hrun, ⟨x.stats, hstats, rfl, rfl⟩, hmatching _ (by decide), hmatching _ (by decide),
    hbounded⟩

end Index

end WildcardIndex
