import Mathlib.Data.List.Basic
import WildcardIndex.Proofs.Index.Alike
/-!
# The index — when compactions happen does not show

Two runs make the same calls, but each compacts when it likes: by itself, by a
threshold of its own, or because it is told to in between. What they are
answered is the same, call by call. The two indexes are alike after every call,
and a compaction on either side leaves them so.
-/

namespace WildcardIndex

/-- A call on an index. -/
inductive Call (I σ : Type) where
  /-- Change it. -/
  | change (op : Operation I σ)
  /-- Ask which records match a pattern. -/
  | matching (pattern : Bytes)
  /-- Ask for their identifiers, in an order. -/
  | matchingBy (compare : I → I → Ordering) (pattern : Bytes)
  /-- Ask which records have a byte. -/
  | containing (a : UInt8)
  /-- Ask for the identifier of a record. -/
  | identifier (r : Record)
  /-- Ask how many records are live. -/
  | size
  /-- Ask for the statistics. -/
  | stats

/-- What a call is answered. -/
inductive Answer (I σ : Type) where
  /-- What an operation answers. -/
  | reply (reply : Reply σ)
  /-- Records, ascending. -/
  | records (rs : List Record)
  /-- Identifiers, or what is wrong with the answer. -/
  | identifiers (result : Except Error (List I))
  /-- An identifier, if there is one. -/
  | identifier (i : Option I)
  /-- A number. -/
  | size (n : Nat)
  /-- Statistics. -/
  | stats (s : Stats)

/-- Whether a call is there to compact, and for nothing else. -/
def Call.isCompact {I σ : Type} : Call I σ → Bool
  | .change .compact => true
  | _ => false

namespace Index

variable {I σ : Type} [SlotSized I] {x y : Index I} {c d : Config}

/-- Makes a call. Of the statistics, the number of tombstones, that of
compactions and the memory are left out. -/
def answer (x : Index I) : Call I σ → Answer I σ × Index I
  | .change op =>
    let (reply, x) := x.perform op
    (.reply reply, x)
  | .matching pattern => (.records (x.matching pattern).toList, x)
  | .matchingBy compare pattern => (.identifiers (x.matchingBy compare pattern), x)
  | .containing a => (.records (x.containing a).toList, x)
  | .identifier r => (.identifier (x.identifier? r), x)
  | .size => (.size x.size, x)
  | .stats => (.stats x.lastingStats, x)

/-- What the calls of a run are answered, one after the other, those to compact
apart. -/
def transcript (x : Index I) : List (Call I σ) → List (Answer I σ)
  | [] => []
  | call :: calls =>
    let (a, x) := x.answer call
    if call.isCompact then transcript x calls else a :: transcript x calls

/-- **Alike indexes answer alike**, and stay alike, whatever is called but a
compaction. -/
theorem Alike.answer (h : x.Alike y) (hx : x.Valid) (hy : y.Valid) (call : Call I σ)
    (hcall : ¬ call.isCompact = true) :
    (x.answer call).1 = (y.answer call).1 ∧ (x.answer call).2.Alike (y.answer call).2 := by
  cases call with
  | change op =>
    obtain ⟨hreply, halike⟩ := h.perform hx hy op fun hop => hcall (hop ▸ rfl)
    exact ⟨congrArg Answer.reply hreply, halike⟩
  | matching pattern => exact ⟨congrArg Answer.records
      (toList_matching_congr h.store.content?_eq hx hy pattern), h⟩
  | matchingBy compare pattern =>
    exact ⟨congrArg Answer.identifiers
      (matchingBy_congr h.store.content?_eq hx hy compare pattern), h⟩
  | containing a => exact ⟨congrArg Answer.records
      (toList_containing_congr h.store.content?_eq hx hy a), h⟩
  | identifier r => exact ⟨congrArg Answer.identifier (identifier?_congr h.store.content?_eq r), h⟩
  | size => exact ⟨congrArg Answer.size (size_congr h.store), h⟩
  | stats => exact ⟨congrArg Answer.stats (h.lastingStats hx hy), h⟩

theorem Valid.answer (h : x.Valid) (call : Call I σ) : (x.answer call).2.Valid := by
  cases call with
  | change op => exact (h.perform op).1
  | matching => exact h
  | matchingBy => exact h
  | containing => exact h
  | identifier => exact h
  | size => exact h
  | stats => exact h

/-- **A run says the same without its compactions**, also from an index that is
only alike. -/
theorem Alike.transcript_filter (h : x.Alike y) (hx : x.Valid) (hy : y.Valid)
    (calls : List (Call I σ)) :
    x.transcript calls = y.transcript (calls.filter (!·.isCompact)) := by
  induction calls generalizing x y with
  | nil => rfl
  | cons call calls ih =>
    have hx' := hx.answer call
    by_cases hcall : call.isCompact = true
    · -- one side compacts, and the other does nothing
      have halike : (x.answer call).2.Alike y := by
        cases call with
        | change op =>
          cases op with
          | compact => exact hx.compact_spec.1.alike.trans h
          | _ => cases hcall
        | _ => cases hcall
      rw [List.filter_cons_of_neg (by simp [hcall]), transcript]
      simp only [hcall, if_true]
      exact ih halike hx' hy
    · obtain ⟨hanswer, halike⟩ := h.answer hx hy call hcall
      rw [List.filter_cons_of_pos (by simp [hcall]), transcript, transcript]
      simp only [hcall, Bool.false_eq_true, if_false, hanswer]
      rw [ih halike hx' (hy.answer call)]

/-- **When compactions happen does not show.** Two runs from fresh indexes whose
configurations differ at most in when to compact, with the same calls but for
compactions, are answered the same. -/
theorem transcript_eq {x₀ y₀ : Index I} (hx : withConfig c = .ok x₀) (hy : withConfig d = .ok y₀)
    (hconfig : c.Alike d) {calls calls' : List (Call I σ)}
    (hcalls : calls.filter (!·.isCompact) = calls'.filter (!·.isCompact)) :
    x₀.transcript calls = y₀.transcript calls' := by
  obtain ⟨hvalidate, rfl⟩ := fresh_of_withConfig hx
  obtain ⟨hvalidate', rfl⟩ := fresh_of_withConfig hy
  have hvalid : (fresh c : Index I).Valid := valid_fresh hvalidate
  have hvalid' : (fresh d : Index I).Valid := valid_fresh hvalidate'
  have halike : (fresh c : Index I).Alike (fresh d) := by
    refine ⟨hconfig, ?_, rfl, fun k => ?_, rfl, rfl, rfl⟩
    · rw [fresh, fresh, hconfig.backend_eq]
      exact .refl _
    · simp only [fresh, Tables.empty, PositionalIndex.at?_empty]
  rw [halike.transcript_filter hvalid hvalid', hcalls]
  exact ((Alike.refl (fresh d)).transcript_filter hvalid' hvalid' calls').symm

/-- One index keeps what is deleted, another drops it at once, and both put the
next value in the same slot and find it there. -/
theorem transcript_of_eager_compaction :
    let _ : SlotSized Nat := ⟨8⟩
    let calls : List (Call Nat Unit) :=
      [.change (.insert 1 [97]), .change (.delete (fun s _ => (true, s)) ()),
        .change (.insert 2 [98])]
    let told := (fresh { autoCompact := false } : Index Nat).transcript
      (calls ++ [.matching [98], .stats])
    told = (fresh { compactionThreshold := 1 } : Index Nat).transcript
        (calls ++ [.change .compact, .matching [98], .stats]) ∧
      told.length = 5 ∧ told[3]? = some (.records [0]) := by
  intro _ calls told
  let x := ((fresh { autoCompact := false } : Index Nat).run
    [.insert 1 [97], .delete (fun (s : Unit) _ => (true, s)) (), .insert 2 [98]]).2
  have hfound : (x.matching [98]).toList = [0] := by decide +kernel
  refine ⟨transcript_eq (c := { autoCompact := false }) (d := { compactionThreshold := 1 }) rfl rfl
    rfl rfl, rfl, ?_⟩
  rw [← hfound]
  rfl

end Index

end WildcardIndex
