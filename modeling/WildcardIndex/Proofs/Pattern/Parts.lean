import Mathlib.Data.List.Basic
import WildcardIndex.Pattern.Basic
/-!
# Patterns — where a part stands

A part stands at an offset of a value if the value has the part's bytes there,
any byte in the place of a `_`. What that asks of the value comes apart into
its literals and its length.
-/

namespace WildcardIndex

variable {p : Part} {v : Bytes} {i j : Nat} {c : UInt8}

namespace Part

/-- A part stands at an offset of a value: there is room for it, and each of
its bytes is `_` or the byte of the value there. -/
def At (p : Part) (v : Bytes) (i : Nat) : Prop :=
  i + p.length ≤ v.length ∧ ∀ j c, p.bytes[j]? = some c → c = anyOne ∨ v[i + j]? = some c

theorem at_nil_iff : At ⟨[]⟩ v i ↔ i ≤ v.length := by
  simp [At, length]

/-- A part stands where its first byte does, if the rest stands behind it. -/
theorem at_cons_iff {bs : Bytes} :
    At ⟨c :: bs⟩ v i ↔ (c = anyOne ∨ v[i]? = some c) ∧ i < v.length ∧ At ⟨bs⟩ v (i + 1) := by
  unfold At length
  constructor
  · rintro ⟨hlen, hbytes⟩
    simp only [List.length_cons] at hlen
    refine ⟨hbytes 0 c rfl, by omega, by simp only; omega, fun j d hd => ?_⟩
    have := hbytes (j + 1) d hd
    rwa [Nat.add_right_comm, Nat.add_assoc]
  · rintro ⟨hc, hi, hlen, hbytes⟩
    simp only at hlen
    refine ⟨by simp only [List.length_cons]; omega, fun j d hd => ?_⟩
    cases j with
    | zero =>
      rw [List.getElem?_cons_zero, Option.some.injEq] at hd
      subst hd
      exact hc
    | succ j =>
      have := hbytes j d hd
      rwa [Nat.add_right_comm, Nat.add_assoc] at this

theorem length_pos_of_not_isEmpty (h : ¬ p.isEmpty = true) : 0 < p.length := by
  rw [isEmpty, List.isEmpty_iff, ← List.length_eq_zero_iff] at h
  exact Nat.pos_of_ne_zero h

theorem At.add_length_le (h : p.At v i) : i + p.length ≤ v.length := h.1

/-! ## Literals -/

/-- The literals are the bytes that are not `_`. -/
theorem mem_literals : (j, c) ∈ p.literals ↔ p.bytes[j]? = some c ∧ c ≠ anyOne := by
  rw [literals, List.mem_filterMap]
  constructor
  · rintro ⟨⟨d, k⟩, hk, hd⟩
    rw [List.mem_zipIdx_iff_getElem?] at hk
    simp only at hd hk
    split at hd
    · cases hd
    · simp only [Option.some.injEq, Prod.mk.injEq] at hd
      obtain ⟨rfl, rfl⟩ := hd
      exact ⟨hk, ‹_›⟩
  · rintro ⟨hj, hc⟩
    exact ⟨(c, j), List.mem_zipIdx_iff_getElem?.2 hj, by simp [hc]⟩

theorem allWild_iff : p.allWild = true ↔ ∀ (j : Nat) (c : UInt8), p.bytes[j]? = some c → c = anyOne := by
  rw [allWild, List.all_eq_true]
  constructor
  · intro h j c hc
    exact beq_iff_eq.1 (h c (List.mem_of_getElem? hc))
  · intro h c hc
    obtain ⟨j, hj⟩ := List.mem_iff_getElem?.1 hc
    exact beq_iff_eq.2 (h j c hj)

theorem literals_eq_nil_iff : p.literals = [] ↔ p.allWild = true := by
  rw [allWild_iff, List.eq_nil_iff_forall_not_mem]
  constructor
  · intro h j c hc
    by_contra hne
    exact h (j, c) (mem_literals.2 ⟨hc, hne⟩)
  · rintro h ⟨j, c⟩ ha
    obtain ⟨hbyte, hne⟩ := mem_literals.1 ha
    exact hne (h j c hbyte)

theorem literals_ne_nil (h : ¬ p.allWild = true) : p.literals ≠ [] := mt literals_eq_nil_iff.1 h

/-- A part of `_` alone stands wherever there is room for it. -/
theorem at_iff_of_allWild (h : p.allWild = true) : p.At v i ↔ i + p.length ≤ v.length :=
  and_iff_left fun j c hc => .inl (allWild_iff.1 h j c hc)

/-- A part stands where there is room for it and its literals are there. -/
theorem at_iff_literals :
    p.At v i ↔ i + p.length ≤ v.length ∧ ∀ a ∈ p.literals, v[i + a.1]? = some a.2 := by
  refine and_congr_right fun _ => ⟨fun h a ha => ?_, fun h j c hc => ?_⟩
  · obtain ⟨hbyte, hne⟩ := mem_literals.1 (show (a.1, a.2) ∈ p.literals from ha)
    exact (h a.1 a.2 hbyte).resolve_left hne
  · by_cases hne : c = anyOne
    · exact .inl hne
    · exact .inr (h (j, c) (mem_literals.2 ⟨hc, hne⟩))

instance (p : Part) (v : Bytes) (i : Nat) : Decidable (p.At v i) :=
  decidable_of_iff _ at_iff_literals.symm

/-- If the last byte is a literal, the literals take up the whole part. -/
theorem last_mem_literals (h : ¬ p.wildTail = true) (hne : ¬ p.allWild = true) :
    ∃ c, (p.length - 1, c) ∈ p.literals := by
  have hbytes : p.bytes ≠ [] := by
    intro hnil
    rw [allWild, hnil] at hne
    exact hne rfl
  refine ⟨p.bytes.getLast hbytes, mem_literals.2 ⟨?_, fun hc => h ?_⟩⟩
  · rw [length, ← List.getLast?_eq_getElem?, List.getLast?_eq_some_getLast hbytes]
  · rw [wildTail, List.getLast?_eq_some_getLast hbytes, hc]
    rfl

theorem head_mem_literals (h : ¬ p.wildHead = true) (hne : ¬ p.allWild = true) :
    ∃ c, (0, c) ∈ p.literals := by
  have hbytes : p.bytes ≠ [] := by
    intro hnil
    rw [allWild, hnil] at hne
    exact hne rfl
  refine ⟨p.bytes.head hbytes, mem_literals.2 ⟨?_, fun hc => h ?_⟩⟩
  · rw [← List.head?_eq_getElem?, List.head?_eq_some_head hbytes]
  · rw [wildHead, List.head?_eq_some_head hbytes, hc]
    rfl

theorem lt_length_of_mem_literals (h : (j, c) ∈ p.literals) : j < p.length := by
  have := (List.getElem?_eq_some_iff.1 (mem_literals.1 h).1).1
  exact this

/-! ## Offsets brought to 32 bits -/

/-- The length a value needs for a part to be found at an offset. A part without
bytes, or with `_` behind its last literal, is held against the length itself;
of any other, the last byte is looked for where its offset comes to lie. -/
def reach (p : Part) (i : Nat) : Nat :=
  if p.isEmpty || (p.wildTail && !p.allWild) then i + p.length
  else (i + p.length - 1) % UInt32.size + 1

/-- A part is found at an offset of a value: the value is long enough, and each
literal is where its offset comes to lie at 32 bits. -/
def FoundAt (p : Part) (v : Bytes) (i : Nat) : Prop :=
  p.reach i ≤ v.length ∧ ∀ a ∈ p.literals, v[(i + a.1) % UInt32.size]? = some a.2

instance (p : Part) (v : Bytes) (i : Nat) : Decidable (p.FoundAt v i) :=
  inferInstanceAs (Decidable (_ ∧ _))

/-- **Where the offsets fit, a part is found where it stands.** -/
theorem foundAt_iff_at (h : i + p.length ≤ UInt32.size) : p.FoundAt v i ↔ p.At v i := by
  have hreach : p.reach i = i + p.length := by
    unfold reach
    split
    · rfl
    · rename_i hbyte
      have hpos : 0 < p.length := by
        rw [length, List.length_pos_iff]
        intro hnil
        simp [isEmpty, hnil] at hbyte
      rw [Nat.mod_eq_of_lt (by omega)]
      omega
  rw [FoundAt, at_iff_literals, hreach]
  refine and_congr_right fun _ => forall₂_congr fun a ha => ?_
  have := lt_length_of_mem_literals (show (a.1, a.2) ∈ p.literals from ha)
  rw [Nat.mod_eq_of_lt (by omega)]

/-- A part that is held against the length itself is only found where it stands,
at any offset: beyond the values none is long enough. -/
theorem foundAt_iff_at_of_bounded (h : p.isEmpty || (p.wildTail && !p.allWild))
    (hv : v.length ≤ UInt32.size) : p.FoundAt v i ↔ p.At v i := by
  have hreach : p.reach i = i + p.length := if_pos h
  by_cases hfits : i + p.length ≤ v.length
  · exact foundAt_iff_at (Nat.le_trans hfits hv)
  · rw [FoundAt, hreach]
    exact iff_of_false (fun hfound => hfits hfound.1) fun hat => hfits hat.1

end Part

end WildcardIndex
