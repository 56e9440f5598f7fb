import Mathlib.Data.Set.Insert
import WildcardIndex.Proofs.RecordSet.Membership
/-!
# Record sets — keeping track of what is combined

Combining two sets of different representations leaves the first as it was, and
says nothing. To see that an index never gets there, its computations are done
once more with a **trace**: the pairs of sets they combine, in order. A traced
computation comes to the same value, and it is **uniform** if both sets of every
pair are of one backend.

That the values agree does not show that a trace leaves nothing out. A trace
**accounts for** a computation if every set of the value comes of the sets that
were given by combining pairs of the trace, and of no other. From sets of one
backend a computation that is accounted for is uniform.
-/

namespace WildcardIndex

/-- A value, and the pairs of sets that were combined to get it. -/
structure Traced (α : Type) where
  /-- The value. -/
  value : α
  /-- The pairs, in the order they were combined. -/
  pairs : List (RecordSet × RecordSet)

namespace Traced

instance : Monad Traced where
  pure a := ⟨a, []⟩
  bind x f := ⟨(f x.value).value, x.pairs ++ (f x.value).pairs⟩

/-- The members of both sets. -/
def inter (s t : RecordSet) : Traced RecordSet := ⟨s.inter t, [(s, t)]⟩

/-- The members of either set. -/
def union (s t : RecordSet) : Traced RecordSet := ⟨s.union t, [(s, t)]⟩

/-- The members of the first set outside the second. -/
def diff (s t : RecordSet) : Traced RecordSet := ⟨s.diff t, [(s, t)]⟩

/-- What `f` makes of the elements of a list, where it makes something. -/
def filterMap {α β : Type} (f : α → Traced (Option β)) : List α → Traced (List β)
  | [] => pure []
  | a :: as => do
    let o ← f a
    let bs ← filterMap f as
    pure (match o with
      | some b => b :: bs
      | none => bs)

/-- Every pair is of one backend. -/
def Uniform {α : Type} (b : Backend) (x : Traced α) : Prop :=
  ∀ e ∈ x.pairs, e.1.backend = b ∧ e.2.backend = b

/-- The sets that come of given ones, and of the empty one of a backend, by
combining pairs of a list. -/
inductive Made (b : Backend) (given : Set RecordSet) (pairs : List (RecordSet × RecordSet)) :
    RecordSet → Prop where
  /-- A given one. -/
  | given {s : RecordSet} : s ∈ given → Made b given pairs s
  /-- The empty one. -/
  | empty : Made b given pairs (.empty b)
  /-- One of them with every record removed. -/
  | clear {s : RecordSet} : Made b given pairs s → Made b given pairs s.clear
  /-- What two of them have in common, if they were combined. -/
  | inter {s t : RecordSet} : (s, t) ∈ pairs → Made b given pairs s → Made b given pairs t →
      Made b given pairs (s.inter t)
  /-- What they have together. -/
  | union {s t : RecordSet} : (s, t) ∈ pairs → Made b given pairs s → Made b given pairs t →
      Made b given pairs (s.union t)
  /-- What the first has beyond the second. -/
  | diff {s t : RecordSet} : (s, t) ∈ pairs → Made b given pairs s → Made b given pairs t →
      Made b given pairs (s.diff t)

/-- The trace accounts for the computation: the sets of its value come of the
given ones by the pairs of the trace, and so do the sets of the pairs. -/
structure Accounted {α : Type} (b : Backend) (given : Set RecordSet) (sets : α → Set RecordSet)
    (x : Traced α) : Prop where
  /-- No set of the value comes of a combination that is not in the trace. -/
  value : ∀ s ∈ sets x.value, Made b given x.pairs s
  /-- Nor does a set that is combined. -/
  pairs : ∀ e ∈ x.pairs, Made b given x.pairs e.1 ∧ Made b given x.pairs e.2

variable {α β : Type} {b : Backend} {s t : RecordSet} {x : Traced α} {f : α → Traced β}
variable {given given' : Set RecordSet} {pairs pairs' : List (RecordSet × RecordSet)}
variable {sets : α → Set RecordSet} {sets' : β → Set RecordSet}

/-! ## Values -/

@[simp] theorem value_pure (a : α) : (pure a : Traced α).value = a := rfl

@[simp] theorem value_bind : (x >>= f).value = (f x.value).value := rfl

@[simp] theorem value_inter : (inter s t).value = s.inter t := rfl

@[simp] theorem value_union : (union s t).value = s.union t := rfl

@[simp] theorem value_diff : (diff s t).value = s.diff t := rfl

@[simp] theorem value_ite {p : Prop} [Decidable p] {y : Traced α} :
    (if p then x else y).value = if p then x.value else y.value :=
  apply_ite _ _ _ _

@[simp] theorem value_foldlM (g : β → α → Traced β) (as : List α) (a : β) :
    (as.foldlM g a).value = as.foldl (fun a a' => (g a a').value) a := by
  induction as generalizing a with
  | nil => rfl
  | cons a' as ih => rw [List.foldlM_cons, value_bind, ih, List.foldl_cons]

@[simp] theorem value_filterMap (g : α → Traced (Option β)) (as : List α) :
    (filterMap g as).value = as.filterMap fun a => (g a).value := by
  induction as with
  | nil => rfl
  | cons a as ih =>
    simp only [filterMap, value_bind, value_pure, ih, List.filterMap_cons]
    split <;> simp_all

/-! ## Traces that account for a computation -/

/-- What comes of sets that were made themselves is made. -/
theorem Made.trans (h : Made b given pairs s) (hpairs : pairs ⊆ pairs')
    (hgiven : ∀ u ∈ given, Made b given' pairs' u) : Made b given' pairs' s := by
  induction h with
  | given hs => exact hgiven _ hs
  | empty => exact .empty
  | clear _ ih => exact .clear ih
  | inter hmem _ _ ihs iht => exact .inter (hpairs hmem) ihs iht
  | union hmem _ _ ihs iht => exact .union (hpairs hmem) ihs iht
  | diff hmem _ _ ihs iht => exact .diff (hpairs hmem) ihs iht

theorem Made.mono (h : Made b given pairs s) (hpairs : pairs ⊆ pairs') (hgiven : given ⊆ given') :
    Made b given' pairs' s :=
  h.trans hpairs fun _ hu => .given (hgiven hu)

/-- With more sets given, no fewer are made. -/
theorem Made.more (h : Made b given [] s) : Made b (given ∪ given') [] s :=
  h.mono (List.nil_subset _) Set.subset_union_left

theorem made_last : Made b (given ∪ {s}) [] s := .given (.inr rfl)

/-- What comes of sets of a backend is one. -/
theorem Made.valid (h : Made b given pairs s) (hgiven : ∀ u ∈ given, u.Valid b) : s.Valid b := by
  induction h with
  | given hs => exact hgiven _ hs
  | empty => exact RecordSet.valid_empty b
  | clear _ ih => exact ih.clear
  | inter _ _ _ ihs _ => exact ihs.inter _
  | union _ _ _ ihs iht => exact ihs.union iht
  | diff _ _ _ ihs _ => exact ihs.diff _

theorem accounted_pure {a : α} (h : ∀ s ∈ sets a, Made b given [] s) :
    (pure a : Traced α).Accounted b given sets :=
  ⟨h, fun _ he => absurd he List.not_mem_nil⟩

theorem accounted_pure_self (hs : Made b given [] s) :
    (pure s : Traced RecordSet).Accounted b given ({·}) :=
  accounted_pure fun _ hu => Set.mem_singleton_iff.1 hu ▸ hs

/-- **One computation after the other** is accounted for if the second is, given
the sets that the first comes to. -/
theorem Accounted.bind (hx : x.Accounted b given sets)
    (hf : (f x.value).Accounted b (given ∪ sets x.value) sets') :
    (x >>= f).Accounted b given sets' := by
  have hleft : x.pairs ⊆ (x >>= f).pairs := List.subset_append_left _ _
  have hright : (f x.value).pairs ⊆ (x >>= f).pairs := List.subset_append_right _ _
  have hgiven : ∀ s ∈ given ∪ sets x.value, Made b given (x >>= f).pairs s := by
    rintro s (hs | hs)
    · exact .given hs
    · exact (hx.value s hs).mono hleft subset_rfl
  refine ⟨fun s hs => (hf.value s hs).trans hright hgiven, fun e he => ?_⟩
  rcases List.mem_append.1 he with he | he
  · exact ⟨(hx.pairs e he).1.mono hleft subset_rfl, (hx.pairs e he).2.mono hleft subset_rfl⟩
  · exact ⟨(hf.pairs e he).1.trans hright hgiven, (hf.pairs e he).2.trans hright hgiven⟩

/-- One combination is accounted for by its pair. -/
theorem accounted_pair {u : RecordSet} (hs : Made b given [] s) (ht : Made b given [] t)
    (hu : Made b given [(s, t)] s → Made b given [(s, t)] t → Made b given [(s, t)] u) :
    (⟨u, [(s, t)]⟩ : Traced RecordSet).Accounted b given ({·}) := by
  have hs' := hs.mono (List.nil_subset [(s, t)]) subset_rfl
  have ht' := ht.mono (List.nil_subset [(s, t)]) subset_rfl
  refine ⟨fun v hv => ?_, fun e he => ?_⟩
  · rw [Set.mem_singleton_iff.1 hv]
    exact hu hs' ht'
  · rw [List.mem_singleton.1 he]
    exact ⟨hs', ht'⟩

theorem accounted_inter (hs : Made b given [] s) (ht : Made b given [] t) :
    (inter s t).Accounted b given ({·}) :=
  accounted_pair hs ht (.inter (List.mem_singleton_self _))

theorem accounted_union (hs : Made b given [] s) (ht : Made b given [] t) :
    (union s t).Accounted b given ({·}) :=
  accounted_pair hs ht (.union (List.mem_singleton_self _))

theorem accounted_diff (hs : Made b given [] s) (ht : Made b given [] t) :
    (diff s t).Accounted b given ({·}) :=
  accounted_pair hs ht (.diff (List.mem_singleton_self _))

/-- A fold is accounted for if each step is, given the sets from before it and
those it starts from. -/
theorem accounted_foldlM {g : β → α → Traced β} {as : List α} {a : β}
    (ha : ∀ s ∈ sets' a, Made b given [] s)
    (hg : ∀ given', given ⊆ given' → ∀ a a', a' ∈ as → (∀ s ∈ sets' a, Made b given' [] s) →
      (g a a').Accounted b given' sets') :
    (as.foldlM g a).Accounted b given sets' := by
  induction as generalizing a given with
  | nil => exact accounted_pure ha
  | cons a' as ih =>
    rw [List.foldlM_cons]
    have hfirst := hg given subset_rfl a a' List.mem_cons_self ha
    refine hfirst.bind (ih (fun s hs => .given (.inr hs)) ?_)
    exact fun given' hsub a a'' ha'' =>
      hg given' (Set.subset_union_left.trans hsub) a a'' (List.mem_cons_of_mem a' ha'')

theorem accounted_filterMap {g : α → Traced (Option β)} {as : List α}
    (hg : ∀ given', given ⊆ given' → ∀ a ∈ as,
      (g a).Accounted b given' fun o => {s | ∃ a ∈ o, s ∈ sets' a}) :
    (filterMap g as).Accounted b given fun bs => {s | ∃ a ∈ bs, s ∈ sets' a} := by
  induction as generalizing given with
  | nil => exact accounted_pure fun s ⟨_, ha, _⟩ => absurd ha List.not_mem_nil
  | cons a as ih =>
    have hrest : (filterMap g as).Accounted b (given ∪ {s | ∃ a' ∈ (g a).value, s ∈ sets' a'})
        fun bs => {s | ∃ a ∈ bs, s ∈ sets' a} :=
      ih fun given' hsub a' ha' =>
        hg given' (Set.subset_union_left.trans hsub) a' (List.mem_cons_of_mem a ha')
    refine (hg given subset_rfl a List.mem_cons_self).bind (hrest.bind (accounted_pure ?_))
    rintro s ⟨a', ha', hs⟩
    cases ho : (g a).value with
    | none =>
      rw [ho] at ha'
      exact .given (.inr ⟨a', ha', hs⟩)
    | some first =>
      rw [ho] at ha'
      rcases List.mem_cons.1 ha' with rfl | ha'
      · exact .given (.inl (.inr ⟨a', rfl, hs⟩))
      · exact .given (.inr ⟨a', ha', hs⟩)

/-! ## Uniform traces -/

@[simp] theorem uniform_pure (a : α) : (pure a : Traced α).Uniform b :=
  fun _ he => absurd he List.not_mem_nil

theorem Uniform.bind (hx : x.Uniform b) (hf : (f x.value).Uniform b) : (x >>= f).Uniform b := by
  intro e he
  rcases List.mem_append.1 he with he | he
  · exact hx e he
  · exact hf e he

/-- **What is accounted for is uniform**, given sets of one backend. -/
theorem Accounted.uniform (h : x.Accounted b given sets) (hgiven : ∀ s ∈ given, s.Valid b) :
    x.Uniform b := fun e he =>
  ⟨((h.pairs e he).1.valid hgiven).backend_eq, ((h.pairs e he).2.valid hgiven).backend_eq⟩

end Traced

end WildcardIndex
