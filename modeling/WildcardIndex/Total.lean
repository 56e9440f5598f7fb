/-!
# Totals — a measure added up

The total of a measure over a list: how long some parts are together, how many
bytes some sets take. It adds up over the list's pieces, in whatever order they
stand.
-/

namespace WildcardIndex

variable {α : Type}

/-- The sum of `f` over a list. -/
def total (f : α → Nat) (as : List α) : Nat := as.foldl (fun n a => n + f a) 0

/-- A sum begun earlier goes on. -/
theorem foldl_add_eq (f : α → Nat) (n : Nat) (as : List α) :
    as.foldl (fun n a => n + f a) n = n + total f as := by
  induction as generalizing n with
  | nil => rfl
  | cons a as ih =>
    rw [total, List.foldl_cons, List.foldl_cons, ih, ih (0 + f a)]
    omega

@[simp] theorem total_nil (f : α → Nat) : total f [] = 0 := rfl

@[simp] theorem total_cons (f : α → Nat) (a : α) (as : List α) :
    total f (a :: as) = f a + total f as := by
  rw [total, List.foldl_cons, foldl_add_eq, Nat.zero_add]

@[simp] theorem total_append (f : α → Nat) (as bs : List α) :
    total f (as ++ bs) = total f as + total f bs := by
  induction as with
  | nil => simp
  | cons a as ih => rw [List.cons_append, total_cons, total_cons, ih, Nat.add_assoc]

@[simp] theorem total_reverse (f : α → Nat) (as : List α) :
    total f as.reverse = total f as := by
  induction as with
  | nil => rfl
  | cons a as ih => rw [List.reverse_cons, total_append, ih, total_cons, total_cons, total_nil]; omega

/-- Each element is counted in. -/
theorem le_total {f : α → Nat} {a : α} {as : List α} (h : a ∈ as) : f a ≤ total f as := by
  obtain ⟨before, after, rfl⟩ := List.mem_iff_append.1 h
  rw [total_append, total_cons]
  omega

/-- A measure that is at most `n` everywhere comes to at most `n` times the
length. -/
theorem total_le {f : α → Nat} {n : Nat} {as : List α} (h : ∀ a ∈ as, f a ≤ n) :
    total f as ≤ as.length * n := by
  induction as with
  | nil => exact Nat.zero_le _
  | cons a as ih =>
    have first := h a List.mem_cons_self
    have others := ih fun b hb => h b (List.mem_cons_of_mem a hb)
    rw [total_cons, List.length_cons, Nat.add_mul]
    omega

end WildcardIndex
