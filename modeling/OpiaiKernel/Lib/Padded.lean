import Mathlib.Data.List.DropRight

/-!
# Lists padded to a length

Two lists that are padded to one length with the same entry are equal exactly when they
agree up to the padding entries at their ends.
-/

namespace Padded

variable {α : Type*} [DecidableEq α] {z : α} {n : ℕ} {xs ys : List α}

def pad (z : α) (n : ℕ) (xs : List α) : List α := xs ++ List.replicate (n - xs.length) z

/-- The list without the padding entries at its end. -/
def strip (z : α) (xs : List α) : List α := xs.rdropWhile (· = z)

omit [DecidableEq α] in
theorem length_pad (h : xs.length ≤ n) : (pad z n xs).length = n := by
  rw [pad, List.length_append, List.length_replicate, Nat.add_sub_cancel' h]

omit [DecidableEq α] in
theorem map_pad {β : Type*} (f : α → β) : (pad z n xs).map f = pad (f z) n (xs.map f) := by
  rw [pad, pad, List.map_append, List.map_replicate, List.length_map]

theorem strip_append_replicate : strip z (xs ++ List.replicate n z) = strip z xs := by
  induction n with
  | zero => rw [List.replicate_zero, List.append_nil]
  | succ n ih =>
      rw [List.replicate_succ', ← List.append_assoc, strip,
        List.rdropWhile_concat_pos _ _ _ (by simp)]
      exact ih

@[simp] theorem strip_pad : strip z (pad z n xs) = strip z xs := strip_append_replicate

theorem eq_strip_append (z : α) (xs : List α) :
    ∃ k, xs = strip z xs ++ List.replicate k z := by
  have happ : strip z xs ++ xs.rtakeWhile (· = z) = xs := List.rdropWhile_append_rtakeWhile
  have htake : ∀ x ∈ xs.rtakeWhile (· = z), x = z := fun x hx => by
    simpa using List.mem_rtakeWhile_imp hx
  rw [List.eq_replicate_of_mem htake] at happ
  exact ⟨_, happ.symm⟩

theorem pad_strip (h : xs.length ≤ n) : pad z n (strip z xs) = pad z n xs := by
  obtain ⟨k, hk⟩ := eq_strip_append z xs
  have hlen := congrArg List.length hk
  rw [List.length_append, List.length_replicate] at hlen
  have hn : n - (strip z xs).length = k + (n - xs.length) := by omega
  rw [pad, pad, hn, List.replicate_add, ← List.append_assoc, ← hk]

theorem pad_eq_pad_iff (hx : xs.length ≤ n) (hy : ys.length ≤ n) :
    pad z n xs = pad z n ys ↔ strip z xs = strip z ys := by
  constructor
  · intro h
    have hstrip := congrArg (strip z) h
    rwa [strip_pad, strip_pad] at hstrip
  · intro h
    rw [← pad_strip hx, h, pad_strip hy]

end Padded
