import Mathlib.Data.List.Basic
import Mathlib.Tactic.TypeStar

/-!
# Cutting a list into uniform chunks

A list is cut into consecutive chunks, each with one label.  No cut has fewer chunks
than the one that goes on as long as the label stays the same.
-/

namespace Chunks

variable {α β : Type*} {f : α → β} {n m : ℕ} {s : List α}

/-- All entries have the same label. -/
def Uniform (f : α → β) (c : List α) : Prop := ∀ x ∈ c, ∀ y ∈ c, f x = f y

/-- The list is cut into at most `n` uniform chunks. -/
def Chunked (f : α → β) (n : ℕ) (s : List α) : Prop :=
  ∃ cs : List (List α), cs.length ≤ n ∧ cs.flatten = s ∧ ∀ c ∈ cs, Uniform f c

theorem Uniform.of_subset {c d : List α} (h : Uniform f c) (hd : d ⊆ c) : Uniform f d :=
  fun x hx y hy => h x (hd hx) y (hd hy)

theorem Uniform.of_forall {c : List α} {b : β} (h : ∀ x ∈ c, f x = b) : Uniform f c :=
  fun x hx y hy => (h x hx).trans (h y hy).symm

theorem Chunked.mono (h : Chunked f n s) (hnm : n ≤ m) : Chunked f m s := by
  obtain ⟨cs, hlen, hcs⟩ := h
  exact ⟨cs, Nat.le_trans hlen hnm, hcs⟩

theorem chunked_nil : Chunked f n ([] : List α) :=
  ⟨[], Nat.zero_le n, rfl, fun c hc => by cases hc⟩

theorem eq_nil_of_chunked_zero (h : Chunked f 0 s) : s = [] := by
  obtain ⟨cs, hlen, rfl, -⟩ := h
  rw [List.length_eq_zero_iff.mp (Nat.le_zero.mp hlen)]
  rfl

/-- Dropping a part at the front needs no more chunks. -/
theorem Chunked.of_append {p : List α} (h : Chunked f n (p ++ s)) : Chunked f n s := by
  obtain ⟨cs, hlen, hflat, hcs⟩ := h
  induction cs generalizing p n with
  | nil =>
      have hnil : s = [] := (List.append_eq_nil_iff.mp hflat.symm).2
      rw [hnil]
      exact chunked_nil
  | cons c cs ih =>
      rw [List.flatten_cons] at hflat
      rcases List.append_eq_append_iff.mp hflat with ⟨p', rfl, hs⟩ | ⟨c', rfl, hs⟩
      · -- the part goes on behind the first chunk
        rw [List.length_cons] at hlen
        have hrest := ih (n := n - 1) (by omega) hs fun d hd => hcs d (List.mem_cons_of_mem c hd)
        exact hrest.mono (Nat.sub_le n 1)
      · refine ⟨c' :: cs, hlen, ?_, ?_⟩
        · rw [List.flatten_cons, ← hs]
        · intro d hd
          rcases List.mem_cons.mp hd with rfl | hd
          · exact (hcs _ List.mem_cons_self).of_subset (List.subset_append_right p d)
          · exact hcs d (List.mem_cons_of_mem _ hd)

/-- Where the label changes, a chunk has ended. -/
theorem Chunked.of_cut {p : List α} {a b : α} (h : Chunked f (n + 1) (p ++ b :: s))
    (ha : a ∈ p) (hab : f a ≠ f b) : Chunked f n (b :: s) := by
  obtain ⟨cs, hlen, hflat, hcs⟩ := h
  cases cs with
  | nil => simp at hflat
  | cons c cs =>
      have hn : cs.length ≤ n := by
        rw [List.length_cons] at hlen
        omega
      have hrest : ∀ d ∈ cs, Uniform f d := fun d hd => hcs d (List.mem_cons_of_mem c hd)
      rw [List.flatten_cons] at hflat
      rcases List.append_eq_append_iff.mp hflat with ⟨p', rfl, hs⟩ | ⟨c', rfl, hs⟩
      · exact Chunked.of_append (p := p') ⟨cs, hn, hs, hrest⟩
      · cases c' with
        | nil => exact ⟨cs, hn, hs.symm, hrest⟩
        | cons x c' =>
            obtain ⟨rfl, -⟩ := List.cons.inj hs
            exact absurd (hcs _ List.mem_cons_self a (List.mem_append_left _ ha) b
              (List.mem_append_right _ List.mem_cons_self)) hab

end Chunks
