import Mathlib.Data.List.Basic
import Mathlib.Order.Basic
import Mathlib.Tactic.TypeStar

/-!
# Sorted lists by the values of a key

A list in increasing order of a key is the part below a value, the part at the
value and the part above it, so the counts of the parts tell where each is.
-/

namespace SortedSplit

variable {α : Type*} {key : α → ℕ} {l : List α}

theorem split (hl : l.Pairwise fun a b => key a ≤ key b) (i : ℕ) :
    l = (l.filter fun a => key a < i) ++
      ((l.filter fun a => key a = i) ++ l.filter fun a => i < key a) := by
  induction l with
  | nil => rfl
  | cons a l ih =>
      obtain ⟨ha, hl⟩ := List.pairwise_cons.mp hl
      have hrest := ih hl
      have hnone : i ≤ key a → (l.filter fun b => key b < i) = [] := by
        intro hle
        rw [List.filter_eq_nil_iff]
        intro b hb
        have := ha b hb
        simp only [decide_eq_true_eq]
        omega
      have hat : i < key a → (l.filter fun b => key b = i) = [] := by
        intro hlt
        rw [List.filter_eq_nil_iff]
        intro b hb
        have := ha b hb
        simp only [decide_eq_true_eq]
        omega
      rcases Nat.lt_trichotomy (key a) i with hlt | heq | hgt
      · simp only [List.filter_cons, hlt, Nat.ne_of_lt hlt, Nat.lt_asymm hlt, decide_true,
          decide_false, if_true, Bool.false_eq_true, if_false, List.cons_append]
        rw [← hrest]
      · rw [hnone (by omega), List.nil_append] at hrest
        simp only [List.filter_cons, heq, Nat.lt_irrefl, decide_true, decide_false, if_true,
          Bool.false_eq_true, if_false, hnone (by omega), List.nil_append, List.cons_append]
        rw [← hrest]
      · rw [hnone (by omega), hat hgt, List.nil_append, List.nil_append] at hrest
        simp only [List.filter_cons, hgt, Nat.ne_of_gt hgt, Nat.lt_asymm hgt, decide_true,
          decide_false, if_true, Bool.false_eq_true, if_false, hnone (by omega), hat hgt,
          List.nil_append]
        rw [← hrest]

theorem drop_take (hl : l.Pairwise fun a b => key a ≤ key b) (i : ℕ) :
    (l.drop (l.countP fun a => key a < i)).take (l.countP fun a => key a = i) =
      l.filter fun a => key a = i := by
  have hparts : ∀ xs ys zs : List α, l = xs ++ (ys ++ zs) →
      (l.drop xs.length).take ys.length = ys := by
    intro xs ys zs heq
    rw [heq, List.drop_left, List.take_left]
  rw [List.countP_eq_length_filter, List.countP_eq_length_filter]
  exact hparts _ _ _ (split hl i)

theorem countP_lt_succ (key : α → ℕ) (l : List α) (i : ℕ) :
    (l.countP fun a => key a < i) + (l.countP fun a => key a = i) =
      l.countP fun a => key a < i + 1 := by
  induction l with
  | nil => rfl
  | cons a l ih =>
      simp only [List.countP_cons, decide_eq_true_eq]
      split <;> split <;> split <;> omega

end SortedSplit
