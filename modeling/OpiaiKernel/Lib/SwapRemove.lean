import Mathlib.Data.List.Perm.Basic
import Mathlib.Data.List.Nodup

/-!
# Unordered arrays

An array whose order does not matter loses an element by moving the last one
into its place.  The result is a permutation of the array without the element.
A count over such an array changes with what it counts.
-/

namespace SwapRemove

variable {α : Type*} [DecidableEq α]

/-- Move the last element to the first place that holds `a`, and drop the last
place. -/
def swapRemove (l : List α) (a : α) : List α :=
  match l.getLast? with
  | none => l
  | some z => if a ∈ l then (l.set (l.idxOf a) z).dropLast else l

theorem swapRemove_of_notMem {l : List α} {a : α} (h : a ∉ l) : swapRemove l a = l := by
  unfold swapRemove
  split <;> simp [h]

theorem swapRemove_last {l : List α} {a : α} (h : a ∉ l) : swapRemove (l ++ [a]) a = l := by
  have hidx : (l ++ [a]).idxOf a = l.length := by
    rw [List.idxOf_append_of_notMem h]
    simp
  simp [swapRemove, hidx]

theorem swapRemove_inner {l m : List α} {a z : α} (h : a ∉ l) :
    swapRemove (l ++ a :: (m ++ [z])) a = l ++ z :: m := by
  have hidx : (l ++ a :: (m ++ [z])).idxOf a = l.length := by
    rw [List.idxOf_append_of_notMem h]
    simp
  have hlast : (l ++ a :: (m ++ [z])).getLast? = some z := by
    rw [← List.cons_append, ← List.append_assoc, List.getLast?_append]
    simp
  have hset : (l ++ a :: (m ++ [z])).set l.length z = (l ++ z :: m) ++ [z] := by
    simp
  simp only [swapRemove, hlast, hidx, hset, List.dropLast_concat]
  simp

theorem perm_erase (l : List α) (a : α) : (swapRemove l a).Perm (l.erase a) := by
  by_cases h : a ∈ l
  · obtain ⟨xs, ys, rfl, hxs⟩ := List.eq_append_cons_of_mem h
    rw [List.erase_append_right _ hxs, List.erase_cons_head]
    rcases List.eq_nil_or_concat ys with rfl | ⟨zs, z, rfl⟩
    · rw [swapRemove_last hxs, List.append_nil]
    · rw [List.concat_eq_append, swapRemove_inner hxs]
      exact (List.perm_append_singleton z zs).symm.append_left xs
  · rw [swapRemove_of_notMem h, List.erase_of_not_mem h]

theorem nodup {l : List α} (hl : l.Nodup) (a : α) : (swapRemove l a).Nodup :=
  (perm_erase l a).nodup_iff.mpr (hl.erase a)

theorem mem_iff {l : List α} (hl : l.Nodup) (a : α) {b : α} :
    b ∈ swapRemove l a ↔ b ≠ a ∧ b ∈ l := by
  rw [(perm_erase l a).mem_iff, hl.mem_erase_iff]

omit [DecidableEq α] in
/-- Changing a predicate at one element of a list changes the count by at most
one. -/
theorem countP_change {l : List α} {a : α} {p q : α → Bool} (hl : l.Nodup)
    (ha : a ∈ l) (hpq : ∀ b ≠ a, p b = q b) :
    l.countP q + (p a).toNat = l.countP p + (q a).toNat := by
  induction l with
  | nil => cases ha
  | cons b l ih =>
      obtain ⟨hb, hl⟩ := List.nodup_cons.mp hl
      rcases eq_or_ne b a with rfl | hne
      · have hrest : l.countP q = l.countP p := by
          apply List.countP_congr
          intro c hc
          rw [hpq c (by rintro rfl; exact hb hc)]
        rw [List.countP_cons, List.countP_cons, hrest]
        cases p b <;> cases q b <;> simp
      · have ih := ih hl ((List.mem_cons.mp ha).resolve_left (Ne.symm hne))
        rw [List.countP_cons, List.countP_cons, hpq b hne]
        omega

end SwapRemove
