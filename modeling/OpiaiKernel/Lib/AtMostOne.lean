import Mathlib.Data.List.Count
import Mathlib.Tactic.ByContra

/-!
# At most one entry

A list whose entries stand for what is under way has at most one entry with an
exclusive property.  Entries with equal values are interchangeable, so that an
entry is replaced by erasing one with its value.
-/

namespace AtMostOne

variable {α : Type*} [DecidableEq α] {p : α → Bool} {l next : List α} {a b : α}

theorem countP_erase (ha : a ∈ l) :
    (l.erase a).countP p + (if p a = true then 1 else 0) = l.countP p := by
  have hperm := (List.perm_cons_erase ha).countP_eq p
  rw [List.countP_cons] at hperm
  exact hperm.symm

/-- The entries that follow have the property at most as often. -/
theorem replace (h : l.countP p ≤ 1) (ha : a ∈ l)
    (hnext : next.countP p ≤ if p a = true then 1 else 0) :
    (next ++ l.erase a).countP p ≤ 1 := by
  have herase := countP_erase (p := p) ha
  rw [List.countP_append]
  omega

omit [DecidableEq α] in
theorem insert (h : ∀ b ∈ l, p b = false) : (a :: l).countP p ≤ 1 := by
  have hzero : l.countP p = 0 := List.countP_eq_zero.mpr fun b hb => by simp [h b hb]
  rw [List.countP_cons, hzero]
  split <;> omega

theorem other (h : l.countP p ≤ 1) (ha : a ∈ l) (hp : p a = true) (hb : b ∈ l.erase a) :
    p b = false := by
  by_contra hpb
  have hpos : 0 < (l.erase a).countP p :=
    List.countP_pos_iff.mpr ⟨b, hb, by simpa using hpb⟩
  have herase := countP_erase (p := p) ha
  rw [if_pos hp] at herase
  omega

theorem unique (h : l.countP p ≤ 1) (ha : a ∈ l) (hp : p a = true) (hb : b ∈ l)
    (hpb : p b = true) : b = a := by
  by_contra hne
  have hother := other h ha hp ((List.mem_erase_of_ne hne).mpr hb)
  rw [hpb] at hother
  cases hother

end AtMostOne
