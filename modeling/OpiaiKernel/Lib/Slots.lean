import Mathlib.Data.List.Perm.Basic
import Mathlib.Tactic.TypeStar

/-!
# Slots with a mark for the free ones

A fixed number of slots holds values; a value that never occurs otherwise marks
the free slots.  Filling and clearing a slot both exchange the first slot that
holds one value for another.
-/

namespace Slots

variable {α : Type*} [DecidableEq α] {old new free a : α} {l l' : List α}

/-- Exchange the first `old` for `new`. -/
def exchange (old new : α) : List α → Option (List α)
  | [] => none
  | b :: l => if b = old then some (new :: l) else (exchange old new l).map (b :: ·)

/-- The values in the slots. -/
def held (free : α) (l : List α) : List α := l.filter (· ≠ free)

theorem exchange_perm (h : exchange old new l = some l') : (old :: l').Perm (new :: l) := by
  induction l generalizing l' with
  | nil => cases h
  | cons b l ih =>
      by_cases hb : b = old
      · simp only [exchange, hb, if_true, Option.some.injEq] at h
        subst h
        rw [hb]
        exact .swap new old l
      · simp only [exchange, hb, if_false, Option.map_eq_some_iff] at h
        obtain ⟨l₁, h₁, rfl⟩ := h
        calc (old :: b :: l₁).Perm (b :: old :: l₁) := .swap b old l₁
          _ |>.Perm (b :: new :: l) := (ih h₁).cons b
          _ |>.Perm (new :: b :: l) := .swap new b l

theorem exchange_eq_none : exchange old new l = none ↔ old ∉ l := by
  induction l with
  | nil => simp [exchange]
  | cons b l ih =>
      by_cases hb : b = old
      · simp [exchange, hb]
      · simp [exchange, hb, ih, Ne.symm hb]

theorem length_exchange (h : exchange old new l = some l') : l'.length = l.length :=
  Nat.succ.inj (exchange_perm h).length_eq

/-- A slot is free unless all of them hold something. -/
theorem exchange_free (h : (held free l).length < l.length) :
    ∃ l', exchange free a l = some l' := by
  apply Option.ne_none_iff_exists'.mp
  intro hnone
  have hall : held free l = l := by
    apply List.filter_eq_self.mpr
    intro b hb
    exact decide_eq_true (ne_of_mem_of_not_mem hb (exchange_eq_none.mp hnone))
  rw [hall] at h
  exact Nat.lt_irrefl _ h

/-- Filling a free slot adds to what is held. -/
theorem held_fill (ha : a ≠ free) (h : exchange free a l = some l') :
    (held free l').Perm (a :: held free l) := by
  simpa [held, ha] using (exchange_perm h).filter (· ≠ free)

/-- Clearing a slot takes from what is held. -/
theorem held_clear (ha : a ≠ free) (h : exchange a free l = some l') :
    (a :: held free l').Perm (held free l) := by
  simpa [held, ha] using (exchange_perm h).filter (· ≠ free)

theorem held_new {n : Nat} (ha : a ≠ free) : held free (a :: List.replicate n free) = [a] := by
  simp [held, ha]

theorem mem_held : a ∈ held free l ↔ a ∈ l ∧ a ≠ free := by
  simp [held]

theorem length_held : (held free l).length = l.countP (· ≠ free) := by
  simp [held, List.countP_eq_length_filter]

end Slots
