import Mathlib.Data.List.Forall2

/-!
# Lists related element by element

A pass over a list that changes each element on its own relates the old list to
the new one.  An element of one list has its partner in the other, and what holds
of pairs carries over.
-/

namespace List.Forall₂

variable {α β γ : Type*} {R : α → β → Prop} {l : List α} {l' : List β}

theorem exists_left (h : Forall₂ R l l') {b : β} (hb : b ∈ l') : ∃ a ∈ l, R a b := by
  induction h with
  | nil => simp at hb
  | @cons a c l l' hac _ ih =>
      rcases List.mem_cons.mp hb with rfl | hb
      · exact ⟨a, List.mem_cons_self, hac⟩
      · obtain ⟨d, hd, hdb⟩ := ih hb
        exact ⟨d, List.mem_cons_of_mem a hd, hdb⟩

theorem exists_right (h : Forall₂ R l l') {a : α} (ha : a ∈ l) : ∃ b ∈ l', R a b := by
  obtain ⟨b, hb, hab⟩ := exists_left (R := fun b a => R a b) (Forall₂.flip h) ha
  exact ⟨b, hb, hab⟩

theorem trans {S : β → γ → Prop} {T : α → γ → Prop} {l'' : List γ} (h : Forall₂ R l l')
    (h' : Forall₂ S l' l'') (hT : ∀ a b c, R a b → S b c → T a c) : Forall₂ T l l'' := by
  induction h generalizing l'' with
  | nil =>
      cases h'
      exact .nil
  | cons hab _ ih =>
      cases h' with
      | cons hbc htail => exact .cons (hT _ _ _ hab hbc) (ih htail)

theorem map_eq {f : α → γ} {g : β → γ} (h : Forall₂ R l l') (hfg : ∀ a b, R a b → f a = g b) :
    l.map f = l'.map g := by
  induction h with
  | nil => rfl
  | cons hab _ ih => rw [List.map_cons, List.map_cons, hfg _ _ hab, ih]

theorem filter {p : α → Bool} {q : β → Bool} (h : Forall₂ R l l')
    (hpq : ∀ a b, R a b → p a = q b) : Forall₂ R (l.filter p) (l'.filter q) := by
  induction h with
  | nil => exact .nil
  | @cons a b l l' hab _ ih =>
      rw [List.filter_cons, List.filter_cons, hpq a b hab]
      split
      · exact .cons hab ih
      · exact ih

theorem eraseIdx (h : Forall₂ R l l') (i : ℕ) : Forall₂ R (l.eraseIdx i) (l'.eraseIdx i) := by
  induction h generalizing i with
  | nil => exact .nil
  | cons hab htail ih =>
      cases i with
      | zero => exact htail
      | succ i => exact .cons hab (ih i)

/-- A property of pairs of the new list follows from properties of the same pairs
of both. -/
theorem pairwise {S : α → α → Prop} {T U : β → β → Prop} (h : Forall₂ R l l')
    (hS : l.Pairwise S) (hT : l'.Pairwise T)
    (hU : ∀ a a' b b', R a b → R a' b' → S a a' → T b b' → U b b') : l'.Pairwise U := by
  induction h with
  | nil => exact .nil
  | cons hab htail ih =>
      obtain ⟨hSa, hS⟩ := List.pairwise_cons.mp hS
      obtain ⟨hTb, hT⟩ := List.pairwise_cons.mp hT
      refine List.pairwise_cons.mpr ⟨fun b' hb' => ?_, ih hS hT⟩
      obtain ⟨a', ha', hab'⟩ := htail.exists_left hb'
      exact hU _ a' _ b' hab hab' (hSa a' ha') (hTb b' hb')

end List.Forall₂
