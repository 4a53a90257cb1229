import Mathlib.Logic.ExistsUnique
import Mathlib.Tactic.ByContra
import Mathlib.Tactic.TypeStar

/-!
# Things that are in one place

The things that satisfy `D` are each in exactly one place, and nothing else is
in a place.  A step that moves one thing keeps this.
-/

/-- `mem p a` says that `a` is in the place `p`. -/
structure Placement {P α : Type*} (D : α → Prop) (mem : P → α → Prop) : Prop where
  inside : ∀ p a, mem p a → D a
  sole : ∀ a, D a → ∃! p, mem p a

namespace Placement

variable {P α : Type*} {D : α → Prop} {mem mem' : P → α → Prop} {a : α} {p q : P}

theorem unique (h : Placement D mem) (hp : mem p a) (hq : mem q a) : p = q :=
  (h.sole a (h.inside p a hp)).unique hp hq

theorem notMem_of_ne (h : Placement D mem) (hp : mem p a) (hne : q ≠ p) : ¬ mem q a :=
  fun hq => hne (h.unique hq hp)

theorem congr (h : Placement D mem) (hmem : ∀ p a, mem' p a ↔ mem p a) : Placement D mem' where
  inside p a ha := h.inside p a ((hmem p a).mp ha)
  sole a ha := by
    obtain ⟨p, hp, honly⟩ := h.sole a ha
    exact ⟨p, (hmem p a).mpr hp, fun q hq => honly q ((hmem q a).mp hq)⟩

/-- One thing is new and put in `q`, and everything else stays. -/
theorem insert (h : Placement D mem) {D' : α → Prop} (hD : ∀ b, D' b ↔ D b ∨ b = a)
    (hin : mem' q a) (honly : ∀ r, mem' r a → r = q)
    (hframe : ∀ r b, b ≠ a → (mem' r b ↔ mem r b)) : Placement D' mem' := by
  refine ⟨fun r b hb => ?_, fun b hb => ?_⟩
  · rw [hD]
    by_cases heq : b = a
    · exact .inr heq
    · exact .inl (h.inside r b ((hframe r b heq).mp hb))
  · by_cases heq : b = a
    · subst heq
      exact ⟨q, hin, honly⟩
    · obtain ⟨r, hr, hsole⟩ := h.sole b (((hD b).mp hb).resolve_right heq)
      exact ⟨r, (hframe r b heq).mpr hr, fun r' hr' => hsole r' ((hframe r' b heq).mp hr')⟩

/-- One thing is moved from `p` to `q`, and everything else stays. -/
theorem move (h : Placement D mem) (ha : mem p a) (hout : ¬ mem' p a) (hin : mem' q a)
    (hframe : ∀ r b, (b = a → r ≠ p ∧ r ≠ q) → (mem' r b ↔ mem r b)) : Placement D mem' := by
  refine ⟨fun r b hb => ?_, fun b hb => ?_⟩
  · by_cases heq : b = a
    · exact heq ▸ h.inside p a ha
    · exact h.inside r b ((hframe r b fun h => absurd h heq).mp hb)
  · by_cases heq : b = a
    · subst heq
      refine ⟨q, hin, fun r hr => ?_⟩
      by_contra hrq
      have hrp : r ≠ p := by
        rintro rfl
        exact hout hr
      exact hrp (h.unique ((hframe r b fun _ => ⟨hrp, hrq⟩).mp hr) ha)
    · have hiff (r : P) : mem' r b ↔ mem r b := hframe r b fun h => absurd h heq
      obtain ⟨r, hr, honly⟩ := h.sole b hb
      exact ⟨r, (hiff r).mpr hr, fun r' hr' => honly r' ((hiff r').mp hr')⟩

/-- Some of the things in `p` are moved to `q`. -/
theorem transfer (h : Placement D mem) {Q : α → Prop} (hp : ∀ b, mem' p b ↔ mem p b ∧ ¬Q b)
    (hq : ∀ b, mem' q b ↔ mem q b ∨ mem p b ∧ Q b)
    (hframe : ∀ r b, r ≠ p → r ≠ q → (mem' r b ↔ mem r b)) : Placement D mem' := by
  refine ⟨fun r b hb => ?_, fun b hb => ?_⟩
  · by_cases hrp : r = p
    · subst hrp
      exact h.inside r b ((hp b).mp hb).1
    · by_cases hrq : r = q
      · subst hrq
        rcases (hq b).mp hb with hb | ⟨hb, -⟩ <;> exact h.inside _ b hb
      · exact h.inside r b ((hframe r b hrp hrq).mp hb)
  · obtain ⟨r, hr, honly⟩ := h.sole b hb
    by_cases hmove : mem p b ∧ Q b
    · refine ⟨q, (hq b).mpr (.inr hmove), fun r' hr' => ?_⟩
      by_contra hne
      by_cases hrp : r' = p
      · subst hrp
        exact ((hp b).mp hr').2 hmove.2
      · exact hrp (h.unique ((hframe r' b hrp hne).mp hr') hmove.1)
    · have hback (r' : P) (hr' : mem' r' b) : mem r' b := by
        by_cases hrq : r' = q
        · subst hrq
          exact ((hq b).mp hr').resolve_right hmove
        · by_cases hrp : r' = p
          · subst hrp
            exact ((hp b).mp hr').1
          · exact (hframe r' b hrp hrq).mp hr'
      refine ⟨r, ?_, fun r' hr' => honly r' (hback r' hr')⟩
      by_cases hrq : r = q
      · subst hrq
        exact (hq b).mpr (.inl hr)
      · by_cases hrp : r = p
        · subst hrp
          exact (hp b).mpr ⟨hr, fun hQ => hmove ⟨hr, hQ⟩⟩
        · exact (hframe r b hrp hrq).mpr hr

end Placement
