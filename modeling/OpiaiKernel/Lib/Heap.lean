import Mathlib.Data.List.Nodup
import Mathlib.Data.List.Perm.Basic
import Mathlib.Data.List.Range

/-!
# Objects that are allocated and freed

The objects are numbered in the order of their allocation.  A program that owns
some of them may use and free these; the other objects that it allocated are
freed.  What it does to an object that is freed is remembered.
-/

structure Heap where
  next : ℕ
  frees : List ℕ
  misused : Bool
  deriving DecidableEq

namespace Heap

def empty : Heap where
  next := 0
  frees := []
  misused := false

def alloc (h : Heap) : ℕ × Heap := (h.next, { h with next := h.next + 1 })

def use (h : Heap) (p : ℕ) : Heap := { h with misused := h.misused || decide (p ∈ h.frees) }

def free (h : Heap) (p : ℕ) : Heap := { h.use p with frees := p :: h.frees }

/-- Every object was freed once, and none was used after that. -/
structure Clean (h : Heap) : Prop where
  nodup : h.frees.Nodup
  mem_iff : ∀ p, p ∈ h.frees ↔ p < h.next
  fresh : h.misused = false

/-- The objects of `l` are the ones that are not freed. -/
structure Owns (h : Heap) (l : List ℕ) : Prop where
  perm : (l ++ h.frees).Perm (List.range h.next)
  fresh : h.misused = false

/-- What one heap remembers of another. -/
structure Grows (h h' : Heap) : Prop where
  frees : h.frees ⊆ h'.frees
  misused : h.misused = true → h'.misused = true

variable {h h' h'' : Heap} {l l' : List ℕ} {p : ℕ}

theorem empty_owns : empty.Owns [] := ⟨List.Perm.refl _, rfl⟩

namespace Owns

theorem nodup (ho : h.Owns l) : (l ++ h.frees).Nodup := ho.perm.nodup_iff.mpr List.nodup_range

theorem congr (ho : h.Owns l) (hl : l'.Perm l) : h.Owns l' :=
  ⟨(hl.append_right _).trans ho.perm, ho.fresh⟩

theorem notMem_frees (ho : h.Owns l) (hp : p ∈ l) : p ∉ h.frees := fun hin =>
  (List.nodup_append.mp ho.nodup).2.2 p hp p hin rfl

theorem alloc (ho : h.Owns l) : h.alloc.2.Owns (h.alloc.1 :: l) := by
  refine ⟨?_, ho.fresh⟩
  rw [Heap.alloc, List.range_succ]
  exact (ho.perm.cons _).trans (List.perm_append_singleton _ _).symm

theorem use_eq (ho : h.Owns l) (hp : p ∈ l) : h.use p = h := by
  rw [use, decide_eq_false (ho.notMem_frees hp), Bool.or_false]

theorem use (ho : h.Owns l) (hp : p ∈ l) : (h.use p).Owns l := by
  rwa [ho.use_eq hp]

theorem free (ho : h.Owns (p :: l)) : (h.free p).Owns l := by
  rw [Heap.free, ho.use_eq List.mem_cons_self]
  exact ⟨List.perm_middle.trans ho.perm, ho.fresh⟩

/-- Only who owns nothing any more has cleaned up. -/
theorem clean_iff (ho : h.Owns l) : h.Clean ↔ l = [] := by
  constructor
  · intro hclean
    refine List.eq_nil_iff_forall_not_mem.mpr fun p hp => ho.notMem_frees hp ?_
    refine (hclean.mem_iff p).mpr (List.mem_range.mp (ho.perm.mem_iff.mp ?_))
    exact List.mem_append_left _ hp
  · rintro rfl
    refine ⟨ho.nodup, fun p => ?_, ho.fresh⟩
    rw [← List.mem_range]
    exact ho.perm.mem_iff

end Owns

namespace Grows

theorem refl (h : Heap) : Grows h h := ⟨List.Subset.refl _, id⟩

theorem trans (h₁ : Grows h h') (h₂ : Grows h' h'') : Grows h h'' :=
  ⟨List.Subset.trans h₁.frees h₂.frees, h₂.misused ∘ h₁.misused⟩

theorem alloc (h : Heap) : Grows h h.alloc.2 := ⟨List.Subset.refl _, id⟩

theorem use (h : Heap) (p : ℕ) : Grows h (h.use p) :=
  ⟨List.Subset.refl _, fun hm => by simp [Heap.use, hm]⟩

theorem free (h : Heap) (p : ℕ) : Grows h (h.free p) :=
  ⟨List.subset_cons_self _ _, (use h p).misused⟩

/-- What is misused stays so. -/
theorem not_clean (h₁ : Grows h h') (hm : h.misused = true) : ¬ h'.Clean := fun hclean => by
  have hfresh := hclean.fresh
  rw [h₁.misused hm] at hfresh
  cases hfresh

end Grows

/-- An object that is used after it was freed. -/
theorem misused_of_use (hp : p ∈ h.frees) : (h.use p).misused = true := by
  simp [use, hp]

end Heap
