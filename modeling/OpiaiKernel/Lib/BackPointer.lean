import Mathlib.Data.List.Nodup
import Mathlib.Logic.Function.Basic

/-!
# Lists with back pointers

Each holder has a list of members, and the object of a member points back to the
holder.  An object is a member of at most one list, once, and points to the holder of
this list.
-/

/-- `owner` names the one list that has the object. -/
structure BackPointer {ι α κ : Type*} (key : α → κ) (members : ι → List α)
    (owner : κ → Option ι) : Prop where
  nodup : ∀ i, ((members i).map key).Nodup
  owner_iff : ∀ i k, owner k = some i ↔ k ∈ (members i).map key

namespace BackPointer

variable {ι α κ : Type*} {key : α → κ} {members : ι → List α} {owner : κ → Option ι}
  {i j : ι} {a : α} {k : κ}

theorem empty : BackPointer key (fun _ : ι => []) fun _ => none where
  nodup _ := List.nodup_nil
  owner_iff i k := by simp

theorem unique (h : BackPointer key members owner) (hi : k ∈ (members i).map key)
    (hj : k ∈ (members j).map key) : i = j :=
  Option.some.inj (((h.owner_iff i k).mpr hi).symm.trans ((h.owner_iff j k).mpr hj))

variable [DecidableEq ι] [DecidableEq κ]

/-- An object without a holder is added. -/
theorem cons (h : BackPointer key members owner) (hnone : owner (key a) = none) :
    BackPointer key (Function.update members i (a :: members i))
      (Function.update owner (key a) (some i)) := by
  have hfree (j : ι) : key a ∉ (members j).map key := by
    rw [← h.owner_iff, hnone]
    simp
  constructor
  · intro j
    rcases eq_or_ne j i with rfl | hne
    · rw [Function.update_self, List.map_cons, List.nodup_cons]
      exact ⟨hfree j, h.nodup j⟩
    · rw [Function.update_of_ne hne]
      exact h.nodup j
  · intro j k
    rcases eq_or_ne k (key a) with rfl | hk
    · rw [Function.update_self]
      rcases eq_or_ne j i with rfl | hne
      · simp
      · rw [Function.update_of_ne hne, Option.some.injEq]
        exact iff_of_false hne.symm (hfree j)
    · rw [Function.update_of_ne hk, h.owner_iff]
      rcases eq_or_ne j i with rfl | hne
      · rw [Function.update_self, List.map_cons, List.mem_cons]
        exact ⟨.inr, fun hor => hor.resolve_left hk⟩
      · rw [Function.update_of_ne hne]

/-- The object `k` is taken off the list that has it. -/
theorem eraseP (h : BackPointer key members owner) (hk : k ∈ (members i).map key) :
    BackPointer key (Function.update members i ((members i).eraseP fun a => key a = k))
      (Function.update owner k none) := by
  have hsub : ((members i).eraseP fun a => key a = k).map key = ((members i).map key).erase k := by
    rw [List.erase_eq_eraseP', List.eraseP_map]
    rfl
  constructor
  · intro j
    rcases eq_or_ne j i with rfl | hne
    · rw [Function.update_self, hsub]
      exact (h.nodup j).erase k
    · rw [Function.update_of_ne hne]
      exact h.nodup j
  · intro j l
    rcases eq_or_ne l k with rfl | hl
    · rw [Function.update_self]
      refine iff_of_false (by simp) ?_
      rcases eq_or_ne j i with rfl | hne
      · rw [Function.update_self, hsub]
        exact (h.nodup j).not_mem_erase
      · rw [Function.update_of_ne hne]
        exact fun hj => hne (h.unique hj hk)
    · rw [Function.update_of_ne hl, h.owner_iff]
      rcases eq_or_ne j i with rfl | hne
      · rw [Function.update_self, hsub, List.mem_erase_of_ne hl]
      · rw [Function.update_of_ne hne]

omit [DecidableEq ι] in
/-- The pointers of a list are reset one after the other. -/
theorem foldl_update (l : List α) (k : κ) :
    l.foldl (fun owner a => Function.update owner (key a) none) owner k =
      if k ∈ l.map key then none else owner k := by
  induction l generalizing owner with
  | nil => simp
  | cons a l ih =>
      rw [List.foldl_cons, ih, List.map_cons]
      by_cases hl : k ∈ l.map key
      · simp [hl]
      · rcases eq_or_ne k (key a) with rfl | hne
        · simp [hl]
        · simp [hl, hne]

/-- A list is cleared with the pointers to it. -/
theorem clear (h : BackPointer key members owner) :
    BackPointer key (Function.update members i [])
      ((members i).foldl (fun owner a => Function.update owner (key a) none) owner) := by
  constructor
  · intro j
    rcases eq_or_ne j i with rfl | hne
    · simp
    · rw [Function.update_of_ne hne]
      exact h.nodup j
  · intro j k
    rw [foldl_update]
    split_ifs with hk
    · refine iff_of_false (by simp) ?_
      rcases eq_or_ne j i with rfl | hne
      · simp
      · rw [Function.update_of_ne hne]
        exact fun hj => hne (h.unique hj hk)
    · rw [h.owner_iff]
      rcases eq_or_ne j i with rfl | hne
      · simpa using hk
      · rw [Function.update_of_ne hne]

end BackPointer
