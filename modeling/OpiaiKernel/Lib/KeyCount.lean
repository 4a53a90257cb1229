import Mathlib.Data.List.Count
import Mathlib.Data.List.Nodup

/-!
# How many keys hold

A list of distinct keys, each of which holds or does not.  The number of those
that hold changes by one when one key changes.
-/

namespace KeyCount

variable {κ : Type*} [DecidableEq κ] {keys : List κ} {p q : κ → Bool} {k : κ}

omit [DecidableEq κ] in
theorem congr (h : ∀ j ∈ keys, p j = q j) : keys.countP p = keys.countP q :=
  List.countP_congr fun j hj => by rw [h j hj]

/-- One key starts to hold, the others are as before. -/
theorem gain (hnodup : keys.Nodup) (hk : k ∈ keys) (hp : p k = false) (hq : q k = true)
    (hother : ∀ j ∈ keys, j ≠ k → q j = p j) : keys.countP q = keys.countP p + 1 := by
  have hrest : (keys.erase k).countP q = (keys.erase k).countP p := by
    refine congr fun j hj => ?_
    rw [hnodup.mem_erase_iff] at hj
    exact hother j hj.2 hj.1
  rw [(List.perm_cons_erase hk).countP_eq q, (List.perm_cons_erase hk).countP_eq p,
    List.countP_cons_of_pos hq, List.countP_cons_of_neg (by simp [hp]), hrest]

theorem lose (hnodup : keys.Nodup) (hk : k ∈ keys) (hp : p k = true) (hq : q k = false)
    (hother : ∀ j ∈ keys, j ≠ k → q j = p j) : keys.countP p = keys.countP q + 1 :=
  gain hnodup hk hq hp fun j hj hne => (hother j hj hne).symm

/-- A key that does not hold is dropped. -/
theorem erase (hk : p k = false) : (keys.erase k).countP p = keys.countP p := by
  by_cases hmem : k ∈ keys
  · rw [(List.perm_cons_erase hmem).countP_eq p, List.countP_cons_of_neg (by simp [hk])]
  · rw [List.erase_of_not_mem hmem]

end KeyCount
