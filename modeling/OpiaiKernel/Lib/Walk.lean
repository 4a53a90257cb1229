import Mathlib.Data.List.Basic

/-!
# A walk over keys that changes the state

The walk calls a function for each key that holds when it comes there, and may
stop after a call.  What a call preserves the walk preserves.  If a call makes
its key not hold, no call makes a key hold, and the walk stops only when no key
holds, then no key holds at the end.
-/

namespace Walk

variable {σ κ : Type*} (p : σ → κ → Bool) (stop : σ → Prop) [DecidablePred stop]
  (f : σ → κ → σ)

def run : List κ → σ → σ
  | [], s => s
  | k :: keys, s =>
    if p s k then
      if stop (f s k) then f s k else run keys (f s k)
    else run keys s

variable {p stop f} {keys : List κ} {s : σ}

theorem preserves {I : σ → Prop} (hf : ∀ s k, k ∈ keys → I s → p s k = true → I (f s k))
    (h : I s) : I (run p stop f keys s) := by
  induction keys generalizing s with
  | nil => exact h
  | cons k keys ih =>
    have rest := fun {s} (h : I s) => ih (fun s j hj => hf s j (.tail _ hj)) h
    rw [run]
    split_ifs with hk
    · exact hf s k (.head _) h hk
    · exact rest (hf s k (.head _) h hk)
    · exact rest h

/-- A walk whose calls do nothing. -/
theorem run_eq (hf : ∀ k ∈ keys, p s k = true → f s k = s) : run p stop f keys s = s := by
  induction keys with
  | nil => rfl
  | cons k keys ih =>
    have rest := ih fun j hj => hf j (.tail _ hj)
    rw [run]
    split_ifs with hk
    · exact hf k (.head _) hk
    · rw [hf k (.head _) hk, rest]
    · exact rest

/-- No key holds after the walk. -/
theorem clears {I : σ → Prop} (hf : ∀ s k, k ∈ keys → I s → p s k = true → I (f s k))
    (hkey : ∀ s k, k ∈ keys → I s → p s k = true → p (f s k) k = false)
    (hmono : ∀ s k j, k ∈ keys → j ∈ keys → I s → p s k = true → p (f s k) j = true →
      p s j = true)
    (hstop : ∀ s, I s → stop s → ∀ k ∈ keys, p s k = false) (h : I s) :
    ∀ k ∈ keys, p (run p stop f keys s) k = false := by
  suffices ∀ todo, (∀ k ∈ todo, k ∈ keys) → ∀ s, I s →
      (∀ k ∈ keys, p s k = true → k ∈ todo) →
      ∀ k ∈ keys, p (run p stop f todo s) k = false from
    this keys (fun _ hk => hk) s h fun _ hk _ => hk
  intro todo
  induction todo with
  | nil =>
    intro _ s _ hall k hk
    rw [run, ← Bool.not_eq_true]
    exact fun hp => absurd (hall k hk hp) (List.not_mem_nil)
  | cons j todo ih =>
    intro hsub s hs hall
    have here : j ∈ keys := hsub j (.head _)
    have next : ∀ k ∈ todo, k ∈ keys := fun k hk => hsub k (.tail _ hk)
    rw [run]
    split_ifs with hj hst
    · exact hstop _ (hf s j here hs hj) hst
    · refine ih next _ (hf s j here hs hj) fun k hk hp => ?_
      rcases List.mem_cons.mp (hall k hk (hmono s j k here hk hs hj hp)) with rfl | hmem
      · rw [hkey s k hk hs hj] at hp
        cases hp
      · exact hmem
    · refine ih next s hs fun k hk hp => ?_
      rcases List.mem_cons.mp (hall k hk hp) with rfl | hmem
      · exact absurd hp hj
      · exact hmem

end Walk
