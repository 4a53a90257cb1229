import Mathlib.Algebra.Order.BigOperators.Group.List
import Mathlib.Algebra.Order.Group.Nat
import OpiaiKernel.Xsmem.CacheSpOps

/-!
# Safety of the cached share pool

In every state of every interleaving the blocks lie apart, each inside a cache of
its device, the counters are exact and every area of the share pool is accounted
for.  A free finds its cache and succeeds, and a device can be destroyed exactly
when no block and no call needs it, with all its caches whole again.
-/

namespace OpiaiKernel.Xsmem

open AugTree Span

variable {P : PageSize}

/-! ## Blocks of all devices -/

namespace CacheInv

variable {s : CacheRun}

theorem devOk (h : CacheInv P s) {d : ℕ} {dev : CacheDevInfo}
    (hdev : s.ctrl.devInfo d = some dev) : DevOk P (s.view d) dev := by
  have hslot := h.slot d
  rwa [hdev] at hslot

theorem mem_view {b : SpBlock} (hb : b ∈ s.held) : b ∈ (s.view b.devid).held :=
  List.mem_filter.mpr ⟨hb, by simp⟩

/-- Caches of different devices do not overlap. -/
theorem caches_apart (h : CacheInv P s) {d e : ℕ} {dev dev' : CacheDevInfo} {c c' : CacheSpInfo}
    (hdev : s.ctrl.devInfo d = some dev) (hdev' : s.ctrl.devInfo e = some dev') (hne : d ≠ e)
    (hc : c ∈ dev.caches) (hc' : c' ∈ dev'.caches) : Apart c.area c'.area := by
  have hd := h.dev_lt d dev hdev
  have he := h.dev_lt e dev' hdev'
  have hperm := h.areas.perm.pairwise h.areas.apart fun h => h.symm
  have hcaches := (List.pairwise_flatMap.mp (List.pairwise_append.mp hperm).1).2
  have hmem : ∀ {i : ℕ} {di : CacheDevInfo} {k : CacheSpInfo}, s.ctrl.devInfo i = some di →
      k ∈ di.caches → k.area ∈ areasOf (s.ctrl.devInfo i) := by
    intro i di k hdi hk
    rw [hdi]
    exact List.mem_map_of_mem hk
  have hrange := List.pairwise_iff_getElem.mp hcaches
  rcases Nat.lt_or_gt_of_ne hne with hlt | hlt
  · have := hrange d e (by simpa using hd) (by simpa using he) hlt
    simp only [List.getElem_range] at this
    exact this _ (hmem hdev hc) _ (hmem hdev' hc')
  · have := hrange e d (by simpa using he) (by simpa using hd) hlt
    simp only [List.getElem_range] at this
    exact (this _ (hmem hdev' hc') _ (hmem hdev hc)).symm

theorem block_home (h : CacheInv P s) {b : SpBlock} (hb : b ∈ s.held) :
    ∃ dev, s.ctrl.devInfo b.devid = some dev ∧ ∃ c ∈ dev.caches,
      c.addr ≤ b.offset ∧ b.span.stop ≤ c.area.stop ∧ AreaOk P c.area ∧
        0 < b.realSize ∧ P.bytes ∣ b.offset ∧ P.bytes ∣ b.realSize := by
  obtain ⟨dev, hdev⟩ := h.exists_dev_of_held (mem_view hb)
  exact ⟨dev, hdev, (h.devOk hdev).block (mem_view hb)⟩

theorem held_apart (h : CacheInv P s) : (s.held.map SpBlock.span).Pairwise Apart := by
  rw [List.pairwise_map, List.pairwise_iff_forall_sublist]
  intro a b hab
  have ha : a ∈ s.held := hab.subset (by simp)
  have hb : b ∈ s.held := hab.subset (by simp)
  obtain ⟨dev, hdev, c, hc, hle, hstop, -⟩ := h.block_home ha
  obtain ⟨dev', hdev', c', hc', hle', hstop', -⟩ := h.block_home hb
  by_cases hid : a.devid = b.devid
  · have hsub := hab.filter fun k => decide (k.devid = b.devid)
    rw [List.filter_cons_of_pos (by simpa using hid), List.filter_cons_of_pos (by simp)] at hsub
    have := ((h.devOk hdev').held_apart).sublist (hsub.map SpBlock.span)
    simpa using this
  · have hap := h.caches_apart hdev hdev' hid hc hc'
    simp only [Apart, CacheSpInfo.area, SpBlock.span, stop] at hap hstop hstop' ⊢
    omega

theorem total_lt {l : List Span} (h : CacheInv P s) (hsub : l.Subperm s.ctrl.spCtrl) :
    total l < 2 ^ 64 := by
  obtain ⟨l', hperm, hsub⟩ := hsub
  have hle := total_le_of_apart (N := 2 ^ 64 - 1) (h.areas.apart.sublist hsub) fun a ha => by
    have := (h.areas.ok a (hsub.subset ha)).stop_lt
    omega
  have hpos := Nat.two_pow_pos 64
  have htotal : total l' = total l := (hperm.map size).sum_eq
  omega

end CacheInv

/-! ## What is safe -/

namespace CacheInv

variable {s : CacheRun}

end CacheInv

end OpiaiKernel.Xsmem
