import OpiaiKernel.Xsmem.VmaSafety

/-!
# The algorithm behind a pool

A pool hands its allocations to the algorithm it was registered with, through
the callbacks of `struct xsm_pool_algo`.  What the framework relies on is that
the callbacks keep track of the set of blocks that are handed out.  The VMA
allocator does.
-/

namespace OpiaiKernel.Xsmem

open Span

/-- The callbacks of an algorithm with private data `σ`; a call is resolved by
an environment `ε`.  The framework ignores the result of `xsm_block_free`. -/
structure PoolAlgo (σ ε : Type) where
  xsmPoolInit : ℕ → Option σ
  /-- The size and the flag of the block give its offset and real size. -/
  xsmBlockAlloc : ε → σ → ℕ → ℕ → Except Errno (ℕ × ℕ) × σ
  /-- The offset and the real size of the block. -/
  xsmBlockFree : ε → σ → ℕ → ℕ → σ
  /-- The private data stands for these blocks being handed out. -/
  Live : σ → List Span → Prop
  live_init : ∀ {size c}, size < 2 ^ 64 → xsmPoolInit size = some c → Live c []
  live_perm : ∀ {c l l'}, Live c l → l.Perm l' → Live c l'
  live_alloc : ∀ {e c l size flag offset realSize c'}, Live c l →
    xsmBlockAlloc e c size flag = (.ok (offset, realSize), c') →
      Live c' (⟨offset, realSize⟩ :: l) ∧ 0 < size ∧ size ≤ realSize
  live_alloc_error : ∀ {e c l size flag err c'}, Live c l →
    xsmBlockAlloc e c size flag = (.error err, c') → Live c' l
  live_free : ∀ {e c l offset realSize}, Live c (⟨offset, realSize⟩ :: l) →
    Live (xsmBlockFree e c offset realSize) l
  live_apart : ∀ {c l}, Live c l → l.Pairwise Apart
  live_total : ∀ {c l}, Live c l → total l < 2 ^ 64
  live_stop : ∀ {c l}, Live c l → ∀ s ∈ l, s.stop < 2 ^ 64

/-! ## The VMA allocator -/

variable {P : PageSize}

theorem VmaInv.perm {T : ℕ} {c : VmaCtrl} {l l' : List Span} (h : VmaInv P T ⟨c, l⟩)
    (hperm : l.Perm l') : VmaInv P T ⟨c, l'⟩ :=
  ⟨h.bound, h.tiling.perm hperm, h.freeSize_eq, h.cnt_eq.trans hperm.length_eq⟩

/-- These blocks are handed out. -/
def VmaLive (P : PageSize) (ctrl : VmaCtrl) (l : List Span) : Prop := ∃ T, VmaInv P T ⟨ctrl, l⟩

namespace VmaLive

variable {c c' : VmaCtrl} {l l' : List Span}

theorem init {size : ℕ} (hsize : size < 2 ^ 64) (hinit : vmaInstCreate P size = some c) :
    VmaLive P c [] :=
  ⟨size, vmaInv_init (s := ⟨c, []⟩) ⟨hsize, hinit, rfl⟩⟩

theorem perm (h : VmaLive P c l) (hperm : l.Perm l') : VmaLive P c l' := by
  obtain ⟨T, h⟩ := h
  exact ⟨T, h.perm hperm⟩

theorem alloc {bal : AugTree.Rotations} {size offset realSize : ℕ} (h : VmaLive P c l)
    (halloc : vmaAlgoAlloc P bal c size = (.ok (offset, realSize), c')) :
    VmaLive P c' (⟨offset, realSize⟩ :: l) ∧ 0 < size ∧ size ≤ realSize := by
  obtain ⟨T, h⟩ := h
  obtain ⟨hne, -, hge, -⟩ := h.alloc_ok halloc
  have hstep : vmaStep P ⟨c, l⟩ (.alloc size bal) = some ⟨c', ⟨offset, realSize⟩ :: l⟩ := by
    simp [vmaStep, halloc]
  exact ⟨⟨T, h.alloc hstep⟩, by omega, hge⟩

theorem alloc_error {bal : AugTree.Rotations} {size : ℕ} {err : Errno} (h : VmaLive P c l)
    (halloc : vmaAlgoAlloc P bal c size = (.error err, c')) : VmaLive P c' l := by
  obtain ⟨T, h⟩ := h
  exact ⟨T, vmaAlgoAlloc_error halloc ▸ h⟩

theorem free {bal : AugTree.Rotations} {offset realSize : ℕ}
    (h : VmaLive P c (⟨offset, realSize⟩ :: l)) :
    VmaLive P (vmaAlgoFree true bal c offset realSize).2 l := by
  obtain ⟨T, h⟩ := h
  have hstep : vmaStep P ⟨c, ⟨offset, realSize⟩ :: l⟩ (.free ⟨offset, realSize⟩ bal) =
      some ⟨(vmaAlgoFree true bal c offset realSize).2, l⟩ := by
    simp [vmaStep]
  exact ⟨T, h.free hstep⟩

theorem apart (h : VmaLive P c l) : l.Pairwise Apart := by
  obtain ⟨T, h⟩ := h
  exact h.tiling.apart

theorem total_lt (h : VmaLive P c l) : total l < 2 ^ 64 := by
  obtain ⟨T, h⟩ := h
  have htotal := h.tiling.total_eq
  have hbound := h.bound
  dsimp only at htotal
  omega

theorem stop_lt (h : VmaLive P c l) : ∀ s ∈ l, s.stop < 2 ^ 64 := by
  obtain ⟨T, h⟩ := h
  intro s hs
  exact (h.tiling.live_cell s hs).stop_le.trans_lt h.bound

end VmaLive

/-- `vma_algo` -/
def vmaAlgo (P : PageSize) : PoolAlgo VmaCtrl AugTree.Rotations where
  xsmPoolInit := vmaInstCreate P
  xsmBlockAlloc bal ctrl size _ := vmaAlgoAlloc P bal ctrl size
  xsmBlockFree bal ctrl offset realSize := (vmaAlgoFree true bal ctrl offset realSize).2
  Live := VmaLive P
  live_init := VmaLive.init
  live_perm := VmaLive.perm
  live_alloc := VmaLive.alloc
  live_alloc_error := VmaLive.alloc_error
  live_free := VmaLive.free
  live_apart := VmaLive.apart
  live_total := VmaLive.total_lt
  live_stop := VmaLive.stop_lt

end OpiaiKernel.Xsmem
