import OpiaiKernel.Lib.LeafExact
import OpiaiKernel.Xsmem.VmaFreeError

/-!
# An allocator without blocks is a fresh one

The caches above a new free block are not repaired, so that the tree can hold
stale ones.  When the last block has come back they are gone: the tree is one
node with the right cache, and `vma_inst_destroy`, which frees one node and warns
about any other tree, finds what `vma_inst_create` made.
-/

namespace OpiaiKernel.Xsmem

open AugTree Span

variable {P : PageSize} {T : ℕ}

/-! ## Exact caches of the leaves -/

/-- The largest block below a leaf is its own. -/
abbrev LeafSizes (t : VmaTree) : Prop := LeafExact computeSubtreeMaxSize t

theorem leafSizes_blockUpdate {root : VmaTree} (h : LeafSizes root) (start : ℕ)
    (f : VmaBlock → VmaBlock) : LeafSizes (blockUpdate root start f) := by
  unfold blockUpdate
  split
  · exact h
  · next x hx =>
      have hroot : LeafSizes x.root := by
        rw [(locate_eq_some hx).1]
        exact h
      obtain ⟨⟨-, hl, hr⟩, hp⟩ := hroot.of_plug
      exact leafExact_propagate hl hr hp

theorem leafSizes_blockErase {root : VmaTree} (h : LeafSizes root) (bal : Rotations)
    (start : ℕ) : LeafSizes (blockErase bal root start) := by
  unfold blockErase
  split
  · exact h
  · next x hx => exact leafExact_rbEraseAugmented bal ((locate_eq_some hx).1 ▸ h)

theorem leafSizes_vmaAllocBlock {bal : Rotations} {root root' : VmaTree} {size offset : ℕ}
    (h : LeafSizes root) (halloc : vmaAllocBlock bal root size = .ok (offset, root')) :
    LeafSizes root' := by
  unfold vmaAllocBlock at halloc
  split at halloc
  · simp at halloc
  · next x hx =>
      have hroot : LeafSizes x.root := (findFirstProperBlock_some hx).1 ▸ h
      split at halloc <;> simp only [Except.ok.injEq, Prod.mk.injEq] at halloc
      · exact halloc.2 ▸ leafExact_rbEraseAugmented bal hroot
      · obtain ⟨⟨-, hl, hr⟩, hp⟩ := hroot.of_plug
        exact halloc.2 ▸ leafExact_propagate hl hr hp

theorem leafSizes_freeMergePrev {root root₁ : VmaTree} {prev : Option VmaBlock}
    {start size : ℕ} {merged : Bool} (h : LeafSizes root)
    (hmerge : freeMergePrev root prev start size = .ok (merged, root₁)) : LeafSizes root₁ := by
  unfold freeMergePrev at hmerge
  split at hmerge
  · simp only [Except.ok.injEq, Prod.mk.injEq] at hmerge
    exact hmerge.2 ▸ h
  · split at hmerge
    · simp only [Except.ok.injEq, Prod.mk.injEq] at hmerge
      exact hmerge.2 ▸ leafSizes_blockUpdate h _ _
    · split at hmerge
      · simp at hmerge
      · simp only [Except.ok.injEq, Prod.mk.injEq] at hmerge
        exact hmerge.2 ▸ h

theorem leafSizes_freeMergeNext {bal : Rotations} {root root₁ : VmaTree} {m merged : Bool}
    {prev next : Option VmaBlock} {start size : ℕ} (h : LeafSizes root)
    (hmerge : freeMergeNext bal root m prev next start size = .ok (merged, root₁)) :
    LeafSizes root₁ := by
  unfold freeMergeNext at hmerge
  split at hmerge
  · simp only [Except.ok.injEq, Prod.mk.injEq] at hmerge
    exact hmerge.2 ▸ h
  · split at hmerge
    · split at hmerge <;> simp only [Except.ok.injEq, Prod.mk.injEq] at hmerge
      · exact hmerge.2 ▸ leafSizes_blockUpdate (leafSizes_blockErase h bal _) _ _
      · exact hmerge.2 ▸ leafSizes_blockUpdate h _ _
    · split at hmerge
      · simp at hmerge
      · simp only [Except.ok.injEq, Prod.mk.injEq] at hmerge
        exact hmerge.2 ▸ h

theorem leafSizes_vmaFreeBlock (kmalloc : Bool) (bal : Rotations) {root : VmaTree}
    (h : LeafSizes root) (start size : ℕ) :
    LeafSizes (vmaFreeBlock kmalloc bal root start size).2 := by
  unfold vmaFreeBlock
  split
  · exact h
  · next p hdesc =>
      split
      · exact h
      · next mergedPrev root₁ hprev =>
          have h₁ := leafSizes_freeMergePrev h hprev
          split
          · exact h₁
          · next merged root₂ hnext =>
              have h₂ := leafSizes_freeMergeNext h₁ hnext
              split
              · exact h₂
              · split
                · have hp : PathLeafExact computeSubtreeMaxSize p :=
                    (LeafExact.of_plug (t := .nil) (freeDescend_plug hdesc ▸ h)).2
                  have hsize : computeSubtreeMaxSize.compute ⟨start, size⟩ 0 0 = size := by
                    simp [computeSubtreeMaxSize]
                  have hleaf := leafExact_rbInsertAugmented bal (⟨start, size⟩ : VmaBlock) hp
                  rwa [show computeSubtreeMaxSize.zero = 0 from rfl, hsize] at hleaf
                · exact h₂

theorem leafSizes_vmaAlgoAlloc (bal : Rotations) {ctrl : VmaCtrl} (allocSize : ℕ)
    (h : LeafSizes ctrl.freeBlockRoot) :
    LeafSizes (vmaAlgoAlloc P bal ctrl allocSize).2.freeBlockRoot := by
  rcases hres : vmaAlgoAlloc P bal ctrl allocSize with ⟨e | ⟨addr, realSize⟩, ctrl'⟩
  · rw [vmaAlgoAlloc_error hres]
    exact h
  · exact leafSizes_vmaAllocBlock h (vmaAlgoAlloc_ok hres).2.2.1

/-! ## The total size -/

theorem totalSize_vmaAlgoAlloc (bal : Rotations) (ctrl : VmaCtrl) (allocSize : ℕ) :
    (vmaAlgoAlloc P bal ctrl allocSize).2.totalSize = ctrl.totalSize := by
  unfold vmaAlgoAlloc
  dsimp only
  repeat' split
  all_goals rfl

/-! ## Fresh allocators -/

theorem vmaInstCreate_some {ctrl : VmaCtrl} (h : vmaInstCreate P T = some ctrl) :
    P.bytes ∣ T ∧ 0 < T ∧ LeafSizes ctrl.freeBlockRoot ∧ ctrl.totalSize = T := by
  unfold vmaInstCreate at h
  split at h
  · simp at h
  · next hok =>
      obtain ⟨hdvd, hpos⟩ := not_or.mp hok
      obtain rfl := Option.some.inj h
      refine ⟨Nat.dvd_of_mod_eq_zero (by simpa using hdvd), by omega, ?_, rfl⟩
      exact ⟨fun _ _ => by simp [computeSubtreeMaxSize], trivial, trivial⟩

/-- An allocator without blocks is the one that was created. -/
theorem VmaInv.fresh {ctrl : VmaCtrl} (h : VmaInv P T ⟨ctrl, []⟩) (hT : 0 < T)
    (hdvd : P.bytes ∣ T) (hleaf : LeafSizes ctrl.freeBlockRoot) (htotal : ctrl.totalSize = T) :
    vmaInstCreate P T = some ctrl := by
  have hlist : ctrl.freeBlockRoot.toList = [⟨0, T⟩] := h.tiling.free_whole hT
  have hfree : ctrl.freeSize = T := by simpa [hlist] using h.freeSize_eq
  have hcnt : ctrl.allocBlockCnt = 0 := h.cnt_eq
  obtain ⟨l, b, g, r, hroot⟩ : ∃ l b g r, ctrl.freeBlockRoot = .node l b g r := by
    cases hroot : ctrl.freeBlockRoot with
    | nil => simp [hroot] at hlist
    | node l b g r => exact ⟨l, b, g, r, rfl⟩
  rw [hroot] at hlist hleaf
  obtain ⟨hl, hb, hr⟩ : l = .nil ∧ b = ⟨0, T⟩ ∧ r = .nil := by
    cases l with
    | nil =>
        cases r with
        | nil => exact ⟨rfl, by simpa using hlist, rfl⟩
        | node rl c k rr => simp at hlist
    | node ll c k lr =>
        have := congrArg List.length hlist
        simp at this
        omega
  have hg : g = T := by
    rw [hleaf.1 hl hr, hb]
    simp [computeSubtreeMaxSize]
  rw [vmaInstCreate, if_neg (by simpa [Nat.mod_eq_zero_of_dvd hdvd] using hT.ne')]
  obtain ⟨totalSize, freeSize, cnt, root⟩ := ctrl
  simp only at htotal hfree hcnt hroot
  rw [htotal, hfree, hcnt, hroot, hl, hb, hr, hg]

end OpiaiKernel.Xsmem
