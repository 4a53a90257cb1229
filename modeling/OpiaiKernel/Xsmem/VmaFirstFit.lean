import Mathlib.Order.MinMax
import OpiaiKernel.Xsmem.VmaSafety

/-!
# Completeness and first fit of the VMA allocator

The cached subtree maxima guide the descent of an allocation.  Every operation
that repairs the caches on the way to the root keeps them exact.  Inserting a
new free block does not: `vma_free_block` links the leaf and rebalances without
climbing.  The caches survive when the parent of the new leaf already caches a
size at least as large, and then allocation is complete and takes the lowest
block that fits.
-/

namespace OpiaiKernel.Xsmem

open AugTree Span Machine

variable {P : PageSize} {T : ℕ}

/-! ## Maxima -/

def maxSize (xs : List VmaBlock) : ℕ := xs.foldr (fun b m => max b.size m) 0

/-- Every node caches the size of the largest block of its subtree. -/
def SubtreeMaxExact : VmaTree → Prop
  | .nil => True
  | .node l b g r =>
      g = maxSize (node l b g r).toList ∧ SubtreeMaxExact l ∧ SubtreeMaxExact r

@[simp] theorem maxSize_nil : maxSize [] = 0 := rfl

@[simp] theorem maxSize_cons (b : VmaBlock) (xs : List VmaBlock) :
    maxSize (b :: xs) = max b.size (maxSize xs) := rfl

@[simp] theorem maxSize_append (xs ys : List VmaBlock) :
    maxSize (xs ++ ys) = max (maxSize xs) (maxSize ys) := by
  induction xs with
  | nil => simp
  | cons b xs ih => simp [ih, max_assoc]

theorem le_maxSize_iff {size : ℕ} (hsize : 0 < size) (xs : List VmaBlock) :
    size ≤ maxSize xs ↔ ∃ b ∈ xs, size ≤ b.size := by
  induction xs with
  | nil =>
      simp only [maxSize_nil, List.not_mem_nil, false_and, exists_false, iff_false]
      omega
  | cons b xs ih =>
      rw [maxSize_cons, le_max_iff, ih]
      simp

theorem subtreeMaxSize_eq {t : VmaTree} (h : Exact computeSubtreeMaxSize t) :
    subtreeMaxSize t = maxSize t.toList := by
  induction t with
  | nil => rfl
  | node l b g r ihl ihr =>
      obtain ⟨hg, hl, hr⟩ := h
      have hl' := ihl hl
      have hr' := ihr hr
      simp only [subtreeMaxSize] at hl' hr' ⊢
      simp only [aug_node, hg, recompute, computeSubtreeMaxSize, hl', hr', toList_node,
        maxSize_append, maxSize_cons]
      omega

theorem subtreeMaxExact_iff {t : VmaTree} :
    SubtreeMaxExact t ↔ Exact computeSubtreeMaxSize t := by
  induction t with
  | nil => rfl
  | node l b g r ihl ihr =>
      rw [SubtreeMaxExact, Exact, ihl, ihr]
      refine and_congr_left fun hlr => ?_
      have hl := subtreeMaxSize_eq hlr.1
      have hr := subtreeMaxSize_eq hlr.2
      simp only [subtreeMaxSize] at hl hr
      simp only [recompute, computeSubtreeMaxSize, hl, hr, toList_node, maxSize_append,
        maxSize_cons]
      omega

instance decidableSubtreeMaxExact (t : VmaTree) : Decidable (SubtreeMaxExact t) :=
  decidable_of_iff _ subtreeMaxExact_iff.symm

/-! ## The search -/

theorem findFirstProperBlock_complete {size : ℕ} (hsize : 0 < size) {t : VmaTree}
    (ht : Exact computeSubtreeMaxSize t) (p : Path VmaBlock ℕ)
    (hfit : ∃ b ∈ t.toList, size ≤ b.size) :
    ∃ x xs ys, findFirstProperBlock size p t = some x ∧ t.toList = xs ++ x.a :: ys ∧
      x.before = before p ++ xs ∧ x.after = ys ++ after p ∧ ∀ c ∈ xs, c.size < size := by
  induction t generalizing p with
  | nil => simp at hfit
  | node l b g r ihl ihr =>
      obtain ⟨-, hl, hr⟩ := ht
      have hleft := le_maxSize_iff hsize l.toList
      have hright := le_maxSize_iff hsize r.toList
      rw [← subtreeMaxSize_eq hl] at hleft
      rw [← subtreeMaxSize_eq hr] at hright
      rw [findFirstProperBlock]
      split
      · next hlt =>
          obtain ⟨x, xs, ys, hx, hlist, hbef, haft, hxs⟩ :=
            ihl hl (.left b g r :: p) (hleft.mp hlt)
          refine ⟨x, xs, ys ++ b :: r.toList, hx, by simp [hlist], hbef, ?_, hxs⟩
          simp [haft, after]
      · next hnl =>
          have hsmall : ∀ c ∈ l.toList, c.size < size := by
            intro c hc
            by_contra hge
            exact hnl (hleft.mpr ⟨c, hc, by omega⟩)
          split
          · exact ⟨_, l.toList, r.toList, rfl, rfl, rfl, rfl, hsmall⟩
          · next hnb =>
              have hfitr : ∃ c ∈ r.toList, size ≤ c.size := by
                obtain ⟨c, hc, hge⟩ := hfit
                rcases List.mem_append.mp hc with hc | hc
                · have := hsmall c hc
                  omega
                · rcases List.mem_cons.mp hc with rfl | hc
                  · omega
                  · exact ⟨c, hc, hge⟩
              rw [if_pos (hright.mpr hfitr)]
              obtain ⟨x, xs, ys, hx, hlist, hbef, haft, hxs⟩ :=
                ihr hr (.right l b g :: p) hfitr
              refine ⟨x, l.toList ++ b :: xs, ys, hx, by simp [hlist], ?_, haft, ?_⟩
              · simp [hbef, before]
              · intro c hc
                rcases List.mem_append.mp hc with hc | hc
                · exact hsmall c hc
                · rcases List.mem_cons.mp hc with rfl | hc
                  · omega
                  · exact hxs c hc

theorem vmaAllocBlock_complete {size : ℕ} (hsize : 0 < size) {root : VmaTree}
    (hroot : Exact computeSubtreeMaxSize root) (bal : Rotations)
    (hfit : ∃ b ∈ root.toList, size ≤ b.size) :
    ∃ b xs ys root', vmaAllocBlock bal root size = .ok (b.start, root') ∧
      root.toList = xs ++ b :: ys ∧ ∀ c ∈ xs, c.size < size := by
  obtain ⟨x, xs, ys, hx, hlist, -, -, hxs⟩ := findFirstProperBlock_complete hsize hroot [] hfit
  simp only [vmaAllocBlock, hx]
  split
  · exact ⟨x.a, xs, ys, _, rfl, hlist, hxs⟩
  · exact ⟨x.a, xs, ys, _, rfl, hlist, hxs⟩

/-! ## Which operations keep the caches exact -/

theorem exact_blockUpdate {root : VmaTree} (h : Exact computeSubtreeMaxSize root) (start : ℕ)
    (f : VmaBlock → VmaBlock) : Exact computeSubtreeMaxSize (blockUpdate root start f) := by
  unfold blockUpdate
  split
  · exact h
  · next x hx =>
      have hroot := (locate_eq_some hx).1
      obtain ⟨⟨-, hl, hr⟩, hp⟩ := (exact_plug _).mp (hroot ▸ h : Exact computeSubtreeMaxSize x.root)
      exact exact_propagate _ hl hr hp

theorem exact_blockErase {root : VmaTree} (h : Exact computeSubtreeMaxSize root)
    (bal : Rotations) (start : ℕ) : Exact computeSubtreeMaxSize (blockErase bal root start) := by
  unfold blockErase
  split
  · exact h
  · next x hx =>
      have hroot := (locate_eq_some hx).1
      exact exact_rbEraseAugmented _ bal (hroot ▸ h : Exact computeSubtreeMaxSize x.root)

theorem exact_vmaAllocBlock {bal : Rotations} {root root' : VmaTree} {size offset : ℕ}
    (hroot : Exact computeSubtreeMaxSize root)
    (h : vmaAllocBlock bal root size = .ok (offset, root')) :
    Exact computeSubtreeMaxSize root' := by
  unfold vmaAllocBlock at h
  cases hfind : findFirstProperBlock size [] root with
  | none => simp [hfind] at h
  | some x =>
      have hx : Exact computeSubtreeMaxSize x.root := by
        rw [(findFirstProperBlock_some hfind).1]
        exact hroot
      obtain ⟨⟨-, hl, hr⟩, hp⟩ := (exact_plug _).mp hx
      simp only [hfind] at h
      split at h <;> simp only [Except.ok.injEq, Prod.mk.injEq] at h <;> rw [← h.2]
      · exact exact_rbEraseAugmented _ bal hx
      · exact exact_propagate _ hl hr hp

/-- The size that the parent of the link caches. -/
def parentMaxSize : Path VmaBlock ℕ → Option ℕ
  | [] => none
  | .left _ g _ :: _ => some g
  | .right _ _ g :: _ => some g

/-- Freeing `b` merges it with a neighbour, or links it under a parent that
caches at least its size, or makes it the root. -/
def FreeCovered (root : VmaTree) (b : VmaBlock) : Prop :=
  ∀ p ∈ freeDescend b.start [] root,
    (∃ q ∈ prevBlock p, q.stop = b.start) ∨ (∃ t ∈ nextBlock p, b.stop = t.start) ∨
      ∀ m ∈ parentMaxSize p, b.size ≤ m

instance (root : VmaTree) (b : VmaBlock) : Decidable (FreeCovered root b) :=
  inferInstanceAs (Decidable (∀ p ∈ freeDescend b.start [] root, _))

/-- Linking a leaf keeps the caches exact just when its parent caches at least
its size. -/
theorem exact_link_iff {root : VmaTree} {s : VmaBlock} {p : Path VmaBlock ℕ}
    (hp : plug .nil p = root) (h : Exact computeSubtreeMaxSize root) :
    Exact computeSubtreeMaxSize (plug (node .nil s s.size .nil) p) ↔
      ∀ m ∈ parentMaxSize p, s.size ≤ m := by
  rw [← hp, exact_plug] at h
  rw [exact_plug]
  have hleaf : Exact computeSubtreeMaxSize (node .nil s s.size .nil) :=
    ⟨by simp [recompute, computeSubtreeMaxSize], trivial, trivial⟩
  rcases p with _ | ⟨⟨b, g, r⟩ | ⟨l, b, g⟩, p⟩
  · simp [hleaf, PathExact, parentMaxSize]
  all_goals
    obtain ⟨-, hg, hsub, hrest⟩ := h
    simp only [hleaf, PathExact, hsub, hrest, parentMaxSize, true_and, and_true,
      Option.mem_some_iff, forall_eq']
    simp only [computeSubtreeMaxSize, aug_nil, aug_node] at hg ⊢
    omega

theorem FreeSlot.exact_vmaFreeBlock {root : VmaTree} {s : VmaBlock} {p : Path VmaBlock ℕ}
    (hslot : FreeSlot T root s p) (h : Exact computeSubtreeMaxSize root) (bal : Rotations)
    (hcov : FreeCovered root s) :
    Exact computeSubtreeMaxSize (vmaFreeBlock true bal root s.start s.size).2 := by
  rw [hslot.vmaFreeBlock_eq bal]
  have hprev : ∀ q, Exact computeSubtreeMaxSize (mergePrevTree root q s) :=
    fun q => exact_blockUpdate h _ _
  have hnext : ∀ t, Exact computeSubtreeMaxSize (mergeNextTree root s t) :=
    fun t => exact_blockUpdate h _ _
  have hboth : ∀ q t, Exact computeSubtreeMaxSize (mergeBothTree bal root q s t) :=
    fun q t => exact_blockUpdate (exact_blockErase (hprev q) bal _) _ _
  have hlink : (∀ m ∈ parentMaxSize p, s.size ≤ m) →
      Exact computeSubtreeMaxSize (rbInsertAugmented computeSubtreeMaxSize bal s s.size p) :=
    fun hm => exact_rebalance _ bal ((exact_link_iff (freeDescend_plug hslot.descend) h).mpr hm)
  have hcases := hcov p hslot.descend
  rw [prevBlock_eq, nextBlock_eq] at hcases
  cases hq : (before p).getLast? with
  | none =>
      cases ht : (after p).head? with
      | none => exact hlink (by simpa [hq, ht] using hcases)
      | some t =>
          dsimp only
          split
          · exact hnext t
          · next hne => exact hlink (by simpa [hq, ht, hne] using hcases)
  | some q =>
      cases ht : (after p).head? with
      | none =>
          dsimp only
          split
          · exact hprev q
          · next hne => exact hlink (by simpa [hq, ht, hne] using hcases)
      | some t =>
          dsimp only
          split
          · split
            · exact hboth q t
            · exact hprev q
          · next hneq =>
              split
              · exact hnext t
              · next hnet => exact hlink (by simpa [hq, ht, hneq, hnet] using hcases)

/-! ## Rounding -/

/-- The size rounded up to whole pages, without a word size. -/
def PageSize.roundUp (P : PageSize) (x : ℕ) : ℕ := (x + (P.bytes - 1)) / P.bytes * P.bytes

theorem PageSize.align_eq (P : PageSize) {x : ℕ} (h : x + (P.bytes - 1) < 2 ^ 64) :
    P.align x = P.roundUp x := by
  rw [PageSize.align, Word.add_of_lt h, PageSize.roundUp]

theorem PageSize.le_roundUp (P : PageSize) (x : ℕ) : x ≤ P.roundUp x := by
  have hpos := P.bytes_pos
  have := Nat.lt_div_mul_add hpos (a := x + (P.bytes - 1))
  rw [PageSize.roundUp]
  omega

/-- A request whose rounding does not fit a word is larger than any block. -/
theorem PageSize.roundUp_overflow (P : PageSize) {x : ℕ} (h : 2 ^ 64 ≤ x + (P.bytes - 1)) :
    P.align x < x ∧ 2 ^ 64 ≤ P.roundUp x := by
  have hpos := P.bytes_pos
  obtain ⟨k, hk⟩ := P.bytes_dvd
  have hround : 2 ^ 64 ≤ P.roundUp x := by
    have hle : k ≤ (x + (P.bytes - 1)) / P.bytes := by
      rw [Nat.le_div_iff_mul_le hpos, Nat.mul_comm]
      omega
    calc
      2 ^ 64 = k * P.bytes := by rw [hk, Nat.mul_comm]
      _ ≤ P.roundUp x := Nat.mul_le_mul_right _ hle
  refine ⟨?_, hround⟩
  by_cases hx : x < 2 ^ 64
  · have hbytes : P.bytes ≤ 2 ^ 64 := Nat.le_of_dvd (Nat.two_pow_pos 64) P.bytes_dvd
    have hmod : Word.add 64 x (P.bytes - 1) = x + (P.bytes - 1) - 2 ^ 64 := by
      rw [Word.add, Nat.mod_eq_sub_mod h, Nat.mod_eq_of_lt (by omega)]
    rw [PageSize.align, hmod, Nat.div_eq_of_lt (by omega)]
    omega
  · have hdiv : P.align x ≤ Word.add 64 x (P.bytes - 1) := Nat.div_mul_le_self _ _
    have hlt := Word.add_lt 64 x (P.bytes - 1)
    omega

/-! ## First fit -/

/-- The caches are exact, and an allocation succeeds just when some free block
is large enough and then carves the lowest such block. -/
structure VmaFirstFit (P : PageSize) (s : VmaRun) : Prop where
  max_exact : SubtreeMaxExact s.ctrl.freeBlockRoot
  succeeds_iff : ∀ bal allocSize, allocSize ≠ 0 →
    ((∃ r ctrl, vmaAlgoAlloc P bal s.ctrl allocSize = (.ok r, ctrl)) ↔
      ∃ b ∈ s.freeBlocks, P.roundUp allocSize ≤ b.size)
  first_fit : ∀ bal allocSize addr realSize ctrl,
    vmaAlgoAlloc P bal s.ctrl allocSize = (.ok (addr, realSize), ctrl) →
    ∃ xs b ys, s.freeBlocks = xs ++ b :: ys ∧ addr = b.start ∧
      realSize = P.roundUp allocSize ∧ realSize ≤ b.size ∧
      (∀ c ∈ s.freeBlocks, realSize ≤ c.size → b.start ≤ c.start) ∧
      ctrl.freeBlockRoot.toList = xs ++ (b.carve realSize ++ ys)

theorem VmaInv.firstFit {s : VmaRun} (h : VmaInv P T s)
    (hexact : Exact computeSubtreeMaxSize s.ctrl.freeBlockRoot) : VmaFirstFit P s := by
  have hT := h.bound
  have hsize : ∀ b ∈ s.freeBlocks, b.size < 2 ^ 64 := by
    intro b hb
    have := (h.tiling.free_cell b hb).stop_le
    simp only [stop] at this
    omega
  have hok : ∀ bal allocSize, allocSize ≠ 0 →
      (∃ b ∈ s.freeBlocks, P.roundUp allocSize ≤ b.size) →
      ∃ b xs ys ctrl, vmaAlgoAlloc P bal s.ctrl allocSize =
          (.ok (b.start, P.roundUp allocSize), ctrl) ∧
        s.freeBlocks = xs ++ b :: ys ∧ ∀ c ∈ xs, c.size < P.roundUp allocSize := by
    intro bal allocSize hne hfit
    obtain ⟨c, hc, hge⟩ := hfit
    have hlt := hsize c hc
    have hfits : allocSize + (P.bytes - 1) < 2 ^ 64 := by
      by_contra hover
      have := (P.roundUp_overflow (by omega : 2 ^ 64 ≤ allocSize + (P.bytes - 1))).2
      omega
    have hle := P.le_roundUp allocSize
    have htotal : c.size ≤ total s.ctrl.freeBlockRoot.toList := size_le_total hc
    have hfree := h.freeSize_eq
    obtain ⟨b, xs, ys, root', hres, hlist, hxs⟩ :=
      vmaAllocBlock_complete (by omega) hexact bal ⟨c, hc, hge⟩
    have hres' : ∃ ctrl, vmaAlgoAlloc P bal s.ctrl allocSize =
        (.ok (b.start, P.roundUp allocSize), ctrl) := by
      rw [vmaAlgoAlloc, if_neg hne]
      dsimp only
      rw [P.align_eq hfits, if_neg (by omega), if_neg (by omega), hres]
      exact ⟨_, rfl⟩
    obtain ⟨ctrl, hctrl⟩ := hres'
    exact ⟨b, xs, ys, ctrl, hctrl, hlist, hxs⟩
  have hreal : ∀ bal allocSize addr realSize ctrl,
      vmaAlgoAlloc P bal s.ctrl allocSize = (.ok (addr, realSize), ctrl) →
      realSize = P.roundUp allocSize := by
    intro bal allocSize addr realSize ctrl hres
    obtain ⟨-, hreal, hge, -⟩ := h.alloc_ok hres
    rw [hreal]
    apply P.align_eq
    by_contra hover
    have := (P.roundUp_overflow (by omega : 2 ^ 64 ≤ allocSize + (P.bytes - 1))).1
    omega
  refine ⟨subtreeMaxExact_iff.mpr hexact, ?_, ?_⟩
  · intro bal allocSize hne
    constructor
    · rintro ⟨⟨addr, realSize⟩, ctrl, hres⟩
      obtain ⟨-, -, -, xs, b, ys, hlist, -, hle, -⟩ := h.alloc_ok hres
      exact ⟨b, by simp [VmaRun.freeBlocks, hlist], hreal _ _ _ _ _ hres ▸ hle⟩
    · intro hfit
      obtain ⟨b, xs, ys, ctrl, hres, -⟩ := hok bal allocSize hne hfit
      exact ⟨_, ctrl, hres⟩
  · intro bal allocSize addr realSize ctrl hres
    obtain ⟨hne, -, -, xs, b, ys, hlist, haddr, hle, hroot, -⟩ := h.alloc_ok hres
    have hround := hreal _ _ _ _ _ hres
    obtain ⟨b', xs', ys', ctrl', hres', hlist', hxs'⟩ := hok bal allocSize hne
      ⟨b, by simp [VmaRun.freeBlocks, hlist], hround ▸ hle⟩
    have hstart : b.start = b'.start := by
      rw [hres] at hres'
      simp only [Prod.mk.injEq, Except.ok.injEq] at hres'
      exact haddr ▸ hres'.1.1
    refine ⟨xs, b, ys, hlist, haddr, hround, hle, ?_, hroot⟩
    intro c hc hge
    rw [hlist'] at hc
    rw [hstart]
    have hsorted := h.tiling.coalesced
    have hlist'' : s.ctrl.freeBlockRoot.toList = xs' ++ b' :: ys' := hlist'
    rw [hlist''] at hsorted
    rcases List.mem_append.mp hc with hc | hc
    · have := hxs' c hc
      omega
    · rcases List.mem_cons.mp hc with rfl | hc
      · exact le_rfl
      · have := (List.pairwise_cons.mp (List.pairwise_append.mp hsorted).2.1).1 c hc
        simp only [stop] at this
        omega

/-- The steps that do not link a leaf under a parent with a smaller cache. -/
def VmaCovered (s : VmaRun) : VmaOp → Prop
  | .alloc _ _ => True
  | .free b _ => FreeCovered s.ctrl.freeBlockRoot b

instance : ∀ s a, Decidable (VmaCovered s a)
  | _, .alloc _ _ => isTrue trivial
  | s, .free b _ => inferInstanceAs (Decidable (FreeCovered s.ctrl.freeBlockRoot b))

theorem exact_vmaStep {s t : VmaRun} {a : VmaOp} (h : VmaInv P T s)
    (hexact : Exact computeSubtreeMaxSize s.ctrl.freeBlockRoot) (hcov : VmaCovered s a)
    (hstep : vmaStep P s a = some t) : Exact computeSubtreeMaxSize t.ctrl.freeBlockRoot := by
  cases a with
  | alloc allocSize bal =>
      simp only [vmaStep] at hstep
      rcases hres : vmaAlgoAlloc P bal s.ctrl allocSize with ⟨e | ⟨addr, realSize⟩, ctrl⟩
      · obtain rfl := vmaAlgoAlloc_error hres
        simp only [hres, Option.some.injEq] at hstep
        exact hstep ▸ hexact
      · simp only [hres, Option.some.injEq] at hstep
        subst hstep
        unfold vmaAlgoAlloc at hres
        dsimp only at hres
        repeat' split at hres
        all_goals simp only [Prod.mk.injEq, reduceCtorEq, false_and] at hres
        next hres' =>
          rw [← hres.2]
          exact exact_vmaAllocBlock hexact hres'
  | free b bal =>
      simp only [vmaStep] at hstep
      split at hstep
      · next hb =>
          obtain ⟨p, root', hslot, hfree, -⟩ := h.free_ok hb bal
          obtain rfl := Option.some.inj hstep
          have := hslot.exact_vmaFreeBlock hexact bal hcov
          simpa [vmaAlgoFree] using this
      · simp at hstep

theorem vma_first_fit_of_covered (P : PageSize) (T : ℕ) (s : VmaRun)
    (h : (vmaMachine P T).ReachIf VmaCovered s) : VmaFirstFit P s := by
  have hinv : VmaInv P T s ∧ Exact computeSubtreeMaxSize s.ctrl.freeBlockRoot := by
    refine h.invariant (P := fun s => VmaInv P T s ∧ Exact computeSubtreeMaxSize
      s.ctrl.freeBlockRoot) ?_ ?_
    · intro s hs
      refine ⟨vmaInv_init hs, ?_⟩
      have hcreate := hs.2.1
      unfold vmaInstCreate at hcreate
      split at hcreate
      · simp at hcreate
      · rw [← Option.some.inj hcreate]
        exact ⟨by simp [recompute, computeSubtreeMaxSize], trivial, trivial⟩
    · rintro s a t ⟨hs, hexact⟩ hcov hstep
      refine ⟨?_, exact_vmaStep hs hexact hcov hstep⟩
      cases a with
      | alloc allocSize bal => exact hs.alloc hstep
      | free b bal => exact hs.free hstep
  exact hinv.1.firstFit hinv.2

/-! ## A stale cache -/

def freshRun (T : ℕ) : VmaRun := ⟨⟨T, T, 0, .node .nil ⟨0, T⟩ T .nil⟩, []⟩

theorem vma_first_fit_of_covered_merge :
    VmaFirstFit page4K (freshRun 8192) :=
  vma_first_fit_of_covered page4K 8192 (freshRun 8192)
    (ReachIf.run [.alloc 1 [], .free ⟨0, 4096⟩ []] (s := freshRun 8192)
      (.start ⟨by decide, by decide, rfl⟩)
      (by decide +kernel) (by decide +kernel))

/-- Nine pages: six blocks of one page and one of three are handed out, then
the third, first, fifth and last of them come back. -/
def staleOps : List VmaOp :=
  List.replicate 6 (.alloc 4096 []) ++
    [.alloc 12288 [], .free ⟨8192, 4096⟩ [], .free ⟨0, 4096⟩ [], .free ⟨16384, 4096⟩ [],
      .free ⟨24576, 12288⟩ []]

/-- The last block hangs under two nodes that still cache one page. -/
def staleRun : VmaRun where
  ctrl :=
    { totalSize := 36864
      freeSize := 24576
      allocBlockCnt := 3
      freeBlockRoot :=
        .node (.node .nil ⟨0, 4096⟩ 4096 .nil) ⟨8192, 4096⟩ 4096
          (.node .nil ⟨16384, 4096⟩ 4096 (.node .nil ⟨24576, 12288⟩ 12288 .nil)) }
  live := [⟨20480, 4096⟩, ⟨12288, 4096⟩, ⟨4096, 4096⟩]

/-- The pool has a free block of three pages and refuses a request for them. -/
theorem vma_first_fit_fails_staleRun :
    (vmaMachine page4K 36864).Reach staleRun ∧
      ¬ SubtreeMaxExact staleRun.ctrl.freeBlockRoot ∧
      (∃ b ∈ staleRun.freeBlocks, page4K.roundUp 12288 ≤ b.size) ∧
      vmaAlgoAlloc page4K [] staleRun.ctrl 12288 = (.error .ENOSPC, staleRun.ctrl) :=
  ⟨Reach.run staleOps (s := freshRun 36864) (.start ⟨by decide, by decide, rfl⟩)
      (by decide), by decide, ⟨⟨24576, 12288⟩, by decide, by decide⟩, by decide⟩

end OpiaiKernel.Xsmem
