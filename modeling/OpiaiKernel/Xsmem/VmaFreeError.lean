import OpiaiKernel.Xsmem.VmaSafety

/-!
# Failed frees of the VMA allocator

`vma_algo_free` counts a free whatever `vma_free_block` returns.  A free that is
refused, or for which no node can be allocated, therefore leaves counters that
no longer describe the free tree, and when the previous block has already taken
the range over, the tree is left changed too.  A free changes nothing on failure
just when it cannot fail.

The states are those of an allocator whose `kmalloc` may fail.
-/

namespace OpiaiKernel.Xsmem

open AugTree Span

variable {P : PageSize} {T : ℕ} {root : VmaTree} {start size : ℕ} {bal : Rotations}

/-! ## Runs with failing allocations -/

inductive VmaFaultOp
  | alloc (allocSize : ℕ) (bal : Rotations)
  | free (block : VmaBlock) (kmalloc : Bool) (bal : Rotations)

/-- One call; only blocks handed out are freed, and one whose free fails is
never given back. -/
def vmaFaultStep (P : PageSize) (s : VmaRun) : VmaFaultOp → Option VmaRun
  | .alloc allocSize bal => vmaStep P s (.alloc allocSize bal)
  | .free block kmalloc bal =>
      if block ∈ s.live then
        match vmaAlgoFree kmalloc bal s.ctrl block.start block.size with
        | (.ok (), ctrl) => some ⟨ctrl, s.live.erase block⟩
        | (.error _, ctrl) => some ⟨ctrl, s.live⟩
      else none

/-- The allocator of a pool of `T` bytes, from its creation on. -/
def vmaFaultMachine (P : PageSize) (T : ℕ) : Machine VmaRun VmaFaultOp where
  init s := T < 2 ^ 64 ∧ vmaInstCreate P T = some s.ctrl ∧ s.live = []
  step := vmaFaultStep P

structure VmaFaultInv (P : PageSize) (T : ℕ) (s : VmaRun) : Prop where
  bound : T < 2 ^ 64
  tiling : Tiling P.bytes T s.ctrl.freeBlockRoot.toList s.live
  cnt_lt : s.ctrl.allocBlockCnt < 2 ^ 64

/-- Without a merge the tree is the one before. -/
theorem freeMergePrev_false {prev : Option VmaBlock} {root₁ : VmaTree}
    (h : freeMergePrev root prev start size = .ok (false, root₁)) : root₁ = root := by
  unfold freeMergePrev at h
  split at h
  · simp only [Except.ok.injEq, Prod.mk.injEq] at h
    exact h.2.symm
  · split at h
    · simp at h
    · split at h
      · simp at h
      · simp only [Except.ok.injEq, Prod.mk.injEq] at h
        exact h.2.symm

theorem freeMergeNext_false {merged : Bool} {prev next : Option VmaBlock} {root₁ : VmaTree}
    (h : freeMergeNext bal root merged prev next start size = .ok (false, root₁)) :
    merged = false ∧ root₁ = root := by
  unfold freeMergeNext at h
  split at h
  · simp only [Except.ok.injEq, Prod.mk.injEq] at h
    exact ⟨h.1, h.2.symm⟩
  · split at h
    · split at h <;> simp at h
    · split at h
      · simp at h
      · simp only [Except.ok.injEq, Prod.mk.injEq] at h
        exact ⟨h.1, h.2.symm⟩

/-- A failing `kmalloc` matters only to a free without a merge, and leaves the tree. -/
theorem vmaFreeBlock_kmalloc (kmalloc : Bool) (bal : Rotations) (root : VmaTree)
    (start size : ℕ) :
    vmaFreeBlock kmalloc bal root start size = vmaFreeBlock true bal root start size ∨
      vmaFreeBlock kmalloc bal root start size = (.error .ENOMEM, root) := by
  cases kmalloc with
  | true => exact .inl rfl
  | false =>
      cases hdesc : freeDescend start [] root with
      | none =>
          refine .inl ?_
          rw [vmaFreeBlock, vmaFreeBlock, hdesc]
      | some p =>
          cases hprev : freeMergePrev root (prevBlock p) start size with
          | error e =>
              refine .inl ?_
              simp only [vmaFreeBlock, hdesc, hprev]
          | ok r₁ =>
              obtain ⟨merged₁, root₁⟩ := r₁
              cases hnext : freeMergeNext bal root₁ merged₁ (prevBlock p) (nextBlock p) start
                  size with
              | error e =>
                  refine .inl ?_
                  simp only [vmaFreeBlock, hdesc, hprev, hnext]
              | ok r₂ =>
                  obtain ⟨merged₂, root₂⟩ := r₂
                  cases merged₂ with
                  | true =>
                      refine .inl ?_
                      simp only [vmaFreeBlock, hdesc, hprev, hnext, if_true]
                  | false =>
                      obtain ⟨rfl, rfl⟩ := freeMergeNext_false hnext
                      obtain rfl := freeMergePrev_false hprev
                      refine .inr ?_
                      simp [vmaFreeBlock, hdesc, hprev, hnext]

theorem vmaFaultInv_init {s : VmaRun} (h : (vmaFaultMachine P T).init s) : VmaFaultInv P T s := by
  have hinv : VmaInv P T s := vmaInv_init h
  refine ⟨hinv.bound, hinv.tiling, ?_⟩
  rw [hinv.cnt_eq, h.2.2]
  exact Nat.two_pow_pos 64

theorem vmaAlgoAlloc_ok {ctrl ctrl' : VmaCtrl} {allocSize addr realSize : ℕ}
    (h : vmaAlgoAlloc P bal ctrl allocSize = (.ok (addr, realSize), ctrl')) :
    realSize = P.align allocSize ∧ 0 < realSize ∧
      vmaAllocBlock bal ctrl.freeBlockRoot realSize = .ok (addr, ctrl'.freeBlockRoot) ∧
      ctrl'.allocBlockCnt = Word.add 64 ctrl.allocBlockCnt 1 := by
  unfold vmaAlgoAlloc at h
  split at h
  · simp at h
  · next hne =>
      dsimp only at h
      split at h
      · simp at h
      · next hge =>
          split at h
          · simp at h
          · cases halloc : vmaAllocBlock bal ctrl.freeBlockRoot (P.align allocSize) with
            | error e => simp [halloc] at h
            | ok r =>
                obtain ⟨offset, root⟩ := r
                simp only [halloc, Prod.mk.injEq, Except.ok.injEq] at h
                obtain ⟨⟨rfl, rfl⟩, rfl⟩ := h
                exact ⟨rfl, by omega, halloc, rfl⟩

theorem VmaFaultInv.alloc {s t : VmaRun} (h : VmaFaultInv P T s) {allocSize : ℕ}
    (hstep : vmaStep P s (.alloc allocSize bal) = some t) : VmaFaultInv P T t := by
  have hT := h.bound
  simp only [vmaStep] at hstep
  rcases hres : vmaAlgoAlloc P bal s.ctrl allocSize with ⟨e | ⟨addr, realSize⟩, ctrl⟩
  · obtain rfl := vmaAlgoAlloc_error hres
    simp only [hres, Option.some.injEq] at hstep
    exact hstep ▸ h
  · obtain ⟨hreal, hpos, halloc, hcnt⟩ := vmaAlgoAlloc_ok hres
    simp only [hres, Option.some.injEq] at hstep
    subst hstep
    have hstop : ∀ b ∈ s.ctrl.freeBlockRoot.toList, b.stop < 2 ^ 64 :=
      fun b hb => (h.tiling.free_cell b hb).stop_le.trans_lt hT
    obtain ⟨xs, b, ys, hlist, rfl, hsize, hroot⟩ := vmaAllocBlock_ok hstop halloc
    have htiling := h.tiling
    rw [hlist] at htiling
    have hdvd : P.bytes ∣ realSize := hreal ▸ P.dvd_align allocSize
    have hnew := htiling.carve hpos hdvd hsize
    rw [← hroot] at hnew
    exact ⟨hT, hnew, hcnt ▸ Word.add_lt 64 _ 1⟩

theorem VmaFaultInv.free {s t : VmaRun} (h : VmaFaultInv P T s) {b : VmaBlock} {kmalloc : Bool}
    (hstep : vmaFaultStep P s (.free b kmalloc bal) = some t) : VmaFaultInv P T t := by
  have hcnt : Word.sub 64 s.ctrl.allocBlockCnt 1 < 2 ^ 64 := Nat.mod_lt _ (Nat.two_pow_pos 64)
  simp only [vmaFaultStep] at hstep
  split at hstep
  · next hb =>
      obtain ⟨p, hslot⟩ := exists_freeSlot h.tiling hb h.bound
      obtain ⟨root', hfree, hroot'⟩ := hslot.vmaFreeBlock_release bal
      rcases vmaFreeBlock_kmalloc kmalloc bal s.ctrl.freeBlockRoot b.start b.size with heq | heq
      · rw [vmaAlgoFree, heq, hfree] at hstep
        obtain rfl := Option.some.inj hstep
        have htiling := h.tiling.perm (List.perm_cons_erase hb)
        rw [hslot.split] at htiling
        have hnew := htiling.release hslot.prev_le hslot.next_le
        rw [← hroot'] at hnew
        exact ⟨h.bound, hnew, hcnt⟩
      · rw [vmaAlgoFree, heq] at hstep
        obtain rfl := Option.some.inj hstep
        exact ⟨h.bound, h.tiling, hcnt⟩
  · simp at hstep

theorem vmaFaultInv_reach {s : VmaRun} (h : (vmaFaultMachine P T).Reach s) :
    VmaFaultInv P T s :=
  h.invariant (fun _ => vmaFaultInv_init) fun _ a _ hs _ hstep => by
    cases a with
    | alloc allocSize bal => exact hs.alloc hstep
    | free b kmalloc bal => exact hs.free hstep

/-! ## Which frees are accepted -/

/-- The last free block in front of an address. -/
def freePrev (free : List VmaBlock) (start : ℕ) : Option VmaBlock :=
  (free.filter fun b => b.start < start).getLast?

/-- The first free block behind an address. -/
def freeNext (free : List VmaBlock) (start : ℕ) : Option VmaBlock :=
  (free.filter fun b => start < b.start).head?

/-- The range ends where a free block starts, in the arithmetic of the code. -/
def endsAt (start size : ℕ) (b : VmaBlock) : Prop := Word.add 64 start size = b.start

/-- The range overlaps a free block, in the arithmetic of the code. -/
def overlaps (start size : ℕ) (b : VmaBlock) : Prop :=
  isOverlap start (Word.add 64 start size) b.start b.stop

instance (start size : ℕ) (b : VmaBlock) : Decidable (endsAt start size b) :=
  inferInstanceAs (Decidable (_ = _))

instance (start size : ℕ) (b : VmaBlock) : Decidable (overlaps start size b) :=
  inferInstanceAs (Decidable (isOverlap _ _ _ _))

/-- No free block starts at the range, its neighbours touch it or lie apart,
and there is a node for it unless it is merged. -/
structure Freeable (free : List VmaBlock) (kmalloc : Bool) (start size : ℕ) : Prop where
  fresh : ∀ b ∈ free, b.start ≠ start
  prev : ∀ b ∈ freePrev free start, b.stop = start ∨ ¬ overlaps start size b
  next : ∀ b ∈ freeNext free start, endsAt start size b ∨ ¬ overlaps start size b
  node : kmalloc = true ∨ (∃ b ∈ freePrev free start, b.stop = start) ∨
    ∃ b ∈ freeNext free start, endsAt start size b

/-- A free block that starts at the range stops the descent. -/
theorem freeDescend_none {t : VmaTree} {p : Path VmaBlock ℕ}
    (hsort : t.toList.Pairwise fun a b => a.start < b.start)
    (hmem : ∃ b ∈ t.toList, b.start = start) : freeDescend start p t = none := by
  induction t generalizing p with
  | nil =>
      obtain ⟨b, hb, -⟩ := hmem
      simp at hb
  | node l c g r ihl ihr =>
      obtain ⟨hl, hcr, hcross⟩ := List.pairwise_append.mp hsort
      obtain ⟨hc, hr⟩ := List.pairwise_cons.mp hcr
      obtain ⟨b, hb, hstart⟩ := hmem
      rw [freeDescend]
      rcases List.mem_append.mp hb with hbl | hbcr
      · have hlt := hcross b hbl c (by simp)
        rw [if_pos (by omega)]
        exact ihl hl ⟨b, hbl, hstart⟩
      · rcases List.mem_cons.mp hbcr with rfl | hbr
        · rw [if_neg (by omega), if_neg (by omega)]
        · have hlt := hc b hbr
          rw [if_neg (by omega), if_pos (by omega)]
          exact ihr hr ⟨b, hbr, hstart⟩

theorem freeMergePrev_result {prev : Option VmaBlock}
    (hword : ∀ b ∈ prev, Word.add 64 b.start b.size = b.stop) (root : VmaTree)
    (start size : ℕ) :
    ((∀ b ∈ prev, b.stop = start ∨ ¬ overlaps start size b) ∧
        ∃ merged root₁, freeMergePrev root prev start size = .ok (merged, root₁) ∧
          (merged = true ↔ ∃ b ∈ prev, b.stop = start)) ∨
      ((¬ ∀ b ∈ prev, b.stop = start ∨ ¬ overlaps start size b) ∧
        freeMergePrev root prev start size = .error .EINVAL) := by
  cases prev with
  | none => exact .inl ⟨by simp, false, root, rfl, by simp⟩
  | some b =>
      have hstop := hword b rfl
      unfold freeMergePrev
      dsimp only
      rw [hstop]
      by_cases htouch : b.stop = start
      · rw [if_pos htouch]
        exact .inl ⟨by simp [htouch], true, _, rfl, by simp [htouch]⟩
      · rw [if_neg htouch]
        by_cases hover : overlaps start size b
        · refine .inr ⟨by simp [htouch, hover], if_pos hover⟩
        · refine .inl ⟨by simp [hover], false, root, if_neg hover, by simp [htouch]⟩

theorem freeMergeNext_result {next : Option VmaBlock}
    (hword : ∀ b ∈ next, Word.add 64 b.start b.size = b.stop) (bal : Rotations) (root : VmaTree)
    (merged : Bool) (prev : Option VmaBlock) (start size : ℕ) :
    ((∀ b ∈ next, endsAt start size b ∨ ¬ overlaps start size b) ∧
        ∃ merged' root', freeMergeNext bal root merged prev next start size =
            .ok (merged', root') ∧
          (merged' = true ↔ merged = true ∨ ∃ b ∈ next, endsAt start size b)) ∨
      ((¬ ∀ b ∈ next, endsAt start size b ∨ ¬ overlaps start size b) ∧
        freeMergeNext bal root merged prev next start size = .error .EINVAL) := by
  cases next with
  | none => exact .inl ⟨by simp, merged, root, rfl, by simp⟩
  | some b =>
      have hstop := hword b rfl
      unfold freeMergeNext
      dsimp only
      rw [hstop]
      by_cases hend : Word.add 64 start size = b.start
      · rw [if_pos hend]
        refine .inl ⟨by simp [endsAt, hend], true, ?_⟩
        split <;> exact ⟨_, rfl, by simp [endsAt, hend]⟩
      · rw [if_neg hend]
        by_cases hover : overlaps start size b
        · exact .inr ⟨by simp [endsAt, hend, hover], if_pos hover⟩
        · exact .inl ⟨by simp [hover], merged, root, if_neg hover, by simp [endsAt, hend]⟩

/-- What the neighbours of the link decide. -/
theorem vmaFreeBlock_ok_iff {p : Path VmaBlock ℕ} (hdesc : freeDescend start [] root = some p)
    (hprev : ∀ b ∈ prevBlock p, Word.add 64 b.start b.size = b.stop)
    (hnext : ∀ b ∈ nextBlock p, Word.add 64 b.start b.size = b.stop) (kmalloc : Bool)
    (bal : Rotations) :
    (vmaFreeBlock kmalloc bal root start size).1 = .ok () ↔
      (∀ b ∈ prevBlock p, b.stop = start ∨ ¬ overlaps start size b) ∧
        (∀ b ∈ nextBlock p, endsAt start size b ∨ ¬ overlaps start size b) ∧
          (kmalloc = true ∨ (∃ b ∈ prevBlock p, b.stop = start) ∨
            ∃ b ∈ nextBlock p, endsAt start size b) := by
  rw [vmaFreeBlock, hdesc]
  rcases freeMergePrev_result hprev root start size with
    ⟨hp, merged₁, root₁, heq₁, hm₁⟩ | ⟨hp, heq₁⟩
  · simp only [heq₁]
    rcases freeMergeNext_result hnext bal root₁ merged₁ (prevBlock p) start size with
      ⟨hn, merged₂, root₂, heq₂, hm₂⟩ | ⟨hn, heq₂⟩
    · simp only [heq₂]
      rw [hm₁] at hm₂
      rw [← hm₂]
      have hnode : (if merged₂ = true then (.ok (), root₂)
          else if kmalloc = true then
            (.ok (), rbInsertAugmented computeSubtreeMaxSize bal ⟨start, size⟩ size p)
          else (.error .ENOMEM, root₂) : Except Errno Unit × VmaTree).1 = .ok () ↔
            kmalloc = true ∨ merged₂ = true := by
        cases merged₂ <;> cases kmalloc <;> simp
      rw [hnode]
      exact ⟨fun h => ⟨hp, hn, h⟩, fun h => h.2.2⟩
    · simp only [heq₂, reduceCtorEq, false_iff]
      exact fun h => hn h.2.1
  · simp only [heq₁, reduceCtorEq, false_iff]
    exact fun h => hp h.1

theorem freePrev_append {start : ℕ} {xs ys : List VmaBlock} (hxs : ∀ b ∈ xs, b.start < start)
    (hys : ∀ b ∈ ys, start < b.start) : freePrev (xs ++ ys) start = xs.getLast? := by
  have hnone : ys.filter (fun b => b.start < start) = [] := by
    simp only [List.filter_eq_nil_iff, decide_eq_true_eq]
    intro b hb
    exact (hys b hb).not_gt
  rw [freePrev, List.filter_append, hnone, List.append_nil,
    List.filter_eq_self.mpr (by simpa using hxs)]

theorem freeNext_append {start : ℕ} {xs ys : List VmaBlock} (hxs : ∀ b ∈ xs, b.start < start)
    (hys : ∀ b ∈ ys, start < b.start) : freeNext (xs ++ ys) start = ys.head? := by
  have hnone : xs.filter (fun b => start < b.start) = [] := by
    simp only [List.filter_eq_nil_iff, decide_eq_true_eq]
    intro b hb
    exact (hxs b hb).not_gt
  rw [freeNext, List.filter_append, hnone, List.nil_append,
    List.filter_eq_self.mpr (by simpa using hys)]

theorem freeable_iff {s : VmaRun} (h : VmaFaultInv P T s) (kmalloc : Bool) (bal : Rotations)
    (start size : ℕ) :
    (vmaFreeBlock kmalloc bal s.ctrl.freeBlockRoot start size).1 = .ok () ↔
      Freeable s.freeBlocks kmalloc start size := by
  have hT := h.bound
  have hsort : s.ctrl.freeBlockRoot.toList.Pairwise fun a b => a.start < b.start :=
    h.tiling.coalesced.imp fun hab => by
      simp only [stop] at hab
      omega
  have hword : ∀ b ∈ s.ctrl.freeBlockRoot.toList, Word.add 64 b.start b.size = b.stop := by
    intro b hb
    have hstop := (h.tiling.free_cell b hb).stop_le
    simp only [stop] at hstop ⊢
    exact Word.add_of_lt (by omega)
  by_cases hfresh : ∀ b ∈ s.ctrl.freeBlockRoot.toList, b.start ≠ start
  · obtain ⟨p, xs, ys, hdesc, hlist, hbef, haft, hxs, hys⟩ :=
      freeDescend_split (p := []) hsort hfresh
    simp only [before, List.nil_append] at hbef
    simp only [after, List.append_nil] at haft
    have hprev : prevBlock p = freePrev s.freeBlocks start := by
      rw [prevBlock_eq, hbef, VmaRun.freeBlocks, hlist, freePrev_append hxs hys]
    have hnext : nextBlock p = freeNext s.freeBlocks start := by
      rw [nextBlock_eq, haft, VmaRun.freeBlocks, hlist, freeNext_append hxs hys]
    have hprevWord : ∀ b ∈ prevBlock p, Word.add 64 b.start b.size = b.stop := by
      intro b hb
      rw [prevBlock_eq, hbef] at hb
      exact hword b (by simp [hlist, List.mem_of_getLast? hb])
    have hnextWord : ∀ b ∈ nextBlock p, Word.add 64 b.start b.size = b.stop := by
      intro b hb
      rw [nextBlock_eq, haft] at hb
      exact hword b (by simp [hlist, List.mem_of_mem_head? hb])
    rw [vmaFreeBlock_ok_iff hdesc hprevWord hnextWord, hprev, hnext]
    constructor
    · rintro ⟨hprev, hnext, hnode⟩
      exact ⟨hfresh, hprev, hnext, hnode⟩
    · intro hfree
      exact ⟨hfree.prev, hfree.next, hfree.node⟩
  · have hmem : ∃ b ∈ s.ctrl.freeBlockRoot.toList, b.start = start := by simpa using hfresh
    rw [vmaFreeBlock, freeDescend_none hsort hmem]
    simp only [reduceCtorEq, false_iff]
    exact fun h => hfresh h.fresh

/-! ## Failed frees -/

/-- A failing `vma_algo_free` leaves the control block as it was. -/
def FreeAtomic (ctrl : VmaCtrl) (kmalloc : Bool) (bal : Rotations) (addr realSize : ℕ) : Prop :=
  ∀ e, (vmaAlgoFree kmalloc bal ctrl addr realSize).1 = .error e →
    (vmaAlgoFree kmalloc bal ctrl addr realSize).2 = ctrl

theorem sub_one_ne {c : ℕ} (h : c < 2 ^ 64) : Word.sub 64 c 1 ≠ c := by
  rcases Nat.eq_zero_or_pos c with rfl | hpos
  · decide
  · rw [Word.sub_of_le hpos h]
    omega

/-- In every reachable state a failing free changes nothing exactly when the
free does not fail: no free block starts at the range, the neighbours touch it
or lie apart, and there is a node for it unless it is merged. -/
theorem vma_free_atomic_iff (P : PageSize) (T : ℕ) (s : VmaRun)
    (h : (vmaFaultMachine P T).Reach s) (kmalloc : Bool) (bal : Rotations) (addr realSize : ℕ) :
    FreeAtomic s.ctrl kmalloc bal addr realSize ↔
      Freeable s.freeBlocks kmalloc addr realSize := by
  have hinv := vmaFaultInv_reach h
  rw [← freeable_iff hinv kmalloc bal addr realSize]
  constructor
  · intro hatomic
    cases hret : (vmaFreeBlock kmalloc bal s.ctrl.freeBlockRoot addr realSize).1 with
    | ok u => rfl
    | error e =>
        -- the counters have changed
        have hsame := congrArg VmaCtrl.allocBlockCnt (hatomic e hret)
        exact absurd hsame (sub_one_ne hinv.cnt_lt)
  · intro hok e herr
    change (vmaFreeBlock kmalloc bal s.ctrl.freeBlockRoot addr realSize).1 = .error e at herr
    rw [hok] at herr
    simp at herr

/-- A pool of three pages with the middle one handed out. -/
def middlePageRun : VmaRun :=
  (vmaFaultMachine page4K 12288).final
    ⟨⟨12288, 12288, 0, .node .nil ⟨0, 12288⟩ 12288 .nil⟩, []⟩
    [.alloc 1 [], .alloc 1 [], .alloc 1 [], .free ⟨0, 4096⟩ true [], .free ⟨8192, 4096⟩ true []]

theorem middlePageRun_reach : (vmaFaultMachine page4K 12288).Reach middlePageRun :=
  Machine.Reach.final (.start ⟨by decide, by decide, rfl⟩) (by decide)

theorem vma_free_atomic_middle : FreeAtomic middlePageRun.ctrl true [] 4096 4096 :=
  (vma_free_atomic_iff page4K 12288 middlePageRun middlePageRun_reach true [] 4096 4096).mpr
    ⟨by decide, by decide, by decide, .inl rfl⟩

/-- A free that reaches into the next free block is refused after the previous
one has taken the range over. -/
theorem vma_free_half_applied : ∃ s : VmaRun, (vmaFaultMachine page4K 12288).Reach s ∧
    ∃ kmalloc bal addr realSize, ¬ FreeAtomic s.ctrl kmalloc bal addr realSize := by
  refine ⟨middlePageRun, middlePageRun_reach, true, [], 4096, 8192, ?_⟩
  intro h
  have hsame := h .EINVAL (by decide)
  exact absurd (congrArg VmaCtrl.freeBlockRoot hsame) (by decide)

end OpiaiKernel.Xsmem
