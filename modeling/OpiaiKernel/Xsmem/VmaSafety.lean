import OpiaiKernel.Xsmem.AlgoVma

/-!
# Safety of the VMA allocator

On the in-order list of free blocks an allocation is a carving and a free is a
release between the neighbours found by the descent, whatever the tree looks
like and whatever the caches hold.  Hence the free and the live blocks tile the
pool in every reachable state.
-/

namespace OpiaiKernel.Xsmem

open AugTree Span

variable {P : PageSize} {T : ℕ}

theorem PageSize.bytes_pos (P : PageSize) : 0 < P.bytes := Nat.two_pow_pos _

theorem PageSize.bytes_dvd (P : PageSize) : P.bytes ∣ 2 ^ 64 :=
  Nat.pow_dvd_pow 2 P.shift_lt.le

theorem PageSize.dvd_align (P : PageSize) (x : ℕ) : P.bytes ∣ P.align x :=
  Nat.dvd_mul_left _ _

/-! ## Writing through a block pointer -/

theorem toList_blockUpdate {root : VmaTree} {xs ys : List VmaBlock} {b : VmaBlock}
    (hroot : root.toList = xs ++ b :: ys) (hxs : ∀ c ∈ xs, c.start ≠ b.start)
    (f : VmaBlock → VmaBlock) :
    (blockUpdate root b.start f).toList = xs ++ f b :: ys := by
  obtain ⟨x, hx, -, ha, hbefore, hafter⟩ := locate_of_split (f := fun c => c.start == b.start)
    hroot (fun c hc => by simpa using hxs c hc) (by simp)
  rw [blockUpdate, hx, toList_propagate]
  simp only [Loc.before, Loc.after] at hbefore hafter
  simp [← hbefore, ← hafter, ha]

theorem toList_blockErase {root : VmaTree} {xs ys : List VmaBlock} {b : VmaBlock}
    (hroot : root.toList = xs ++ b :: ys) (hxs : ∀ c ∈ xs, c.start ≠ b.start)
    (bal : Rotations) : (blockErase bal root b.start).toList = xs ++ ys := by
  obtain ⟨x, hx, -, -, hbefore, hafter⟩ := locate_of_split (f := fun c => c.start == b.start)
    hroot (fun c hc => by simpa using hxs c hc) (by simp)
  rw [blockErase, hx, toList_rbEraseAugmented, hbefore, hafter]

/-! ## Allocation -/

theorem findFirstProperBlock_some {size : ℕ} {p : Path VmaBlock ℕ} {t : VmaTree}
    {x : Loc VmaBlock ℕ} (h : findFirstProperBlock size p t = some x) :
    x.root = plug t p ∧ size ≤ x.a.size := by
  induction t generalizing p with
  | nil => simp [findFirstProperBlock] at h
  | node l b g r ihl ihr =>
      rw [findFirstProperBlock] at h
      split at h
      · exact ihl h
      · split at h
        · next hsize =>
            obtain rfl := Option.some.inj h
            exact ⟨rfl, hsize⟩
        · split at h
          · exact ihr h
          · simp at h

theorem carve_word {b : VmaBlock} {size : ℕ} (hb : b.stop < 2 ^ 64) (hsize : size ≤ b.size) :
    b.carve size = if b.size = size then [] else
      [⟨Word.add 64 b.start size, Word.sub 64 b.size size⟩] := by
  simp only [stop] at hb
  rw [Word.add_of_lt (by omega), Word.sub_of_le hsize (by omega), carve]

theorem vmaAllocBlock_ok {bal : Rotations} {root root' : VmaTree} {size offset : ℕ}
    (hstop : ∀ b ∈ root.toList, b.stop < 2 ^ 64)
    (h : vmaAllocBlock bal root size = .ok (offset, root')) :
    ∃ xs b ys, root.toList = xs ++ b :: ys ∧ offset = b.start ∧ size ≤ b.size ∧
      root'.toList = xs ++ (b.carve size ++ ys) := by
  unfold vmaAllocBlock at h
  cases hfind : findFirstProperBlock size [] root with
  | none => simp [hfind] at h
  | some x =>
      obtain ⟨hroot, hsize⟩ := findFirstProperBlock_some hfind
      have hlist : root.toList = x.before ++ x.a :: x.after := by
        rw [← x.toList_root, hroot]
        rfl
      have hb := hstop x.a (by simp [hlist])
      refine ⟨x.before, x.a, x.after, hlist, ?_, hsize, ?_⟩
      · simp only [hfind] at h
        split at h <;> simp only [Except.ok.injEq, Prod.mk.injEq] at h <;> exact h.1.symm
      · rw [carve_word hb hsize]
        simp only [hfind] at h
        split at h <;> simp only [Except.ok.injEq, Prod.mk.injEq] at h
        · next heq => simp [← h.2, heq]
        · next hne => simp [← h.2, hne, Loc.before, Loc.after]

/-! ## The descent of a free -/

theorem prevBlock_eq (p : Path VmaBlock ℕ) : prevBlock p = (before p).getLast? := by
  match p with
  | [] => rfl
  | .right l b g :: p => simp [prevBlock, before]
  | .left b g r :: p => exact upPrev_map_a p _

theorem nextBlock_eq (p : Path VmaBlock ℕ) : nextBlock p = (after p).head? := by
  match p with
  | [] => rfl
  | .left b g r :: p => simp [nextBlock, after]
  | .right l b g :: p => exact upNext_map_a p _

theorem freeDescend_plug {start : ℕ} {p q : Path VmaBlock ℕ} {t : VmaTree}
    (h : freeDescend start p t = some q) : plug .nil q = plug t p := by
  induction t generalizing p with
  | nil =>
      obtain rfl := Option.some.inj h
      rfl
  | node l b g r ihl ihr =>
      rw [freeDescend] at h
      split at h
      · exact ihl h
      · split at h
        · exact ihr h
        · simp at h

/-- In a sorted tree the descent splits the blocks at `start`. -/
theorem freeDescend_split {start : ℕ} {p : Path VmaBlock ℕ} {t : VmaTree}
    (hsort : t.toList.Pairwise fun a b => a.start < b.start)
    (hne : ∀ b ∈ t.toList, b.start ≠ start) :
    ∃ q xs ys, freeDescend start p t = some q ∧ t.toList = xs ++ ys ∧
      before q = before p ++ xs ∧ after q = ys ++ after p ∧
      (∀ b ∈ xs, b.start < start) ∧ ∀ b ∈ ys, start < b.start := by
  induction t generalizing p with
  | nil => exact ⟨p, [], [], rfl, rfl, by simp, by simp, by simp, by simp⟩
  | node l b g r ihl ihr =>
      obtain ⟨hl, hbr, hcross⟩ := List.pairwise_append.mp hsort
      obtain ⟨hb, hr⟩ := List.pairwise_cons.mp hbr
      have hbne := hne b (by simp)
      rw [freeDescend]
      split
      · next hlt =>
          obtain ⟨q, xs, ys, hq, hlist, hbef, haft, hxs, hys⟩ :=
            ihl (p := .left b g r :: p) hl fun c hc => hne c (by simp [hc])
          refine ⟨q, xs, ys ++ b :: r.toList, hq, by simp [hlist], hbef, ?_, hxs, ?_⟩
          · simp [haft, after]
          · intro c hc
            rcases List.mem_append.mp hc with hc | hc
            · exact hys c hc
            · rcases List.mem_cons.mp hc with rfl | hc
              · exact hlt
              · exact hlt.trans (hb c hc)
      · next hge =>
          rw [if_pos (by omega)]
          obtain ⟨q, xs, ys, hq, hlist, hbef, haft, hxs, hys⟩ :=
            ihr (p := .right l b g :: p) hr fun c hc => hne c (by simp [hc])
          refine ⟨q, l.toList ++ b :: xs, ys, hq, by simp [hlist], ?_, haft, ?_, hys⟩
          · simp [hbef, before]
          · intro c hc
            rcases List.mem_append.mp hc with hc | hc
            · exact (hcross c hc b (by simp)).trans (by omega)
            · rcases List.mem_cons.mp hc with rfl | hc
              · omega
              · exact hxs c hc

/-! ## The four cases of a free -/

/-- What the descent for the block `s` of the pool gives. -/
structure FreeSlot (T : ℕ) (root : VmaTree) (s : VmaBlock) (p : Path VmaBlock ℕ) : Prop where
  descend : freeDescend s.start [] root = some p
  split : root.toList = before p ++ after p
  sorted : Coalesced (before p ++ after p)
  prev_le : ∀ t ∈ before p, t.stop ≤ s.start
  next_le : ∀ t ∈ after p, s.stop ≤ t.start
  pos : ∀ t ∈ before p ++ after p, 0 < t.size
  stop_le : ∀ t ∈ before p ++ after p, t.stop ≤ T
  size_pos : 0 < s.size
  free_stop : s.stop ≤ T
  bound : T < 2 ^ 64

theorem exists_freeSlot {root : VmaTree} {live : List VmaBlock} {s : VmaBlock}
    (h : Tiling P.bytes T root.toList live) (hs : s ∈ live) (hT : T < 2 ^ 64) :
    ∃ p, FreeSlot T root s p := by
  have hcell := h.live_cell s hs
  have hpos := hcell.pos
  have hsort : root.toList.Pairwise fun a b => a.start < b.start :=
    h.coalesced.imp fun hab => by
      simp only [stop] at hab
      omega
  have hne : ∀ b ∈ root.toList, b.start ≠ s.start := by
    intro b hb
    have hbpos := (h.free_cell b hb).pos
    rcases h.free_live_apart hb hs with hbs | hbs <;> simp only [stop] at hbs <;> omega
  obtain ⟨p, xs, ys, hp, hlist, hbef, haft, hxs, hys⟩ := freeDescend_split (p := []) hsort hne
  simp only [before, List.nil_append] at hbef
  simp only [after, List.append_nil] at haft
  subst hbef haft
  refine ⟨p, hp, hlist, hlist ▸ h.coalesced, ?_, ?_, ?_, ?_, hpos, hcell.stop_le, hT⟩
  · intro t ht
    have hlt := hxs t ht
    rcases h.free_live_apart (s := t) (by simp [hlist, ht]) hs with hts | hts
    · exact hts
    · simp only [stop] at hts
      omega
  · intro t ht
    have hlt := hys t ht
    have htpos := (h.free_cell t (by simp [hlist, ht])).pos
    rcases h.free_live_apart (s := t) (by simp [hlist, ht]) hs with hts | hts
    · simp only [stop] at hts
      omega
    · exact hts
  · exact fun t ht => (h.free_cell t (hlist ▸ ht)).pos
  · exact fun t ht => (h.free_cell t (hlist ▸ ht)).stop_le

theorem start_ne_of_coalesced (xs ys : List VmaBlock) (b : VmaBlock)
    (h : Coalesced (xs ++ b :: ys)) : ∀ c ∈ xs, c.start ≠ b.start := by
  intro c hc
  have := (List.pairwise_append.mp h).2.2 c hc b (by simp)
  simp only [stop] at this
  omega

/-- The tree after the previous block took the freed one over. -/
def mergePrevTree (root : VmaTree) (q s : VmaBlock) : VmaTree :=
  blockUpdate root q.start fun b => ⟨b.start, Word.add 64 b.size s.size⟩

/-- The tree after the previous block also took over the next one. -/
def mergeBothTree (bal : Rotations) (root : VmaTree) (q s t : VmaBlock) : VmaTree :=
  blockUpdate (blockErase bal (mergePrevTree root q s) t.start) q.start
    fun b => ⟨b.start, Word.add 64 b.size t.size⟩

/-- The tree after the next block took the freed one over. -/
def mergeNextTree (root : VmaTree) (s t : VmaBlock) : VmaTree :=
  blockUpdate root t.start fun b => ⟨Word.sub 64 b.start s.size, Word.add 64 b.size s.size⟩

section Free

variable {root : VmaTree} {s : VmaBlock} {p : Path VmaBlock ℕ} (h : FreeSlot T root s p)

include h

theorem FreeSlot.freeMergePrev_some {q : VmaBlock} (hq : q ∈ before p) (root' : VmaTree) :
    freeMergePrev root' (some q) s.start s.size =
      .ok (if q.stop = s.start then (true, mergePrevTree root' q s) else (false, root')) := by
  have hT := h.bound
  have hqs := h.prev_le q hq
  have hqT := h.stop_le q (by simp [hq])
  have hqw : Word.add 64 q.start q.size = q.stop := Word.add_of_lt (by
    simp only [stop] at hqT
    omega)
  have hno : ¬ isOverlap s.start (Word.add 64 s.start s.size) q.start q.stop := by
    simp only [isOverlap]
    omega
  simp only [freeMergePrev, hqw, if_neg hno, mergePrevTree]
  split <;> rfl

theorem FreeSlot.freeMergeNext_some {t : VmaBlock} (ht : t ∈ after p) (bal : Rotations)
    (root' : VmaTree) (merged : Bool) (prev : Option VmaBlock) :
    freeMergeNext bal root' merged prev (some t) s.start s.size =
      .ok (if s.stop = t.start then
          (true, match merged, prev with
            | true, some q => blockUpdate (blockErase bal root' t.start) q.start
                fun b => ⟨b.start, Word.add 64 b.size t.size⟩
            | _, _ => mergeNextTree root' s t)
        else (merged, root')) := by
  have hT := h.bound
  have hst := h.next_le t ht
  have hsT := h.free_stop
  have hsw : Word.add 64 s.start s.size = s.stop := Word.add_of_lt (by
    simp only [stop] at hsT
    omega)
  have hno : ¬ isOverlap s.start s.stop t.start (Word.add 64 t.start t.size) := by
    simp only [isOverlap]
    omega
  simp only [freeMergeNext, hsw, if_neg hno, mergeNextTree]
  split
  · rcases merged with _ | _ <;> rcases prev with _ | q <;> rfl
  · rfl

/-- The result and the tree of a free that descends to `p`, by the neighbours
that touch the block. -/
theorem FreeSlot.vmaFreeBlock_eq (bal : Rotations) :
    vmaFreeBlock true bal root s.start s.size = (.ok (),
      match (before p).getLast?, (after p).head? with
      | some q, some t =>
          if q.stop = s.start then
            if s.stop = t.start then mergeBothTree bal root q s t else mergePrevTree root q s
          else if s.stop = t.start then mergeNextTree root s t
          else rbInsertAugmented computeSubtreeMaxSize bal s s.size p
      | some q, none =>
          if q.stop = s.start then mergePrevTree root q s
          else rbInsertAugmented computeSubtreeMaxSize bal s s.size p
      | none, some t =>
          if s.stop = t.start then mergeNextTree root s t
          else rbInsertAugmented computeSubtreeMaxSize bal s s.size p
      | none, none => rbInsertAugmented computeSubtreeMaxSize bal s s.size p) := by
  simp only [vmaFreeBlock, h.descend, prevBlock_eq, nextBlock_eq]
  cases hq : (before p).getLast? with
  | none =>
      cases ht : (after p).head? with
      | none => rfl
      | some t =>
          have htm := List.mem_of_mem_head? (by simpa using ht : t ∈ (after p).head?)
          simp only [freeMergePrev, h.freeMergeNext_some htm]
          split <;> rfl
  | some q =>
      rw [h.freeMergePrev_some (List.mem_of_getLast? hq)]
      cases ht : (after p).head? with
      | none =>
          simp only [freeMergeNext]
          split <;> rfl
      | some t =>
          have htm := List.mem_of_mem_head? (by simpa using ht : t ∈ (after p).head?)
          simp only [h.freeMergeNext_some htm]
          by_cases hgluq : q.stop = s.start <;> by_cases hglut : s.stop = t.start <;>
            simp only [hgluq, hglut, if_true, if_false] <;> rfl

theorem FreeSlot.toList_mergePrevTree {xs : List VmaBlock} {q : VmaBlock}
    (hxs : before p = xs ++ [q]) :
    (mergePrevTree root q s).toList = xs ++ ⟨q.start, q.size + s.size⟩ :: after p := by
  have hlist : root.toList = xs ++ q :: after p := by simp [h.split, hxs]
  have hne := start_ne_of_coalesced xs (after p) q
    (by simpa [hxs] using h.sorted)
  have hqs := h.prev_le q (by simp [hxs])
  have hsT := h.free_stop
  have hT := h.bound
  rw [mergePrevTree, toList_blockUpdate hlist hne]
  simp only [stop] at hqs hsT
  rw [Word.add_of_lt (by omega)]

theorem FreeSlot.toList_mergeNextTree {ys : List VmaBlock} {t : VmaBlock}
    (hys : after p = t :: ys) (hglue : s.stop = t.start) :
    (mergeNextTree root s t).toList = before p ++ ⟨s.start, s.size + t.size⟩ :: ys := by
  have hlist : root.toList = before p ++ t :: ys := by simp [h.split, hys]
  have hne := start_ne_of_coalesced (before p) ys t
    (by simpa [hys] using h.sorted)
  have htT := h.stop_le t (by simp [hys])
  have hT := h.bound
  rw [mergeNextTree, toList_blockUpdate hlist hne]
  simp only [stop] at hglue htT
  rw [Word.add_of_lt (by omega), Word.sub_of_le (by omega) (by omega)]
  congr 3 <;> omega

theorem FreeSlot.toList_mergeBothTree {xs ys : List VmaBlock} {q t : VmaBlock}
    (hxs : before p = xs ++ [q]) (hys : after p = t :: ys) (bal : Rotations) :
    (mergeBothTree bal root q s t).toList =
      xs ++ ⟨q.start, q.size + s.size + t.size⟩ :: ys := by
  have hprev := h.toList_mergePrevTree hxs
  have hsorted := h.sorted
  rw [hxs, hys] at hsorted
  have hne := start_ne_of_coalesced _ _ _ hsorted
  have hneq := start_ne_of_coalesced xs (t :: ys) q (by simpa using hsorted)
  have herase : (blockErase bal (mergePrevTree root q s) t.start).toList =
      xs ++ ⟨q.start, q.size + s.size⟩ :: ys := by
    have hlist : (mergePrevTree root q s).toList =
        (xs ++ [⟨q.start, q.size + s.size⟩]) ++ t :: ys := by simp [hprev, hys]
    rw [toList_blockErase hlist]
    · simp
    · intro c hc
      rcases List.mem_append.mp hc with hc | hc
      · exact hne c (by simp [hc])
      · rw [List.mem_singleton.mp hc]
        exact hne q (by simp)
  have hqs := h.prev_le q (by simp [hxs])
  have hst := h.next_le t (by simp [hys])
  have htT := h.stop_le t (by simp [hys])
  have hT := h.bound
  simp only [stop] at hqs hst htT
  have hsize : Word.add 64 (q.size + s.size) t.size = q.size + s.size + t.size :=
    Word.add_of_lt (by omega)
  rw [mergeBothTree, toList_blockUpdate (b := ⟨q.start, q.size + s.size⟩) herase hneq, hsize]

/-- A free releases the block at the place the descent found. -/
theorem FreeSlot.vmaFreeBlock_release (bal : Rotations) :
    ∃ root', vmaFreeBlock true bal root s.start s.size = (.ok (), root') ∧
      root'.toList = release (before p) s (after p) := by
  refine ⟨_, h.vmaFreeBlock_eq bal, ?_⟩
  rcases List.eq_nil_or_concat (before p) with hbef | ⟨xs, q, hbef⟩
  · rcases haft : after p with _ | ⟨t, ys⟩
    · simp [hbef, haft]
    · simp only [hbef, List.getLast?_nil, List.head?_cons, release_nil, glueRight_cons]
      split
      · next hglue => simpa [hbef] using h.toList_mergeNextTree haft hglue
      · simp [hbef, haft]
  · rw [List.concat_eq_append] at hbef
    rcases haft : after p with _ | ⟨t, ys⟩
    · simp only [hbef, List.getLast?_concat, List.head?_nil, release_concat, glueRight_nil]
      split
      · simpa [haft] using h.toList_mergePrevTree hbef
      · simp [hbef, haft]
    · simp only [hbef, List.getLast?_concat, List.head?_cons, release_concat, glueRight_cons]
      have hglued : (⟨q.start, q.size + s.size⟩ : Span).stop = t.start ↔
          q.stop + s.size = t.start := by
        simp only [stop]
        omega
      by_cases hgluq : q.stop = s.start
      · rw [hgluq] at hglued
        simp only [hgluq, if_true, hglued]
        by_cases hglut : s.stop = t.start
        · rw [if_pos hglut, if_pos (by simpa [stop] using hglut)]
          exact h.toList_mergeBothTree hbef haft bal
        · rw [if_neg hglut, if_neg (by simpa [stop] using hglut)]
          simpa [haft] using h.toList_mergePrevTree hbef
      · simp only [hgluq, if_false]
        split
        · next hglut => simpa [hbef] using h.toList_mergeNextTree haft hglut
        · simp [hbef, haft]

end Free

/-! ## The invariant of a run -/

structure VmaInv (P : PageSize) (T : ℕ) (s : VmaRun) : Prop where
  bound : T < 2 ^ 64
  tiling : Tiling P.bytes T s.ctrl.freeBlockRoot.toList s.live
  freeSize_eq : s.ctrl.freeSize = total s.ctrl.freeBlockRoot.toList
  cnt_eq : s.ctrl.allocBlockCnt = s.live.length

theorem vmaInv_init {s : VmaRun} (h : (vmaMachine P T).init s) : VmaInv P T s := by
  obtain ⟨hT, hcreate, hlive⟩ := h
  unfold vmaInstCreate at hcreate
  split at hcreate
  · simp at hcreate
  · next hok =>
      obtain ⟨hdvd, hpos⟩ := not_or.mp hok
      have htiling : Tiling P.bytes T [⟨0, T⟩] [] :=
        Tiling.whole (by omega) (Nat.dvd_of_mod_eq_zero (by simpa using hdvd))
      have hctrl := (Option.some.inj hcreate).symm
      refine ⟨hT, ?_, ?_, ?_⟩ <;> simp [hctrl, hlive, htiling]

/-- A successful allocation, on the lists. -/
theorem VmaInv.alloc_ok {s : VmaRun} (h : VmaInv P T s) {bal : Rotations}
    {allocSize addr realSize : ℕ} {ctrl : VmaCtrl}
    (hok : vmaAlgoAlloc P bal s.ctrl allocSize = (.ok (addr, realSize), ctrl)) :
    allocSize ≠ 0 ∧ realSize = P.align allocSize ∧ allocSize ≤ realSize ∧
      ∃ xs b ys, s.ctrl.freeBlockRoot.toList = xs ++ b :: ys ∧ addr = b.start ∧
        realSize ≤ b.size ∧ ctrl.freeBlockRoot.toList = xs ++ (b.carve realSize ++ ys) ∧
        ctrl.freeSize + realSize = s.ctrl.freeSize ∧
        ctrl.allocBlockCnt = s.ctrl.allocBlockCnt + 1 := by
  have hT := h.bound
  unfold vmaAlgoAlloc at hok
  split at hok
  · simp at hok
  · next hne =>
      dsimp only at hok
      split at hok
      · simp at hok
      · next hge =>
          split at hok
          · simp at hok
          · next hfree =>
              cases halloc : vmaAllocBlock bal s.ctrl.freeBlockRoot (P.align allocSize) with
              | error e => simp [halloc] at hok
              | ok r =>
                  obtain ⟨offset, root⟩ := r
                  simp only [halloc, Prod.mk.injEq, Except.ok.injEq] at hok
                  obtain ⟨⟨rfl, rfl⟩, rfl⟩ := hok
                  have hstop : ∀ b ∈ s.ctrl.freeBlockRoot.toList, b.stop < 2 ^ 64 :=
                    fun b hb => (h.tiling.free_cell b hb).stop_le.trans_lt hT
                  obtain ⟨xs, b, ys, hlist, haddr, hsize, hroot⟩ := vmaAllocBlock_ok hstop halloc
                  have htotal := h.tiling.total_eq
                  have hcnt := h.tiling.length_le
                  have hsum := h.freeSize_eq
                  have hpos : 0 < total s.ctrl.freeBlockRoot.toList := by
                    have : b.size ≤ total s.ctrl.freeBlockRoot.toList :=
                      size_le_total (by simp [hlist])
                    have := (h.tiling.free_cell b (by simp [hlist])).pos
                    omega
                  have hlen := length_le_total fun t ht => (h.tiling.live_cell t ht).pos
                  refine ⟨hne, rfl, by omega, xs, b, ys, hlist, haddr, hsize, hroot, ?_, ?_⟩
                  · change Word.sub 64 s.ctrl.freeSize (P.align allocSize) + P.align allocSize = _
                    rw [Word.sub_of_le (by omega) (by omega)]
                    omega
                  · change Word.add 64 s.ctrl.allocBlockCnt 1 = _
                    rw [h.cnt_eq, Word.add_of_lt (by omega)]

theorem vmaAlgoAlloc_error {bal : Rotations} {ctrl ctrl' : VmaCtrl} {allocSize : ℕ} {e : Errno}
    (h : vmaAlgoAlloc P bal ctrl allocSize = (.error e, ctrl')) : ctrl' = ctrl := by
  unfold vmaAlgoAlloc at h
  dsimp only at h
  repeat' split at h
  all_goals simp_all

theorem VmaInv.alloc {s t : VmaRun} (h : VmaInv P T s) {allocSize : ℕ} {bal : Rotations}
    (hstep : vmaStep P s (.alloc allocSize bal) = some t) : VmaInv P T t := by
  simp only [vmaStep] at hstep
  rcases hres : vmaAlgoAlloc P bal s.ctrl allocSize with ⟨e | ⟨addr, realSize⟩, ctrl⟩
  · obtain rfl := vmaAlgoAlloc_error hres
    simp only [hres, Option.some.injEq] at hstep
    exact hstep ▸ h
  · obtain ⟨hne, hreal, hge, xs, b, ys, hlist, haddr, hsize, hroot, hfree, hcnt⟩ :=
      h.alloc_ok hres
    simp only [hres, Option.some.injEq] at hstep
    subst hstep haddr
    have htiling := h.tiling
    rw [hlist] at htiling
    have hdvd : P.bytes ∣ realSize := hreal ▸ P.dvd_align allocSize
    have hnew := htiling.carve (by omega) hdvd hsize
    refine ⟨h.bound, hroot ▸ hnew, ?_, ?_⟩
    · have h₁ := htiling.total_eq
      have h₂ := hnew.total_eq
      have h₃ := h.freeSize_eq
      rw [hlist] at h₃
      simp only [hroot, total_cons] at h₂ ⊢
      omega
    · simp [hcnt, h.cnt_eq]

/-- Freeing a live block succeeds and releases it at its place. -/
theorem VmaInv.free_ok {s : VmaRun} (h : VmaInv P T s) {b : VmaBlock} (hb : b ∈ s.live)
    (bal : Rotations) :
    ∃ p root', FreeSlot T s.ctrl.freeBlockRoot b p ∧
      vmaFreeBlock true bal s.ctrl.freeBlockRoot b.start b.size = (.ok (), root') ∧
      root'.toList = release (before p) b (after p) := by
  obtain ⟨p, hslot⟩ := exists_freeSlot h.tiling hb h.bound
  obtain ⟨root', hfree, hroot'⟩ := hslot.vmaFreeBlock_release bal
  exact ⟨p, root', hslot, hfree, hroot'⟩

theorem VmaInv.free {s t : VmaRun} (h : VmaInv P T s) {b : VmaBlock} {bal : Rotations}
    (hstep : vmaStep P s (.free b bal) = some t) : VmaInv P T t := by
  simp only [vmaStep] at hstep
  split at hstep
  · next hb =>
      obtain ⟨p, root', hslot, hfree, hroot'⟩ := h.free_ok hb bal
      obtain rfl := Option.some.inj hstep
      have hT := h.bound
      have hperm := List.perm_cons_erase hb
      have htiling := h.tiling.perm hperm
      rw [hslot.split] at htiling
      have hnew := htiling.release hslot.prev_le hslot.next_le
      rw [← hroot'] at hnew
      have h₁ := h.tiling.total_eq
      have h₂ := hnew.total_eq
      have h₃ := h.freeSize_eq
      have h₄ := htiling.total_eq
      have hsplit := congrArg total hslot.split
      have hlen := hperm.length_eq
      have hle := h.tiling.length_le
      simp only [total_cons, List.length_cons, total_append] at h₄ hlen hsplit
      simp only [vmaAlgoFree, hfree]
      refine ⟨h.bound, hnew, ?_, ?_⟩
      · change Word.add 64 s.ctrl.freeSize b.size = total root'.toList
        rw [Word.add_of_lt (by omega)]
        omega
      · change Word.sub 64 s.ctrl.allocBlockCnt 1 = (s.live.erase b).length
        rw [h.cnt_eq, Word.sub_of_le (by omega) (by omega)]
        omega
  · simp at hstep

theorem vmaInv_reach {s : VmaRun} (h : (vmaMachine P T).Reach s) : VmaInv P T s :=
  h.invariant (fun _ => vmaInv_init) fun _ a _ hs _ hstep => by
    cases a with
    | alloc allocSize bal => exact hs.alloc hstep
    | free b bal => exact hs.free hstep

/-! ## Safety -/

/-- The free blocks in address order. -/
def VmaRun.freeBlocks (s : VmaRun) : List VmaBlock := s.ctrl.freeBlockRoot.toList

/-- What is safe about a state of an allocator of `T` bytes. -/
structure VmaSafe (P : PageSize) (T : ℕ) (s : VmaRun) : Prop where
  live_disjoint : s.live.Pairwise Apart
  live_aligned : ∀ b ∈ s.live, 0 < b.size ∧ P.bytes ∣ b.start ∧ P.bytes ∣ b.size
  live_inside : ∀ b ∈ s.live, b.stop ≤ T
  free_compl : cover s.freeBlocks = {n | n < T ∧ n ∉ cover s.live}
  free_nonempty : ∀ b ∈ s.freeBlocks, 0 < b.size
  free_increasing : s.freeBlocks.Pairwise fun a b => a.start < b.start
  free_disjoint : s.freeBlocks.Pairwise Apart
  free_coalesced : s.freeBlocks.Pairwise fun a b => a.stop ≠ b.start ∧ b.stop ≠ a.start
  freeSize_eq : s.ctrl.freeSize = T - total s.live ∧ total s.live ≤ T
  cnt_eq : s.ctrl.allocBlockCnt = s.live.length

theorem vma_allocator_safe (P : PageSize) (T : ℕ) (s : VmaRun)
    (h : (vmaMachine P T).Reach s) : VmaSafe P T s := by
  have hinv := vmaInv_reach h
  have ht := hinv.tiling
  have hcoal := ht.coalesced
  constructor
  · exact ht.apart
  · exact fun b hb => ⟨(ht.live_cell b hb).pos, (ht.live_cell b hb).start_dvd,
      (ht.live_cell b hb).size_dvd⟩
  · exact fun b hb => (ht.live_cell b hb).stop_le
  · ext n
    by_cases hn : n < T
    · simpa [hn, VmaRun.freeBlocks] using ht.compl n hn
    · simp only [Set.mem_ofPred_eq, hn, false_and, iff_false]
      rintro ⟨b, hb, -, hlt⟩
      have := (ht.free_cell b hb).stop_le
      omega
  · exact fun b hb => (ht.free_cell b hb).pos
  · refine hcoal.imp fun hab => ?_
    simp only [stop] at hab
    omega
  · exact hcoal.imp fun hab => .inl hab.le
  · refine hcoal.imp fun hab => ?_
    simp only [stop] at hab ⊢
    omega
  · have htotal := ht.total_eq
    have hsize := hinv.freeSize_eq
    omega
  · exact hinv.cnt_eq

/-- 4 KiB pages. -/
def page4K : PageSize := ⟨12, by decide⟩

/-- A pool of two pages with the first one handed out. -/
def onePageRun : VmaRun where
  ctrl :=
    { totalSize := 8192
      freeSize := 4096
      allocBlockCnt := 1
      freeBlockRoot := .node .nil ⟨4096, 4096⟩ 4096 .nil }
  live := [⟨0, 4096⟩]

theorem vma_allocator_safe_onePageRun : VmaSafe page4K 8192 onePageRun :=
  vma_allocator_safe page4K 8192 onePageRun
    (Machine.Reach.run [.alloc 1 []]
      (s := ⟨⟨8192, 8192, 0, .node .nil ⟨0, 8192⟩ 8192 .nil⟩, []⟩)
      (.start ⟨by decide, by decide, rfl⟩) (by decide))

end OpiaiKernel.Xsmem
