import OpiaiKernel.Hdc.PagePool
import OpiaiKernel.Lib.Placement
import Mathlib.Algebra.BigOperators.Group.Finset.Basic
import Mathlib.Algebra.Order.BigOperators.Group.Finset
import Mathlib.Algebra.Order.Ring.Int

/-!
# The accounts of the pool of huge pages

Every page that was obtained is in a slot, on its way back or given back, and every
block that is out is marked in its slot.  What one step does is stated for each kind of
step; a page without a block in use can only be given back while the pool is valid.
-/

namespace OpiaiKernel.Hdc

variable {crc32 : BlockInfo → UInt32}

/-! ## The pool -/

/-- Where a page can be. -/
inductive PagePlace
  | slot (index : ℕ)
  | freeing
  | released

def PagePoolState.at (s : PagePoolState) : PagePlace → ℕ → Prop
  | .slot index, page => (s.pool.pageList index).pageAddr = some page
  | .freeing, page => .freePage page ∈ s.calls
  | .released, page => page ∈ s.released

/-- The block is marked in the slot of its identifier. -/
structure IsOut (pageList : ℕ → HugePage) (b : PageBlock) : Prop where
  page : (pageList (b.memId / HDCDRV_PAGE_BLOCK_NUM)).pageAddr = some b.page
  block : b.block = b.memId % HDCDRV_PAGE_BLOCK_NUM
  used : (pageList (b.memId / HDCDRV_PAGE_BLOCK_NUM)).usedBlock b.block = true

/-- What the pool promises. -/
structure PagePoolOk (crc32 : BlockInfo → UInt32) (s : PagePoolState) : Prop where
  nodup : (s.out.map fun b => (b.page, b.block)).Nodup
  alloc : ∀ b, (hdccomAllocMemPage crc32 s).2.1 = some b →
    (b.page, b.block) ∉ s.out.map fun b => (b.page, b.block)
  num : ∀ i, (s.pool.pageList i).usedBlockNum = (s.pool.pageList i).marked
  all : s.pool.usedBlockAll =
    ∑ i ∈ Finset.range HDCDRV_HUGE_PAGE_NUM, (s.pool.pageList i).usedBlockNum
  answer : s.pool.valid = true →
    (∃ i < HDCDRV_HUGE_PAGE_NUM, (s.pool.pageList i).valid ≠ .hasAlloc ∨
      (s.pool.pageList i).usedBlockNum < HDCDRV_PAGE_BLOCK_NUM) →
    (hdccomAllocMemPage crc32 s).1 ∈ [.ok, .allocAgain, .allocLaterWithIndex]
  fill : ∀ i addr, .allocHugePage i ∈ s.calls →
    (fillSlot crc32 s i (.mapped addr)).1 = .allocLaterWithIndex
  place : Placement (· < s.next) s.at
  once : s.released.Nodup ∧ s.calls.Nodup
  last : ∀ p ∈ s.touched, (∀ b ∈ s.out, b.page ≠ p) → .freePage p ∈ s.calls ∨ p ∈ s.released
  down : s.pool.valid = false → s.out = [] → s.calls = [] → ∀ p < s.next, p ∈ s.released

structure PagePoolInv (crc32 : BlockInfo → UInt32) (s : PagePoolState) : Prop where
  slot : ∀ i, SlotOk crc32 (s.pool.pageList i) s.pool.heads s.touched
  bound : ∀ i, HDCDRV_HUGE_PAGE_NUM ≤ i → (s.pool.pageList i).valid = .notAlloc
  all : s.pool.usedBlockAll =
    ∑ i ∈ Finset.range HDCDRV_HUGE_PAGE_NUM, (s.pool.pageList i).usedBlockNum
  place : Placement (· < s.next) s.at
  calls : s.calls.Nodup
  released : s.released.Nodup
  fill : ∀ i, .allocHugePage i ∈ s.calls ↔ (s.pool.pageList i).valid = .preStatus
  out : ∀ b, b ∈ s.out ↔ IsOut s.pool.pageList b
  nodup : s.out.Nodup
  touched : ∀ p ∈ s.touched, p < s.next
  down : s.pool.valid = false → ∀ i, (s.pool.pageList i).valid = .hasAlloc →
    (s.pool.pageList i).usedBlockNum ≠ 0

/-- No page is obtained after the shutdown, and the shutdown finds every page in use. -/
def noIdlePage (s : PagePoolState) : PageAct → Bool
  | .shutdown => (List.range HDCDRV_HUGE_PAGE_NUM).all fun i =>
      (s.pool.pageList i).valid = .hasAlloc → (s.pool.pageList i).usedBlockNum ≠ 0
  | .fill _ (.mapped _) => s.pool.valid
  | _ => true

/-! ## The steps -/

variable {s t : PagePoolState} {i : ℕ}

/-- The sum when one slot is written. -/
theorem sum_usedBlockNum (pageList : ℕ → HugePage) (hi : i < HDCDRV_HUGE_PAGE_NUM)
    (page : HugePage) :
    ∑ j ∈ Finset.range HDCDRV_HUGE_PAGE_NUM, (Function.update pageList i page j).usedBlockNum =
      ∑ j ∈ Finset.range HDCDRV_HUGE_PAGE_NUM, (pageList j).usedBlockNum +
        (page.usedBlockNum - (pageList i).usedBlockNum) := by
  have hmem := Finset.mem_range.mpr hi
  rw [← Finset.sum_erase_add _ _ hmem, ← Finset.sum_erase_add _ (fun j => (pageList j).usedBlockNum)
    hmem, Function.update_self]
  have hrest : ∑ j ∈ (Finset.range HDCDRV_HUGE_PAGE_NUM).erase i,
      (Function.update pageList i page j).usedBlockNum =
        ∑ j ∈ (Finset.range HDCDRV_HUGE_PAGE_NUM).erase i, (pageList j).usedBlockNum := by
    apply Finset.sum_congr rfl
    intro j hj
    rw [Function.update_of_ne (Finset.ne_of_mem_erase hj)]
  rw [hrest]
  omega

theorem SlotOk.setValid {page : HugePage} {heads : ℕ → ℕ → MemBlockHead} {touched : List ℕ}
    (h : SlotOk crc32 page heads touched) (hold : page.valid ≠ .hasAlloc) {valid : PageStatus}
    (hne : valid ≠ .hasAlloc) : SlotOk crc32 { page with valid := valid } heads touched where
  idle _ := h.idle hold
  busy hvalid := absurd hvalid hne
  num := h.num
  heads := h.heads
  fresh := h.fresh

theorem PagePoolInv.index_lt (hinv : PagePoolInv crc32 s)
    (hne : (s.pool.pageList i).valid ≠ .notAlloc) : i < HDCDRV_HUGE_PAGE_NUM := by
  by_contra hge
  exact hne (hinv.bound i (Nat.not_lt.mp hge))

/-- An unused slot changes its status; the calls and the pages given back follow. -/
theorem PagePoolInv.setStatus (hinv : PagePoolInv crc32 s) (i : ℕ) (valid : PageStatus)
    (hold : (s.pool.pageList i).valid ≠ .hasAlloc) (hi : i < HDCDRV_HUGE_PAGE_NUM)
    (hne : valid ≠ .hasAlloc)
    (hpool : t.pool = s.pool.setStatus i valid) (hout : t.out = s.out)
    (htouched : t.touched = s.touched) (hnext : s.next ≤ t.next)
    (hcalls : t.calls.Nodup) (hreleased : t.released.Nodup)
    (hfill : ∀ j, .allocHugePage j ∈ t.calls ↔
      if j = i then valid = .preStatus else .allocHugePage j ∈ s.calls)
    (hplace : Placement (· < t.next) t.at) : PagePoolInv crc32 t := by
  have hkeep (j : ℕ) : (t.pool.pageList j).pageAddr = (s.pool.pageList j).pageAddr ∧
      (t.pool.pageList j).usedBlockNum = (s.pool.pageList j).usedBlockNum ∧
      (t.pool.pageList j).usedBlock = (s.pool.pageList j).usedBlock := by
    simp only [hpool, HugePagePool.setStatus, HugePagePool.setPage]
    rcases eq_or_ne j i with rfl | hj
    · rw [Function.update_self]
      exact ⟨rfl, rfl, rfl⟩
    · rw [Function.update_of_ne hj]
      exact ⟨rfl, rfl, rfl⟩
  have hvalid (j : ℕ) : (t.pool.pageList j).valid =
      if j = i then valid else (s.pool.pageList j).valid := by
    simp only [hpool, HugePagePool.setStatus, HugePagePool.setPage, Function.update_apply]
    split_ifs <;> rfl
  refine
    { slot := ?_, bound := ?_, all := ?_, place := hplace, calls := hcalls, released := hreleased,
      fill := ?_, out := ?_, nodup := hout ▸ hinv.nodup, touched := ?_, down := ?_ }
  · intro j
    simp only [hpool, htouched, HugePagePool.setStatus, HugePagePool.setPage]
    rcases eq_or_ne j i with rfl | hj
    · rw [Function.update_self]
      exact (hinv.slot j).setValid hold hne
    · rw [Function.update_of_ne hj]
      exact hinv.slot j
  · intro j hj
    rw [hvalid, if_neg (by omega)]
    exact hinv.bound j hj
  · have hall : t.pool.usedBlockAll = s.pool.usedBlockAll := by rw [hpool]; rfl
    rw [hall, hinv.all]
    exact Finset.sum_congr rfl fun j _ => (hkeep j).2.1.symm
  · intro j
    rw [hfill, hvalid]
    split_ifs
    · rfl
    · exact hinv.fill j
  · intro b
    rw [hout, hinv.out]
    constructor
    · rintro ⟨hpage, hblock, hused⟩
      exact ⟨(hkeep _).1.trans hpage, hblock, (congrFun (hkeep _).2.2 _).trans hused⟩
    · rintro ⟨hpage, hblock, hused⟩
      exact ⟨(hkeep _).1.symm.trans hpage, hblock, (congrFun (hkeep _).2.2 _).symm.trans hused⟩
  · rw [htouched]
    exact fun p hp => Nat.lt_of_lt_of_le (hinv.touched p hp) hnext
  · intro hdown j
    have hdown' : s.pool.valid = false := by rw [← hdown, hpool]; rfl
    rw [hvalid, (hkeep j).2.1]
    split_ifs with hj
    · exact fun h => absurd h hne
    · exact hinv.down hdown' j


theorem PagePoolState.at_setStatus {valid : PageStatus}
    (hpool : t.pool = s.pool.setStatus i valid) (j p : ℕ) :
    t.at (.slot j) p ↔ s.at (.slot j) p := by
  simp only [PagePoolState.at, hpool, HugePagePool.setStatus, HugePagePool.setPage]
  rcases eq_or_ne j i with rfl | hj
  · rw [Function.update_self]
  · rw [Function.update_of_ne hj]

/-- A slot is reserved. -/
theorem PagePoolInv.later (hinv : PagePoolInv crc32 s)
    (hmem : hdccomGetPageMem s.pool = .later i) :
    PagePoolInv crc32
      { s with
        pool := s.pool.setStatus i .preStatus
        calls := .allocHugePage i :: s.calls } := by
  obtain ⟨hi, hidle⟩ := hdccomGetPageMem_later hmem
  have hnot : .allocHugePage i ∉ s.calls := by
    rw [hinv.fill, hidle]
    simp
  refine hinv.setStatus i .preStatus (by simp [hidle]) hi (by simp) rfl rfl rfl (Nat.le_refl _) ?_
    hinv.released ?_ ?_
  · exact List.nodup_cons.mpr ⟨hnot, hinv.calls⟩
  · intro j
    rw [List.mem_cons, PageCall.allocHugePage.injEq]
    split_ifs with hj
    · simp [hj]
    · simp [hj]
  · apply hinv.place.congr
    intro r p
    cases r with
    | slot j => exact PagePoolState.at_setStatus rfl j p
    | freeing => simp [PagePoolState.at]
    | released => rfl

/-- The reservation is given up. -/
theorem PagePoolInv.giveUp (hinv : PagePoolInv crc32 s) (hcall : .allocHugePage i ∈ s.calls) :
    PagePoolInv crc32
      { s with
        pool := s.pool.setStatus i .notAlloc
        calls := s.calls.erase (.allocHugePage i) } := by
  have hpre := (hinv.fill i).mp hcall
  refine hinv.setStatus i .notAlloc (by simp [hpre]) (hinv.index_lt (by simp [hpre])) (by simp)
    rfl rfl rfl (Nat.le_refl _) ?_ hinv.released ?_ ?_
  · exact hinv.calls.erase _
  · intro j
    rw [hinv.calls.mem_erase_iff, Ne, PageCall.allocHugePage.injEq]
    split_ifs with hj
    · simp [hj]
    · simp [hj]
  · apply hinv.place.congr
    intro r p
    cases r with
    | slot j => exact PagePoolState.at_setStatus rfl j p
    | freeing => simp [PagePoolState.at, hinv.calls.mem_erase_iff]
    | released => rfl

theorem PagePoolInv.new_notMem (hinv : PagePoolInv crc32 s) (r : PagePlace) :
    ¬s.at r s.next :=
  fun hr => Nat.lt_irrefl _ (hinv.place.inside r s.next hr)

/-- A page is obtained, cannot be mapped and is given back at once. -/
theorem PagePoolInv.mapFail (hinv : PagePoolInv crc32 s) (hcall : .allocHugePage i ∈ s.calls) :
    PagePoolInv crc32
      { s with
        pool := s.pool.setStatus i .notAlloc
        calls := s.calls.erase (.allocHugePage i)
        next := s.next + 1
        released := s.next :: s.released } := by
  have hpre := (hinv.fill i).mp hcall
  refine hinv.setStatus i .notAlloc (by simp [hpre]) (hinv.index_lt (by simp [hpre])) (by simp)
    rfl rfl rfl (Nat.le_succ _) ?_ ?_ ?_ ?_
  · exact hinv.calls.erase _
  · exact List.nodup_cons.mpr ⟨hinv.new_notMem .released, hinv.released⟩
  · intro j
    rw [hinv.calls.mem_erase_iff, Ne, PageCall.allocHugePage.injEq]
    split_ifs with hj
    · simp [hj]
    · simp [hj]
  · apply hinv.place.insert (a := s.next) (q := .released)
    · exact fun b => Nat.lt_succ_iff_lt_or_eq
    · exact List.mem_cons_self
    · intro r hr
      cases r with
      | slot j =>
          exact absurd ((PagePoolState.at_setStatus rfl j s.next).mp hr) (hinv.new_notMem (.slot j))
      | freeing =>
          exact absurd (List.mem_of_mem_erase hr) (hinv.new_notMem .freeing)
      | released => rfl
    · intro r p hp
      cases r with
      | slot j => exact PagePoolState.at_setStatus rfl j p
      | freeing => simp [PagePoolState.at, hinv.calls.mem_erase_iff]
      | released => simp [PagePoolState.at, hp]

theorem isOut_update (pageList : ℕ → HugePage) (page : HugePage) (b : PageBlock) :
    IsOut (Function.update pageList i page) b ↔
      if b.memId / HDCDRV_PAGE_BLOCK_NUM = i then
        page.pageAddr = some b.page ∧ b.block = b.memId % HDCDRV_PAGE_BLOCK_NUM ∧
          page.usedBlock b.block = true
      else IsOut pageList b := by
  constructor
  · rintro ⟨hpage, hblock, hused⟩
    split_ifs with heq
    · rw [heq, Function.update_self] at hpage hused
      exact ⟨hpage, hblock, hused⟩
    · rw [Function.update_of_ne heq] at hpage hused
      exact ⟨hpage, hblock, hused⟩
  · intro h
    split_ifs at h with heq
    · obtain ⟨hpage, hblock, hused⟩ := h
      constructor
      · rwa [heq, Function.update_self]
      · exact hblock
      · rwa [heq, Function.update_self]
    · constructor
      · rw [Function.update_of_ne heq]
        exact h.page
      · exact h.block
      · rw [Function.update_of_ne heq]
        exact h.used

/-- The slot is filled with the page that was obtained. -/
theorem PagePoolInv.mapped (hinv : PagePoolInv crc32 s) (hcall : .allocHugePage i ∈ s.calls)
    (hvalid : s.pool.valid = true) {heads : ℕ → MemBlockHead}
    (hheads : ∀ b, hdcdrvMemBlockHeadCheck crc32 (heads b) = true ∧ (heads b).refCount = 0) :
    PagePoolInv crc32
      { s with
        pool := { s.pool.setPage i (pageHeadInit (some s.next) .hasAlloc) with
          heads := Function.update s.pool.heads s.next heads }
        next := s.next + 1
        calls := s.calls.erase (.allocHugePage i) } := by
  have hpre := (hinv.fill i).mp hcall
  have hi := hinv.index_lt (i := i) (by simp [hpre])
  have hne : (s.pool.pageList i).valid ≠ .hasAlloc := by simp [hpre]
  have hidle := (hinv.slot i).idle hne
  refine
    { slot := ?_, bound := ?_, all := ?_, place := ?_, calls := hinv.calls.erase _,
      released := hinv.released, fill := ?_, out := ?_, nodup := hinv.nodup, touched := ?_,
      down := ?_ }
  · intro j
    rcases eq_or_ne j i with rfl | hj
    · simp only [HugePagePool.setPage, Function.update_self]
      apply slotOk_new
      · simpa only [Function.update_self] using hheads
      · exact fun htouched => Nat.lt_irrefl _ (hinv.touched _ htouched)
    · simp only [HugePagePool.setPage, Function.update_of_ne hj]
      apply (hinv.slot j).congr
      intro p hp
      refine ⟨Function.update_of_ne ?_ _ _, id⟩
      rintro rfl
      exact hinv.new_notMem (.slot j) hp
  · intro j hj
    have hji : j ≠ i := by omega
    simp only [HugePagePool.setPage, Function.update_of_ne hji]
    exact hinv.bound j hj
  · simp only [HugePagePool.setPage]
    rw [sum_usedBlockNum _ hi, (hinv.slot i).usedBlockNum_idle hne, ← hinv.all]
    simp [pageHeadInit]
  · apply hinv.place.insert (a := s.next) (q := .slot i)
    · exact fun b => Nat.lt_succ_iff_lt_or_eq
    · simp [PagePoolState.at, HugePagePool.setPage, pageHeadInit]
    · intro r hr
      cases r with
      | slot j =>
          by_contra hj
          rw [PagePlace.slot.injEq] at hj
          simp only [PagePoolState.at, HugePagePool.setPage, Function.update_of_ne hj] at hr
          exact hinv.new_notMem (.slot j) hr
      | freeing => exact absurd (List.mem_of_mem_erase hr) (hinv.new_notMem .freeing)
      | released => exact absurd hr (hinv.new_notMem .released)
    · intro r p hp
      cases r with
      | slot j =>
          rcases eq_or_ne j i with rfl | hj
          · simp [PagePoolState.at, HugePagePool.setPage, pageHeadInit, hidle.1, Ne.symm hp]
          · simp only [PagePoolState.at, HugePagePool.setPage, Function.update_of_ne hj]
      | freeing => simp [PagePoolState.at, hinv.calls.mem_erase_iff]
      | released => rfl
  · intro j
    simp only [HugePagePool.setPage]
    rw [hinv.calls.mem_erase_iff, Ne, PageCall.allocHugePage.injEq, hinv.fill]
    rcases eq_or_ne j i with rfl | hj
    · simp [pageHeadInit]
    · simp [hj]
  · intro b
    simp only [HugePagePool.setPage]
    rw [hinv.out, isOut_update]
    split_ifs with heq
    · refine iff_of_false (fun h => ?_) (by simp [pageHeadInit])
      have hpage := h.page
      rw [heq, hidle.1] at hpage
      cases hpage
    · rfl
  · exact fun p hp => Nat.lt_succ_of_lt (hinv.touched p hp)
  · intro hdown
    have hdown' : s.pool.valid = false := hdown
    simp [hvalid] at hdown'

/-- A slot with a page `p` is written and keeps it; the other pages have their heads. -/
theorem PagePoolInv.place_keep (hinv : PagePoolInv crc32 s) {page : HugePage} {p : ℕ}
    (hp : (s.pool.pageList i).pageAddr = some p) (hpage : page.pageAddr = some p)
    (hlist : t.pool.pageList = Function.update s.pool.pageList i page)
    (hnext : t.next = s.next) (hcalls : t.calls = s.calls) (hreleased : t.released = s.released) :
    Placement (· < t.next) t.at := by
  rw [hnext]
  apply hinv.place.congr
  intro r q
  cases r with
  | slot j =>
      simp only [PagePoolState.at, hlist]
      rcases eq_or_ne j i with rfl | hj
      · rw [Function.update_self, hpage, hp]
      · rw [Function.update_of_ne hj]
  | freeing => simp [PagePoolState.at, hcalls]
  | released => simp [PagePoolState.at, hreleased]

theorem PagePoolInv.page_ne (hinv : PagePoolInv crc32 s) {p q j : ℕ}
    (hp : (s.pool.pageList i).pageAddr = some p) (hq : (s.pool.pageList j).pageAddr = some q)
    (hj : j ≠ i) : q ≠ p := by
  rintro rfl
  have heq : PagePlace.slot j = .slot i := hinv.place.unique hq hp
  exact hj (PagePlace.slot.inj heq)

theorem memId_div_mod {b : ℕ} (hb : b < HDCDRV_PAGE_BLOCK_NUM) :
    hdccomGetMemId i b / HDCDRV_PAGE_BLOCK_NUM = i ∧
      hdccomGetMemId i b % HDCDRV_PAGE_BLOCK_NUM = b := by
  simp only [hdccomGetMemId, HDCDRV_PAGE_BLOCK_NUM] at *
  omega

/-- A block is handed out. -/
theorem PagePoolInv.allocBlock (hinv : PagePoolInv crc32 s) (hvalid : s.pool.valid = true)
    {p b : ℕ} (hi : i < HDCDRV_HUGE_PAGE_NUM) (hp : (s.pool.pageList i).pageAddr = some p)
    (hb : b < HDCDRV_PAGE_BLOCK_NUM) (hidle : (s.pool.pageList i).usedBlock b = false) :
    PagePoolInv crc32
      { s with
        pool := (s.pool.blockAlloc i b).setHead p b
          { s.pool.heads p b with
            refCount := (s.pool.heads p b).refCount + 1, occupied := false }
        out := ⟨p, b, hdccomGetMemId i b⟩ :: s.out
        touched := p :: s.touched } := by
  obtain ⟨hdiv, hmod⟩ := memId_div_mod (i := i) hb
  have hout (c : PageBlock) : IsOut (Function.update s.pool.pageList i
      { s.pool.pageList i with
        usedBlockNum := (s.pool.pageList i).usedBlockNum + 1
        usedBlock := Function.update (s.pool.pageList i).usedBlock b true }) c ↔
      c = ⟨p, b, hdccomGetMemId i b⟩ ∨ IsOut s.pool.pageList c := by
    rw [isOut_update]
    split_ifs with heq
    · simp only
      constructor
      · rintro ⟨hpage, hblock, hused⟩
        rcases eq_or_ne c.block b with hcb | hcb
        · left
          obtain ⟨page, block, memId⟩ := c
          obtain rfl : p = page := Option.some.inj (hp.symm.trans hpage)
          obtain rfl : block = b := hcb
          simp only at heq hblock
          rw [PageBlock.mk.injEq]
          refine ⟨rfl, rfl, ?_⟩
          rw [hdccomGetMemId, ← heq, hblock, Nat.mul_comm]
          exact (Nat.div_add_mod memId HDCDRV_PAGE_BLOCK_NUM).symm
        · rw [Function.update_of_ne hcb] at hused
          exact .inr ⟨by rw [heq]; exact hpage, hblock, by rw [heq]; exact hused⟩
      · rintro (rfl | h)
        · exact ⟨hp, hmod.symm, Function.update_self _ _ _⟩
        · have hused := h.used
          rw [heq] at hused
          refine ⟨heq ▸ h.page, h.block, ?_⟩
          rcases eq_or_ne c.block b with hcb | hcb
          · rw [hcb, Function.update_self]
          · rwa [Function.update_of_ne hcb]
    · constructor
      · exact .inr
      · rintro (rfl | h)
        · exact absurd hdiv heq
        · exact h
  refine
    { slot := ?_, bound := ?_, all := ?_, place := ?_, calls := hinv.calls,
      released := hinv.released, fill := ?_, out := ?_, nodup := ?_, touched := ?_, down := ?_ }
  · intro j
    simp only [HugePagePool.setHead, HugePagePool.blockAlloc, HugePagePool.setPage]
    rcases eq_or_ne j i with rfl | hj
    · rw [Function.update_self]
      exact (hinv.slot j).alloc hp hb hidle
    · rw [Function.update_of_ne hj]
      apply (hinv.slot j).congr
      intro q hq
      have hqp := hinv.page_ne hp hq hj
      exact ⟨Function.update_of_ne hqp _ _, fun h => (List.mem_cons.mp h).resolve_left hqp⟩
  · intro j hj
    have hji : j ≠ i := by omega
    simp only [HugePagePool.setHead, HugePagePool.blockAlloc, HugePagePool.setPage,
      Function.update_of_ne hji]
    exact hinv.bound j hj
  · simp only [HugePagePool.setHead, HugePagePool.blockAlloc, HugePagePool.setPage]
    rw [sum_usedBlockNum _ hi, ← hinv.all]
    simp only
    omega
  · refine hinv.place_keep hp ?_ rfl rfl rfl rfl
    exact hp
  · intro j
    simp only [HugePagePool.setHead, HugePagePool.blockAlloc, HugePagePool.setPage]
    rw [hinv.fill]
    rcases eq_or_ne j i with rfl | hj
    · rw [Function.update_self]
    · rw [Function.update_of_ne hj]
  · intro c
    rw [List.mem_cons, hinv.out]
    exact (hout c).symm
  · refine List.nodup_cons.mpr ⟨fun hmem => ?_, hinv.nodup⟩
    have hused := ((hinv.out _).mp hmem).used
    simp only [hdiv, hidle] at hused
    cases hused
  · intro q hq
    rcases List.mem_cons.mp hq with rfl | hq
    · exact hinv.place.inside (.slot i) q hp
    · exact hinv.touched q hq
  · intro hdown
    have hdown' : s.pool.valid = false := hdown
    simp [hvalid] at hdown'

/-- The slot of a block that is out. -/
theorem PagePoolInv.free_facts (hinv : PagePoolInv crc32 s) {b : PageBlock} (hb : b ∈ s.out)
    (hi : b.memId / HDCDRV_PAGE_BLOCK_NUM = i) :
    i < HDCDRV_HUGE_PAGE_NUM ∧ (s.pool.pageList i).pageAddr = some b.page ∧
      b.block < HDCDRV_PAGE_BLOCK_NUM ∧ (s.pool.pageList i).usedBlock b.block = true ∧
      (s.pool.heads b.page b.block).refCount = 1 := by
  obtain ⟨hpage, hblock, hused⟩ := (hinv.out b).mp hb
  rw [hi] at hpage hused
  have hlt : b.block < HDCDRV_PAGE_BLOCK_NUM := hblock ▸ Nat.mod_lt _ (by decide)
  have hvalid := ((hinv.slot i).valid_of_pageAddr hpage).1
  have hhead := ((hinv.slot i).heads b.page hpage b.block hlt).2
  rw [hused] at hhead
  exact ⟨hinv.index_lt (by simp [hvalid]), hpage, hlt, hused, hhead⟩

theorem isOut_free {pageList : ℕ → HugePage} {b : PageBlock}
    (hi : b.memId / HDCDRV_PAGE_BLOCK_NUM = i)
    (hblock : b.block = b.memId % HDCDRV_PAGE_BLOCK_NUM) (n : ℤ) (c : PageBlock) :
    IsOut (Function.update pageList i
        { pageList i with
          usedBlockNum := n
          usedBlock := Function.update (pageList i).usedBlock b.block false }) c ↔
      IsOut pageList c ∧ c.memId ≠ b.memId := by
  rw [isOut_update]
  have hdm (m : ℕ) := Nat.div_add_mod m HDCDRV_PAGE_BLOCK_NUM
  split_ifs with heq
  · simp only
    constructor
    · rintro ⟨hpage, hc, hused⟩
      have hcb : c.block ≠ b.block := by
        intro hcb
        rw [hcb, Function.update_self] at hused
        cases hused
      rw [Function.update_of_ne hcb] at hused
      exact ⟨⟨heq ▸ hpage, hc, heq ▸ hused⟩, fun h => hcb (by rw [hc, hblock, h])⟩
    · rintro ⟨⟨hpage, hc, hused⟩, hne⟩
      rw [heq] at hpage hused
      refine ⟨hpage, hc, ?_⟩
      rw [Function.update_of_ne]
      · exact hused
      · intro hcb
        apply hne
        rw [← hdm c.memId, ← hdm b.memId, heq, hi, ← hc, ← hblock, hcb]
  · exact ⟨fun h => ⟨h, fun h' => heq (h' ▸ hi)⟩, And.left⟩

theorem PagePoolInv.erase_iff (hinv : PagePoolInv crc32 s) {b : PageBlock} (hb : b ∈ s.out)
    (c : PageBlock) : c ∈ s.out.erase b ↔ IsOut s.pool.pageList c ∧ c.memId ≠ b.memId := by
  rw [hinv.nodup.mem_erase_iff, hinv.out, and_comm]
  apply and_congr_right
  intro hc
  have hb' := (hinv.out b).mp hb
  constructor
  · intro hne hmem
    apply hne
    have hpage : c.page = b.page :=
      Option.some.inj (hc.page.symm.trans (hmem ▸ hb'.page))
    have hblock : c.block = b.block := by rw [hc.block, hb'.block, hmem]
    obtain ⟨page, block, memId⟩ := c
    simp only at hpage hblock hmem
    rw [hpage, hblock, hmem]
  · rintro hne rfl
    exact hne rfl

/-- A block comes back and its page stays in use. -/
theorem PagePoolInv.freeBlock (hinv : PagePoolInv crc32 s) {b : PageBlock} (hb : b ∈ s.out)
    (hi : b.memId / HDCDRV_PAGE_BLOCK_NUM = i)
    (hrest : (s.pool.pageList i).usedBlockNum - 1 ≠ 0) :
    PagePoolInv crc32
      { s with
        pool := (s.pool.setHead b.page b.block { s.pool.heads b.page b.block with
          refCount := (s.pool.heads b.page b.block).refCount - 1 }).blockFree i b.block
        out := s.out.erase b } := by
  obtain ⟨hlt, hp, hblock, hused, -⟩ := hinv.free_facts hb hi
  refine
    { slot := ?_, bound := ?_, all := ?_, place := ?_, calls := hinv.calls,
      released := hinv.released, fill := ?_, out := ?_, nodup := hinv.nodup.erase b,
      touched := hinv.touched, down := ?_ }
  · intro j
    simp only [HugePagePool.setHead, HugePagePool.blockFree, HugePagePool.setPage]
    rcases eq_or_ne j i with rfl | hj
    · rw [Function.update_self]
      exact (hinv.slot j).free hp hblock hused hrest
    · rw [Function.update_of_ne hj]
      apply (hinv.slot j).congr
      intro q hq
      exact ⟨Function.update_of_ne (hinv.page_ne hp hq hj) _ _, id⟩
  · intro j hj
    have hji : j ≠ i := by omega
    simp only [HugePagePool.setHead, HugePagePool.blockFree, HugePagePool.setPage,
      Function.update_of_ne hji]
    exact hinv.bound j hj
  · simp only [HugePagePool.setHead, HugePagePool.blockFree, HugePagePool.setPage]
    rw [sum_usedBlockNum _ hlt, ← hinv.all]
    simp only
    omega
  · refine hinv.place_keep hp ?_ rfl rfl rfl rfl
    exact hp
  · intro j
    simp only [HugePagePool.setHead, HugePagePool.blockFree, HugePagePool.setPage]
    rw [hinv.fill]
    rcases eq_or_ne j i with rfl | hj
    · rw [Function.update_self]
    · rw [Function.update_of_ne hj]
  · intro c
    rw [hinv.erase_iff hb]
    exact (isOut_free hi ((hinv.out b).mp hb).block _ c).symm
  · intro hdown j
    simp only [HugePagePool.setHead, HugePagePool.blockFree, HugePagePool.setPage]
    rcases eq_or_ne j i with rfl | hj
    · rw [Function.update_self]
      exact fun _ => hrest
    · rw [Function.update_of_ne hj]
      exact hinv.down hdown j

/-- The last block of a page comes back; the page leaves its slot. -/
theorem PagePoolInv.freeLast (hinv : PagePoolInv crc32 s) {b : PageBlock} (hb : b ∈ s.out)
    (hi : b.memId / HDCDRV_PAGE_BLOCK_NUM = i)
    (hlast : (s.pool.pageList i).usedBlockNum - 1 = 0) {page : HugePage}
    (hpage : page = { s.pool.pageList i with
      usedBlockNum := (s.pool.pageList i).usedBlockNum - 1
      usedBlock := Function.update (s.pool.pageList i).usedBlock b.block false
      buf := none, pageAddr := none, valid := .notAlloc })
    (hlist : t.pool.pageList = Function.update s.pool.pageList i page)
    (hheads : ∀ q, q ≠ b.page → t.pool.heads q = s.pool.heads q)
    (hall : t.pool.usedBlockAll = s.pool.usedBlockAll - 1)
    (hvalid : t.pool.valid = s.pool.valid) (hnext : t.next = s.next)
    (hcalls : t.calls = .freePage b.page :: s.calls) (hout : t.out = s.out.erase b)
    (htouched : t.touched = s.touched) (hreleased : t.released = s.released) :
    PagePoolInv crc32 t := by
  obtain ⟨hlt, hp, hblock, hused, -⟩ := hinv.free_facts hb hi
  have hat : s.at (.slot i) b.page := hp
  have hnotFreeing : .freePage b.page ∉ s.calls :=
    hinv.place.notMem_of_ne (q := PagePlace.freeing) hat (by simp)
  have hmarked := HugePage.marked_free hblock hused
  have hnum := (hinv.slot i).num
  have hnone : ∀ c < HDCDRV_PAGE_BLOCK_NUM,
      Function.update (s.pool.pageList i).usedBlock b.block false c = false := by
    intro c hc
    have hzero := List.countP_eq_zero.mp (show (List.range HDCDRV_PAGE_BLOCK_NUM).countP
      (Function.update (s.pool.pageList i).usedBlock b.block false) = 0 by omega)
    simpa using hzero c (List.mem_range.mpr hc)
  have hempty : page.valid = .notAlloc ∧ page.pageAddr = none ∧
      page.usedBlockNum = (s.pool.pageList i).usedBlockNum - 1 := by
    subst hpage
    exact ⟨rfl, rfl, rfl⟩
  refine
    { slot := ?_, bound := ?_, all := ?_, place := ?_, calls := ?_, released := ?_, fill := ?_,
      out := ?_, nodup := ?_, touched := ?_, down := ?_ }
  · intro j
    rw [hlist, htouched]
    rcases eq_or_ne j i with rfl | hj
    · rw [Function.update_self]
      constructor
      · subst hpage
        exact fun _ => ⟨rfl, rfl, hnone⟩
      · exact fun h => absurd (hempty.1.symm.trans h) (by simp)
      · subst hpage
        simp only [HugePage.marked] at hmarked hnum ⊢
        omega
      · exact fun q hq => absurd (hempty.2.1.symm.trans hq) (by simp)
      · exact fun q hq => absurd (hempty.2.1.symm.trans hq) (by simp)
    · rw [Function.update_of_ne hj]
      apply (hinv.slot j).congr
      exact fun q hq => ⟨hheads q (hinv.page_ne hp hq hj), id⟩
  · intro j hj
    rw [hlist, Function.update_of_ne (by omega)]
    exact hinv.bound j hj
  · rw [hall, hlist, sum_usedBlockNum _ hlt, ← hinv.all, hempty.2.2]
    omega
  · rw [hnext]
    apply hinv.place.move (q := .freeing) hat
    · simp [PagePoolState.at, hlist, hempty.2.1]
    · simp [PagePoolState.at, hcalls]
    · intro r q hq
      cases r with
      | slot j =>
          simp only [PagePoolState.at, hlist]
          rcases eq_or_ne j i with rfl | hj
          · rw [Function.update_self, hempty.2.1, hp]
            rcases eq_or_ne q b.page with heq | hne
            · exact absurd rfl (hq heq).1
            · simp [hne.symm]
          · rw [Function.update_of_ne hj]
      | freeing =>
          have hne : q ≠ b.page := fun heq => (hq heq).2 rfl
          simp [PagePoolState.at, hcalls, hne]
      | released => simp [PagePoolState.at, hreleased]
  · rw [hcalls]
    exact List.nodup_cons.mpr ⟨hnotFreeing, hinv.calls⟩
  · rw [hreleased]
    exact hinv.released
  · intro j
    rw [hcalls, hlist, List.mem_cons, hinv.fill]
    rcases eq_or_ne j i with rfl | hj
    · rw [Function.update_self, hempty.1, ((hinv.slot j).valid_of_pageAddr hp).1]
      simp
    · rw [Function.update_of_ne hj]
      simp
  · intro c
    rw [hout, hinv.erase_iff hb, hlist, isOut_update]
    split_ifs with heq
    · rw [hempty.2.1]
      refine iff_of_false ?_ (by simp)
      rintro ⟨hc, hne⟩
      have hfree := ((isOut_free hi ((hinv.out b).mp hb).block 0 c).mpr ⟨hc, hne⟩).used
      rw [heq, Function.update_self] at hfree
      have hclt : c.block < HDCDRV_PAGE_BLOCK_NUM := hc.block ▸ Nat.mod_lt _ (by decide)
      exact Bool.false_ne_true ((hnone c.block hclt).symm.trans hfree)
    · refine ⟨And.left, fun h => ⟨h, fun hmem => heq (hmem ▸ hi)⟩⟩
  · rw [hout]
    exact hinv.nodup.erase b
  · rw [htouched, hnext]
    exact hinv.touched
  · intro hdown j
    rw [hvalid] at hdown
    rw [hlist]
    rcases eq_or_ne j i with rfl | hj
    · rw [Function.update_self, hempty.1]
      exact fun h => absurd h (by simp)
    · rw [Function.update_of_ne hj]
      exact hinv.down hdown j

/-- A page is given back. -/
theorem PagePoolInv.freePage (hinv : PagePoolInv crc32 s) {p : ℕ} (hp : .freePage p ∈ s.calls) :
    PagePoolInv crc32 (freeMemPoolSinglePage s p) := by
  have hat : s.at .freeing p := hp
  have hnot : p ∉ s.released := hinv.place.notMem_of_ne (q := PagePlace.released) hat (by simp)
  refine
    { slot := hinv.slot, bound := hinv.bound, all := hinv.all, place := ?_,
      calls := hinv.calls.erase _, released := List.nodup_cons.mpr ⟨hnot, hinv.released⟩,
      fill := ?_, out := hinv.out, nodup := hinv.nodup, touched := hinv.touched,
      down := hinv.down }
  · apply hinv.place.move (q := .released) hat
    · exact hinv.calls.not_mem_erase
    · exact List.mem_cons_self
    · intro r q hq
      cases r with
      | slot j => rfl
      | freeing =>
          have hne : q ≠ p := fun heq => (hq heq).1 rfl
          simp [PagePoolState.at, freeMemPoolSinglePage, hinv.calls.mem_erase_iff, hne]
      | released =>
          have hne : q ≠ p := fun heq => (hq heq).2 rfl
          simp [PagePoolState.at, freeMemPoolSinglePage, hne]
  · intro j
    simp only [freeMemPoolSinglePage]
    rw [hinv.calls.mem_erase_iff, hinv.fill]
    simp

/-- When all blocks are in use, every slot has a full page. -/
theorem PagePoolInv.full (hinv : PagePoolInv crc32 s)
    (hall : s.pool.usedBlockAll = HDCDRV_PAGE_BLOCK_NUM_MAX) (hi : i < HDCDRV_HUGE_PAGE_NUM) :
    (s.pool.pageList i).valid = .hasAlloc ∧
      ¬(s.pool.pageList i).usedBlockNum < HDCDRV_PAGE_BLOCK_NUM := by
  have hle : ∀ j ∈ Finset.range HDCDRV_HUGE_PAGE_NUM,
      (s.pool.pageList j).usedBlockNum ≤ HDCDRV_PAGE_BLOCK_NUM := by
    intro j _
    rw [(hinv.slot j).num]
    exact_mod_cast HugePage.marked_le
  have hsum : ∑ j ∈ Finset.range HDCDRV_HUGE_PAGE_NUM, (s.pool.pageList j).usedBlockNum =
      ∑ _j ∈ Finset.range HDCDRV_HUGE_PAGE_NUM, (HDCDRV_PAGE_BLOCK_NUM : ℤ) := by
    rw [← hinv.all, hall]
    rfl
  have heach := (Finset.sum_eq_sum_iff_of_le hle).mp hsum i (Finset.mem_range.mpr hi)
  refine ⟨?_, by omega⟩
  by_contra hne
  rw [(hinv.slot i).usedBlockNum_idle hne] at heach
  exact absurd heach (by decide)

/-- What the section of an allocation does. -/
theorem hdccomAllocMemPage_cases (hinv : PagePoolInv crc32 s) :
    ((hdccomAllocMemPage crc32 s).2.1 = none ∧ (hdccomAllocMemPage crc32 s).2.2 = s ∧
      ((hdccomAllocMemPage crc32 s).1 = .allocAgain ∨ s.pool.valid = false ∨
        ∀ i < HDCDRV_HUGE_PAGE_NUM, (s.pool.pageList i).valid = .hasAlloc ∧
          ¬(s.pool.pageList i).usedBlockNum < HDCDRV_PAGE_BLOCK_NUM)) ∨
    (∃ i, hdccomGetPageMem s.pool = .later i ∧
      hdccomAllocMemPage crc32 s = (.allocLaterWithIndex, none,
        { s with
          pool := s.pool.setStatus i .preStatus
          calls := .allocHugePage i :: s.calls })) ∨
    ∃ i p b, s.pool.valid = true ∧ i < HDCDRV_HUGE_PAGE_NUM ∧
      (s.pool.pageList i).pageAddr = some p ∧ b < HDCDRV_PAGE_BLOCK_NUM ∧
      (s.pool.pageList i).usedBlock b = false ∧
      hdccomAllocMemPage crc32 s = (.ok, some ⟨p, b, hdccomGetMemId i b⟩,
        { s with
          pool := (s.pool.blockAlloc i b).setHead p b
            { s.pool.heads p b with
              refCount := (s.pool.heads p b).refCount + 1, occupied := false }
          out := ⟨p, b, hdccomGetMemId i b⟩ :: s.out
          touched := p :: s.touched }) := by
  by_cases hvalid : s.pool.valid = false
  · left
    rw [hdccomAllocMemPage, if_pos hvalid]
    exact ⟨rfl, rfl, .inr (.inl hvalid)⟩
  · by_cases hall : s.pool.usedBlockAll = HDCDRV_PAGE_BLOCK_NUM_MAX
    · left
      rw [hdccomAllocMemPage, if_neg hvalid, if_pos hall]
      exact ⟨rfl, rfl, .inr (.inr fun i hi => hinv.full hall hi)⟩
    · rw [hdccomAllocMemPage, if_neg hvalid, if_neg hall]
      cases hmem : hdccomGetPageMem s.pool with
      | full => exact .inl ⟨rfl, rfl, .inr (.inr fun i hi => hdccomGetPageMem_full hmem hi)⟩
      | again => exact .inl ⟨rfl, rfl, .inl rfl⟩
      | later i => exact .inr (.inl ⟨i, rfl, rfl⟩)
      | block i b =>
          obtain ⟨hi, hvalid', hb, hidle⟩ := hdccomGetPageMem_block hinv.slot hmem
          obtain ⟨p, hp, hbuf⟩ := (hinv.slot i).busy hvalid'
          obtain ⟨hcheck, href⟩ := (hinv.slot i).heads p hp b hb
          rw [hidle] at href
          refine .inr (.inr ⟨i, p, b, by simpa using hvalid, hi, hp, hb, hidle, ?_⟩)
          have hheads : (s.pool.blockAlloc i b).heads = s.pool.heads := rfl
          simp only [hbuf, Option.getD_some, hheads, hcheck, href]
          rfl

theorem pageHeads_ok (pool : HugePagePool) (page : ℕ) (addr : UInt64) (b : ℕ) :
    hdcdrvMemBlockHeadCheck crc32 (pageHeads crc32 pool page addr b) = true ∧
      (pageHeads crc32 pool page addr b).refCount = 0 :=
  ⟨hdcdrvMemBlockHeadCheck_init _ _ _ _ _, rfl⟩

/-- A call that fills its slot fails, with or without a page, or succeeds. -/
theorem PagePoolInv.fillSlot (hinv : PagePoolInv crc32 s) (hcall : .allocHugePage i ∈ s.calls)
    {outcome : HugeOutcome} (hok : noIdlePage s (.fill i outcome) = true) :
    PagePoolInv crc32 (fillSlot crc32 s i outcome).2 := by
  have hpre := (hinv.fill i).mp hcall
  cases outcome with
  | noDevice => simpa [Hdc.fillSlot, hdcdrvAllocHugePage] using hinv.giveUp hcall
  | noNode => simpa [Hdc.fillSlot, hdcdrvAllocHugePage, hpre] using hinv.giveUp hcall
  | noPage => simpa [Hdc.fillSlot, hdcdrvAllocHugePage, hpre] using hinv.giveUp hcall
  | mapFail => simpa [Hdc.fillSlot, hdcdrvAllocHugePage, hpre] using hinv.mapFail hcall
  | mapped addr =>
      have hvalid : s.pool.valid = true := hok
      have hnext := hinv.mapped hcall hvalid
        (pageHeads_ok (s.pool.setPage i (pageHeadInit (some s.next) .hasAlloc)) s.next addr)
      simpa [Hdc.fillSlot, hdcdrvAllocHugePage, hpre, HugePagePool.setPage] using hnext

theorem PagePoolInv.freeMemPage (hinv : PagePoolInv crc32 s) {b : PageBlock} (hb : b ∈ s.out)
    (device : Bool) : PagePoolInv crc32 (hdccomFreeMemPage s b device).2 := by
  obtain ⟨hlt, hp, hblock, hused, href⟩ := hinv.free_facts hb rfl
  have hbuf := ((hinv.slot _).valid_of_pageAddr hp).2
  have hmod := ((hinv.out b).mp hb).block
  rw [hdccomFreeMemPage]
  split_ifs with hdevice
  · exact hinv
  · simp only [href, ne_eq, not_true_eq_false, if_false]
    split_ifs with hzero hsome
    · rw [← hmod] at hzero ⊢
      have hlast : (s.pool.pageList (b.memId / HDCDRV_PAGE_BLOCK_NUM)).usedBlockNum - 1 = 0 := by
        simpa [HugePagePool.blockFree, HugePagePool.setPage, HugePagePool.setHead] using hzero
      apply hinv.freeLast hb rfl hlast rfl
      · simp [HugePagePool.blockFree, HugePagePool.setPage, HugePagePool.setHead]
      · intro q hq
        simp [HugePagePool.blockFree, HugePagePool.setPage, HugePagePool.setHead, hq]
      · rfl
      · rfl
      · rfl
      · simp [HugePagePool.blockFree, HugePagePool.setPage, HugePagePool.setHead, hp]
      · rfl
      · rfl
      · rfl
    · simp [HugePagePool.blockFree, HugePagePool.setPage, HugePagePool.setHead, hbuf] at hsome
    · rw [← hmod] at hzero ⊢
      have hrest : (s.pool.pageList (b.memId / HDCDRV_PAGE_BLOCK_NUM)).usedBlockNum - 1 ≠ 0 := by
        simpa [HugePagePool.blockFree, HugePagePool.setPage, HugePagePool.setHead] using hzero
      have hnext := hinv.freeBlock hb rfl hrest
      rwa [href] at hnext

theorem PagePoolInv.step (hinv : PagePoolInv crc32 s) (act : PageAct)
    (hok : noIdlePage s act = true) (hstep : pagePoolStep crc32 s act = some t) :
    PagePoolInv crc32 t := by
  cases act with
  | alloc =>
      obtain rfl := Option.some.inj hstep
      obtain ⟨-, hsame, -⟩ | ⟨i, hmem, heq⟩ | ⟨i, p, b, hvalid, hi, hp, hb, hidle, heq⟩ :=
        hdccomAllocMemPage_cases hinv
      · rwa [hsame]
      · rw [heq]
        exact hinv.later hmem
      · rw [heq]
        exact hinv.allocBlock hvalid hi hp hb hidle
  | fill i outcome =>
      obtain ⟨hcall, ht⟩ := Option.ite_none_right_eq_some.mp hstep
      exact Option.some.inj ht ▸ hinv.fillSlot hcall hok
  | free b device =>
      obtain ⟨hb, ht⟩ := Option.ite_none_right_eq_some.mp hstep
      exact Option.some.inj ht ▸ hinv.freeMemPage hb device
  | freePage p =>
      obtain ⟨hp, ht⟩ := Option.ite_none_right_eq_some.mp hstep
      exact Option.some.inj ht ▸ hinv.freePage hp
  | shutdown =>
      obtain rfl := Option.some.inj hstep
      refine ⟨hinv.slot, hinv.bound, hinv.all, hinv.place, hinv.calls, hinv.released, hinv.fill,
        hinv.out, hinv.nodup, hinv.touched, fun _ i hi => ?_⟩
      have hvalid : (s.pool.pageList i).valid = .hasAlloc := hi
      have hlt := hinv.index_lt (i := i) (by simp [hvalid])
      have hused := List.all_eq_true.mp hok i (List.mem_range.mpr hlt)
      simp only [decide_eq_true_eq] at hused
      exact hused hvalid
  | shutdownEnd =>
      obtain ⟨-, ht⟩ := Option.ite_none_right_eq_some.mp hstep
      exact Option.some.inj ht ▸ ⟨hinv.slot, hinv.bound, hinv.all, hinv.place, hinv.calls,
        hinv.released, hinv.fill, hinv.out, hinv.nodup, hinv.touched, hinv.down⟩

/-- A page in use has a block out. -/
theorem PagePoolInv.exists_out (hinv : PagePoolInv crc32 s) {p : ℕ}
    (hp : (s.pool.pageList i).pageAddr = some p) (hused : (s.pool.pageList i).usedBlockNum ≠ 0) :
    ∃ b ∈ s.out, b.page = p := by
  have hnum := (hinv.slot i).num
  have hpos : 0 < (s.pool.pageList i).marked := by omega
  obtain ⟨b, hb, hmark⟩ := List.countP_pos_iff.mp hpos
  obtain ⟨hdiv, hmod⟩ := memId_div_mod (i := i) (List.mem_range.mp hb)
  refine ⟨⟨p, b, hdccomGetMemId i b⟩, (hinv.out _).mpr ⟨?_, hmod.symm, ?_⟩, rfl⟩
  · rw [hdiv, hp]
  · rw [hdiv, hmark]

theorem PagePoolInv.slot_of_out (hinv : PagePoolInv crc32 s) {b : PageBlock} (hb : b ∈ s.out)
    (hp : (s.pool.pageList i).pageAddr = some b.page) : b.memId / HDCDRV_PAGE_BLOCK_NUM = i := by
  by_contra hne
  exact hinv.page_ne hp ((hinv.out b).mp hb).page hne rfl

theorem PagePoolInv.ok (hinv : PagePoolInv crc32 s) : PagePoolOk crc32 s := by
  refine
    { nodup := ?_, alloc := ?_, num := fun i => (hinv.slot i).num, all := hinv.all, answer := ?_,
      fill := ?_, place := hinv.place, once := ⟨hinv.released, hinv.calls⟩, last := ?_,
      down := ?_ }
  · refine hinv.nodup.map_on fun b hb c hc heq => ?_
    obtain ⟨hpage, hblock⟩ := Prod.mk.inj heq
    have hb' := (hinv.out b).mp hb
    have hc' := (hinv.out c).mp hc
    have hdiv := hinv.slot_of_out hb (i := c.memId / HDCDRV_PAGE_BLOCK_NUM) (hpage ▸ hc'.page)
    have hmem : b.memId = c.memId := by
      rw [← Nat.div_add_mod b.memId HDCDRV_PAGE_BLOCK_NUM,
        ← Nat.div_add_mod c.memId HDCDRV_PAGE_BLOCK_NUM, hdiv, ← hb'.block, ← hc'.block, hblock]
    obtain ⟨page, block, memId⟩ := b
    simp only at hpage hblock hmem
    rw [hpage, hblock, hmem]
  · intro b hb hmem
    obtain ⟨hnone, -, -⟩ | ⟨i, -, heq⟩ | ⟨i, p, c, -, hi, hp, hc, hidle, heq⟩ :=
      hdccomAllocMemPage_cases hinv
    · simp [hnone] at hb
    · simp [heq] at hb
    · simp only [heq, Option.some.injEq] at hb
      subst hb
      obtain ⟨d, hd, hdc⟩ := List.mem_map.mp hmem
      obtain ⟨hpage, hblock⟩ := Prod.mk.inj hdc
      have hdiv := hinv.slot_of_out hd (i := i) (hpage ▸ hp)
      have hused := ((hinv.out d).mp hd).used
      rw [hdiv, hblock, hidle] at hused
      cases hused
  · rintro hvalid ⟨i, hi, hroom⟩
    obtain ⟨-, -, hagain | hdown | hfull⟩ | ⟨j, -, heq⟩ | ⟨j, p, c, -, -, -, -, -, heq⟩ :=
      hdccomAllocMemPage_cases hinv
    · simp [hagain]
    · simp [hvalid] at hdown
    · obtain ⟨hall, hlt⟩ := hfull i hi
      rcases hroom with hne | hlt'
      · exact absurd hall hne
      · exact absurd hlt' hlt
    · simp [heq]
    · simp [heq]
  · intro i addr hcall
    have hpre := (hinv.fill i).mp hcall
    simp [Hdc.fillSlot, hdcdrvAllocHugePage, hpre]
  · intro p hp hnone
    obtain ⟨r, hr, -⟩ := hinv.place.sole p (hinv.touched p hp)
    cases r with
    | slot i =>
        by_cases hzero : (s.pool.pageList i).usedBlockNum = 0
        · exact absurd hp ((hinv.slot i).fresh p hr hzero)
        · obtain ⟨b, hb, hpage⟩ := hinv.exists_out hr hzero
          exact absurd hpage (hnone b hb)
    | freeing => exact .inl hr
    | released => exact .inr hr
  · intro hdown hout hcalls p hp
    obtain ⟨r, hr, -⟩ := hinv.place.sole p hp
    cases r with
    | slot i =>
        have hvalid := ((hinv.slot i).valid_of_pageAddr hr).1
        obtain ⟨b, hb, -⟩ := hinv.exists_out hr (hinv.down hdown i hvalid)
        simp [hout] at hb
    | freeing => exact absurd (show PageCall.freePage p ∈ s.calls from hr) (by simp [hcalls])
    | released => exact hr

theorem pagePoolInv_init {pool : HugePagePool} (hvalid : pool.valid = true)
    (hall : pool.usedBlockAll = 0) (hlist : ∀ i, pool.pageList i = pageHeadInit none .notAlloc) :
    PagePoolInv crc32 ⟨pool, 0, [], [], [], []⟩ := by
  refine
    { slot := ?_, bound := ?_, all := ?_, place := ⟨?_, ?_⟩, calls := List.nodup_nil,
      released := List.nodup_nil, fill := ?_, out := ?_, nodup := List.nodup_nil, touched := ?_,
      down := ?_ }
  · intro i
    rw [hlist]
    exact slotOk_empty (by simp)
  · intro i _
    rw [hlist]
    rfl
  · simp [hall, hlist, pageHeadInit]
  · intro r p hr
    cases r <;> simp [PagePoolState.at, hlist, pageHeadInit] at hr
  · exact fun p hp => absurd hp (Nat.not_lt_zero p)
  · intro i
    simp [hlist, pageHeadInit]
  · intro b
    refine iff_of_false List.not_mem_nil fun h => ?_
    have hpage := h.page
    simp [hlist, pageHeadInit] at hpage
  · exact fun p hp => absurd hp List.not_mem_nil
  · intro hdown
    have hdown' : pool.valid = false := hdown
    simp [hvalid] at hdown'

/-- Where the shutdown finds every page in use and none is obtained after it, the pool
keeps its promises. -/
theorem pagePool_ok
    (hs : (pagePoolMachine crc32).ReachIf (fun s act => noIdlePage s act = true) s) :
    PagePoolOk crc32 s := by
  have hinv : PagePoolInv crc32 s := by
    apply hs.invariant
    · rintro ⟨pool, next, calls, out, touched, released⟩ ⟨hvalid, hall, hlist, h⟩
      obtain ⟨rfl, rfl, rfl, rfl, rfl⟩ := h
      exact pagePoolInv_init hvalid hall hlist
    · exact fun s act t hinv hok hstep => hinv.step act hok hstep
  exact hinv.ok

/-! ## One call and a shutdown -/

def emptyPagePool : PagePoolState where
  pool :=
    { valid := true
      devId := 0
      type := 0
      usedBlockAll := 0
      pageList := fun _ => pageHeadInit none .notAlloc
      heads := fun _ _ => default }
  next := 0
  calls := []
  out := []
  touched := []
  released := []

theorem init_emptyPagePool : (pagePoolMachine fun _ => 0).init emptyPagePool :=
  ⟨rfl, rfl, fun _ => rfl, rfl, rfl, rfl, rfl, rfl⟩

theorem pagePool_ok_one :
    PagePoolOk (fun _ => 0) ((pagePoolMachine fun _ => 0).final emptyPagePool
      [.alloc, .fill 0 (.mapped 0), .alloc, .shutdown, .free ⟨0, 0, 0⟩ true, .freePage 0]) := by
  have hs : (pagePoolMachine fun _ => 0).ReachIf (fun s act => noIdlePage s act = true)
      ((pagePoolMachine fun _ => 0).final emptyPagePool
        [.alloc, .fill 0 (.mapped 0), .alloc, .shutdown, .free ⟨0, 0, 0⟩ true, .freePage 0]) :=
    .final (.start init_emptyPagePool) (by decide +kernel) (by decide +kernel)
  exact pagePool_ok hs

/-- The pool is shut down while the call fills its slot; the page stays in it. -/
theorem pagePool_leaks :
    ∃ s, (pagePoolMachine fun _ => 0).Reach s ∧ s.pool.valid = false ∧ s.out = [] ∧
      s.calls = [] ∧ s.next = 1 ∧ s.released = [] := by
  refine ⟨(pagePoolMachine fun _ => 0).final emptyPagePool
    [.alloc, .shutdown, .fill 0 (.mapped 0), .shutdownEnd], ?_, ?_, ?_, ?_, ?_, ?_⟩
  · exact .final (.start init_emptyPagePool) (by decide +kernel)
  all_goals decide +kernel

end OpiaiKernel.Hdc
