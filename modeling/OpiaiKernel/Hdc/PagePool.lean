import OpiaiKernel.Hdc.MemPool
import OpiaiKernel.Lib.KeyCount
import Mathlib.Algebra.Ring.Int.Defs

/-!
# The pool of huge pages

A pool of 16 slots for huge pages of four blocks each.  A slot is reserved under the lock
of the pool, filled outside it, and becomes usable with that; the page is given back when
its last block is freed.

The functions are translated from `hdcdrv_mem_com.c`.  A section under the lock and the
filling of a slot are one step each; what a call has still to do stands in a list.  Pages
are numbered in the order in which they are obtained.
-/

namespace OpiaiKernel.Hdc

abbrev HDCDRV_PAGE_BLOCK_NUM : ℕ := 4

abbrev HDCDRV_HUGE_PAGE_NUM : ℕ := 16

abbrev HDCDRV_PAGE_BLOCK_NUM_MAX : ℤ := 64

abbrev HDCDRV_HUGE_PACKET_SEGMENT : UInt32 := 0x80000

inductive PageStatus
  | notAlloc
  | preStatus
  | hasAlloc
  deriving DecidableEq, Repr

/-- The codes of the functions of the page pool. -/
inductive PageRet
  | ok
  | allocLaterWithIndex
  | allocAgain
  | err
  | paraErr
  | getNumaIdFailed
  | memAllocFail
  | dmaMapFail
  | dmaMemAllocFail
  | memNotMatch
  deriving DecidableEq, Repr

/-- `struct hdcdrv_huge_page`; a page and its buffer have the same number. -/
structure HugePage where
  pageAddr : Option ℕ
  usedBlockNum : ℤ
  usedBlock : ℕ → Bool
  buf : Option ℕ
  valid : PageStatus

structure HugePagePool where
  valid : Bool
  devId : UInt32
  type : UInt32
  usedBlockAll : ℤ
  pageList : ℕ → HugePage
  heads : ℕ → ℕ → MemBlockHead

/-- A block of a page with the identifier given out for it. -/
structure PageBlock where
  page : ℕ
  block : ℕ
  memId : ℕ
  deriving DecidableEq, Repr

/-- What a call has to do outside the lock. -/
inductive PageCall
  | allocHugePage (index : ℕ)
  | freePage (page : ℕ)
  deriving DecidableEq, Repr

/-- What happens in `hdcdrv_alloc_huge_page`. -/
inductive HugeOutcome
  | noDevice
  | noNode
  | noPage
  | mapFail
  | mapped (addr : UInt64)
  deriving DecidableEq, Repr

/-- The pool with the calls under way, the blocks handed out, the pages that ever had one
handed out, and the pages given back. -/
structure PagePoolState where
  pool : HugePagePool
  next : ℕ
  calls : List PageCall
  out : List PageBlock
  touched : List ℕ
  released : List ℕ

def pageHeadInit (page : Option ℕ) (valid : PageStatus) : HugePage where
  pageAddr := page
  usedBlockNum := 0
  usedBlock _ := false
  buf := page
  valid := valid

def hdccomGetMemId (index block : ℕ) : ℕ := index * HDCDRV_PAGE_BLOCK_NUM + block

namespace HugePagePool

def setPage (pool : HugePagePool) (index : ℕ) (page : HugePage) : HugePagePool :=
  { pool with pageList := Function.update pool.pageList index page }

def setStatus (pool : HugePagePool) (index : ℕ) (valid : PageStatus) : HugePagePool :=
  pool.setPage index { pool.pageList index with valid := valid }

def setHead (pool : HugePagePool) (page block : ℕ) (head : MemBlockHead) : HugePagePool :=
  { pool with
    heads := Function.update pool.heads page (Function.update (pool.heads page) block head) }

/-- `hdccom_page_status_change` with `HDCDRV_PAGE_BLOCK_ALLOC`. -/
def blockAlloc (pool : HugePagePool) (index block : ℕ) : HugePagePool :=
  let page := pool.pageList index
  { pool.setPage index { page with
      usedBlockNum := page.usedBlockNum + 1
      usedBlock := Function.update page.usedBlock block true } with
    usedBlockAll := pool.usedBlockAll + 1 }

/-- `hdccom_page_status_change` with `HDCDRV_PAGE_BLOCK_FREE`. -/
def blockFree (pool : HugePagePool) (index block : ℕ) : HugePagePool :=
  let page := pool.pageList index
  { pool.setPage index { page with
      usedBlockNum := page.usedBlockNum - 1
      usedBlock := Function.update page.usedBlock block false } with
    usedBlockAll := pool.usedBlockAll - 1 }

def freeBlockId (pool : HugePagePool) (index : ℕ) : Option ℕ :=
  (List.range HDCDRV_PAGE_BLOCK_NUM).find? fun block => !(pool.pageList index).usedBlock block

/-- The first slot with a page that satisfies `q`. -/
def findPage (pool : HugePagePool) (q : HugePage → Bool) : Option ℕ :=
  (List.range HDCDRV_HUGE_PAGE_NUM).find? fun index => q (pool.pageList index)

end HugePagePool

def HugePage.hasFree (page : HugePage) : Bool :=
  page.valid = .hasAlloc ∧ page.usedBlockNum < HDCDRV_PAGE_BLOCK_NUM

/-- What `hdccom_get_page_mem` finds. -/
inductive PageMem
  | block (index block : ℕ)
  | again
  | later (index : ℕ)
  | full
  deriving DecidableEq, Repr

def hdccomGetPageMem (pool : HugePagePool) : PageMem :=
  match pool.findPage HugePage.hasFree with
  | some index => .block index ((pool.freeBlockId index).getD 0)
  | none =>
      if (pool.findPage fun page => page.valid = .preStatus).isSome then .again
      else
        match pool.findPage fun page => page.valid = .notAlloc with
        | some index => .later index
        | none => .full

variable (crc32 : BlockInfo → UInt32)

/-- The section of `hdccom_alloc_mem_page`. -/
def hdccomAllocMemPage (s : PagePoolState) : PageRet × Option PageBlock × PagePoolState :=
  if s.pool.valid = false then (.err, none, s)
  else if s.pool.usedBlockAll = HDCDRV_PAGE_BLOCK_NUM_MAX then (.dmaMemAllocFail, none, s)
  else
    match hdccomGetPageMem s.pool with
    | .full => (.dmaMemAllocFail, none, s)
    | .again => (.allocAgain, none, s)
    | .later index =>
        (.allocLaterWithIndex, none,
          { s with
            pool := s.pool.setStatus index .preStatus
            calls := .allocHugePage index :: s.calls })
    | .block index block =>
        let page := (s.pool.pageList index).buf.getD 0
        let memId := hdccomGetMemId index block
        let pool := s.pool.blockAlloc index block
        let head := pool.heads page block
        if hdcdrvMemBlockHeadCheck crc32 head = false ∨ head.refCount ≠ 0 then
          (.memNotMatch, none, { s with pool := pool.blockFree index block })
        else
          let head := { head with refCount := head.refCount + 1, occupied := false }
          (.ok, some ⟨page, block, memId⟩,
            { s with
              pool := pool.setHead page block head
              out := ⟨page, block, memId⟩ :: s.out
              touched := page :: s.touched })

/-- The heads of a new page. -/
def pageHeads (pool : HugePagePool) (page : ℕ) (addr : UInt64) (block : ℕ) : MemBlockHead :=
  hdcdrvMemBlockHeadInit crc32 (pool.heads page block)
    (addr + HDCDRV_HUGE_PACKET_SEGMENT.toUInt64 * UInt64.ofNat block) pool.type pool.devId
    HDCDRV_HUGE_PACKET_SEGMENT

def hdcdrvAllocHugePage (s : PagePoolState) (index : ℕ) (outcome : HugeOutcome) :
    PageRet × PagePoolState :=
  let failed := { s with pool := s.pool.setStatus index .notAlloc }
  if outcome = .noDevice then (.err, failed)
  else if (s.pool.pageList index).valid ≠ .preStatus then (.paraErr, failed)
  else
    match outcome with
    | .noDevice => (.err, failed)
    | .noNode => (.getNumaIdFailed, failed)
    | .noPage => (.memAllocFail, failed)
    | .mapFail =>
        (.dmaMapFail, { failed with next := s.next + 1, released := s.next :: s.released })
    | .mapped addr =>
        let pool := s.pool.setPage index (pageHeadInit (some s.next) .hasAlloc)
        (.allocLaterWithIndex,
          { s with
            pool := { pool with
              heads := Function.update pool.heads s.next (pageHeads crc32 pool s.next addr) }
            next := s.next + 1 })

/-- The call fills its slot; then it gives the page back if the pool has become invalid and
the code is `HDCDRV_ALLOC_AGAIN`. -/
def fillSlot (s : PagePoolState) (index : ℕ) (outcome : HugeOutcome) : PageRet × PagePoolState :=
  let (ret, s) := hdcdrvAllocHugePage crc32 s index outcome
  let s := { s with calls := s.calls.erase (.allocHugePage index) }
  if s.pool.valid = false ∧ ret = .allocAgain then
    match (s.pool.pageList index).pageAddr with
    | some page =>
        (.err,
          { s with
            pool := s.pool.setPage index (pageHeadInit none .notAlloc)
            released := page :: s.released })
    | none => (.err, { s with pool := s.pool.setPage index (pageHeadInit none .notAlloc) })
  else (ret, s)

/-- The section of `hdccom_free_mem_page`. -/
def hdccomFreeMemPage (s : PagePoolState) (b : PageBlock) (device : Bool) :
    PageRet × PagePoolState :=
  if device = false then (.err, s)
  else
    let head := s.pool.heads b.page b.block
    if head.refCount ≠ 1 then (.memNotMatch, s)
    else
      let index := b.memId / HDCDRV_PAGE_BLOCK_NUM
      let block := b.memId % HDCDRV_PAGE_BLOCK_NUM
      let pool := s.pool.setHead b.page b.block { head with refCount := head.refCount - 1 }
      let pool := pool.blockFree index block
      let page := pool.pageList index
      if page.usedBlockNum = 0 then
        let pool := pool.setPage index { page with
          buf := none, pageAddr := none, valid := .notAlloc }
        let freed := if page.buf.isSome then page.pageAddr.toList.map PageCall.freePage else []
        (.ok, { s with pool := pool, out := s.out.erase b, calls := freed ++ s.calls })
      else (.ok, { s with pool := pool, out := s.out.erase b })

/-- `free_mem_pool_single_page`. -/
def freeMemPoolSinglePage (s : PagePoolState) (page : ℕ) : PagePoolState :=
  { s with calls := s.calls.erase (.freePage page), released := page :: s.released }

inductive PageAct
  | alloc
  | fill (index : ℕ) (outcome : HugeOutcome)
  | free (b : PageBlock) (device : Bool)
  | freePage (page : ℕ)
  | shutdown
  | shutdownEnd
  deriving DecidableEq, Repr

/-- The blocks that are freed are handed out; `hdccom_free_page_pool` makes the pool invalid
and, after it has waited, resets the device. -/
def pagePoolStep (s : PagePoolState) : PageAct → Option PagePoolState
  | .alloc => some (hdccomAllocMemPage crc32 s).2.2
  | .fill index outcome =>
      if .allocHugePage index ∈ s.calls then some (fillSlot crc32 s index outcome).2 else none
  | .free b device => if b ∈ s.out then some (hdccomFreeMemPage s b device).2 else none
  | .freePage page =>
      if .freePage page ∈ s.calls then some (freeMemPoolSinglePage s page) else none
  | .shutdown => some { s with pool := { s.pool with valid := false } }
  | .shutdownEnd =>
      if s.pool.valid = false then some { s with pool := { s.pool with devId := 0 } } else none

/-- A pool after `hdccom_init_page_pool`. -/
def pagePoolMachine : Machine PagePoolState PageAct where
  init s := s.pool.valid = true ∧ s.pool.usedBlockAll = 0 ∧
    (∀ index, s.pool.pageList index = pageHeadInit none .notAlloc) ∧
    s.next = 0 ∧ s.calls = [] ∧ s.out = [] ∧ s.touched = [] ∧ s.released = []
  step := pagePoolStep crc32

/-! ## A slot -/

variable {crc32 : BlockInfo → UInt32}

/-- The number of marked blocks. -/
def HugePage.marked (page : HugePage) : ℕ :=
  (List.range HDCDRV_PAGE_BLOCK_NUM).countP page.usedBlock

/-- A slot with the heads of its page. -/
structure SlotOk (crc32 : BlockInfo → UInt32) (page : HugePage) (heads : ℕ → ℕ → MemBlockHead)
    (touched : List ℕ) : Prop where
  idle : page.valid ≠ .hasAlloc →
    page.pageAddr = none ∧ page.buf = none ∧
      ∀ b < HDCDRV_PAGE_BLOCK_NUM, page.usedBlock b = false
  busy : page.valid = .hasAlloc → ∃ p, page.pageAddr = some p ∧ page.buf = some p
  num : page.usedBlockNum = page.marked
  heads : ∀ p, page.pageAddr = some p → ∀ b < HDCDRV_PAGE_BLOCK_NUM,
    hdcdrvMemBlockHeadCheck crc32 (heads p b) = true ∧
      (heads p b).refCount = if page.usedBlock b then 1 else 0
  fresh : ∀ p, page.pageAddr = some p → page.usedBlockNum = 0 → p ∉ touched

section Slot

variable {page : HugePage} {heads heads' : ℕ → ℕ → MemBlockHead} {touched touched' : List ℕ}
  {p b : ℕ}

theorem SlotOk.congr (h : SlotOk crc32 page heads touched)
    (hsame : ∀ p, page.pageAddr = some p → heads' p = heads p ∧ (p ∈ touched' → p ∈ touched)) :
    SlotOk crc32 page heads' touched' where
  idle := h.idle
  busy := h.busy
  num := h.num
  heads p hp := by
    rw [(hsame p hp).1]
    exact h.heads p hp
  fresh p hp hzero htouched := h.fresh p hp hzero ((hsame p hp).2 htouched)

theorem SlotOk.valid_of_pageAddr (h : SlotOk crc32 page heads touched)
    (hp : page.pageAddr = some p) : page.valid = .hasAlloc ∧ page.buf = some p := by
  have hvalid : page.valid = .hasAlloc := by
    by_contra hne
    simp [(h.idle hne).1] at hp
  obtain ⟨q, hq, hbuf⟩ := h.busy hvalid
  exact ⟨hvalid, hbuf.trans (hq.symm.trans hp)⟩

theorem HugePage.marked_alloc (hb : b < HDCDRV_PAGE_BLOCK_NUM) (hidle : page.usedBlock b = false) :
    (List.range HDCDRV_PAGE_BLOCK_NUM).countP (Function.update page.usedBlock b true) =
      page.marked + 1 :=
  KeyCount.gain List.nodup_range (List.mem_range.mpr hb) hidle (Function.update_self _ _ _)
    fun _ _ hne => Function.update_of_ne hne _ _

theorem HugePage.marked_free (hb : b < HDCDRV_PAGE_BLOCK_NUM) (hused : page.usedBlock b = true) :
    page.marked =
      (List.range HDCDRV_PAGE_BLOCK_NUM).countP (Function.update page.usedBlock b false) + 1 :=
  KeyCount.lose List.nodup_range (List.mem_range.mpr hb) hused (Function.update_self _ _ _)
    fun _ _ hne => Function.update_of_ne hne _ _

theorem HugePage.marked_le : page.marked ≤ HDCDRV_PAGE_BLOCK_NUM := by
  have hle := List.countP_le_length (p := page.usedBlock) (l := List.range HDCDRV_PAGE_BLOCK_NUM)
  rwa [List.length_range] at hle

theorem SlotOk.alloc (h : SlotOk crc32 page heads touched) (hp : page.pageAddr = some p)
    (hb : b < HDCDRV_PAGE_BLOCK_NUM) (hidle : page.usedBlock b = false) :
    SlotOk crc32
      { page with
        usedBlockNum := page.usedBlockNum + 1
        usedBlock := Function.update page.usedBlock b true }
      (Function.update heads p (Function.update (heads p) b
        { heads p b with refCount := (heads p b).refCount + 1, occupied := false }))
      (p :: touched) where
  idle hne := absurd (h.valid_of_pageAddr hp).1 hne
  busy := h.busy
  num := by
    rw [HugePage.marked, HugePage.marked_alloc hb hidle, h.num]
    rfl
  heads q hq c hc := by
    obtain rfl : p = q := Option.some.inj (hp.symm.trans hq)
    rw [Function.update_self]
    rcases eq_or_ne c b with rfl | hne
    · have hhead := h.heads p hp c hc
      rw [hidle] at hhead
      simp only [Function.update_self]
      exact ⟨hhead.1, by simp [hhead.2]⟩
    · simp only [Function.update_of_ne hne]
      exact h.heads p hp c hc
  fresh q hq hzero := by
    have hnum := h.num
    simp only at hzero
    omega

theorem SlotOk.free (h : SlotOk crc32 page heads touched) (hp : page.pageAddr = some p)
    (hb : b < HDCDRV_PAGE_BLOCK_NUM) (hused : page.usedBlock b = true)
    (hrest : page.usedBlockNum - 1 ≠ 0) :
    SlotOk crc32
      { page with
        usedBlockNum := page.usedBlockNum - 1
        usedBlock := Function.update page.usedBlock b false }
      (Function.update heads p (Function.update (heads p) b
        { heads p b with refCount := (heads p b).refCount - 1 }))
      touched where
  idle hne := absurd (h.valid_of_pageAddr hp).1 hne
  busy := h.busy
  num := by
    have hmarked := HugePage.marked_free hb hused
    have hnum := h.num
    simp only [HugePage.marked] at hmarked hnum ⊢
    omega
  heads q hq c hc := by
    obtain rfl : p = q := Option.some.inj (hp.symm.trans hq)
    rw [Function.update_self]
    rcases eq_or_ne c b with rfl | hne
    · have hhead := h.heads p hp c hc
      rw [hused] at hhead
      simp only [Function.update_self]
      exact ⟨hhead.1, by simp [hhead.2]⟩
    · simp only [Function.update_of_ne hne]
      exact h.heads p hp c hc
  fresh q hq hzero := absurd hzero hrest

theorem SlotOk.usedBlockNum_idle (h : SlotOk crc32 page heads touched)
    (hne : page.valid ≠ .hasAlloc) : page.usedBlockNum = 0 := by
  have hzero : page.marked = 0 := List.countP_eq_zero.mpr fun b hb => by
    simp [(h.idle hne).2.2 b (List.mem_range.mp hb)]
  rw [h.num, hzero]
  rfl

/-- A new page has no block in use. -/
theorem slotOk_new (hheads : ∀ b, hdcdrvMemBlockHeadCheck crc32 (heads p b) = true ∧
    (heads p b).refCount = 0) (hnew : p ∉ touched) :
    SlotOk crc32 (pageHeadInit (some p) .hasAlloc) heads touched where
  idle hne := absurd rfl hne
  busy _ := ⟨p, rfl, rfl⟩
  num := rfl
  heads q hq b _ := by
    obtain rfl : p = q := Option.some.inj hq
    exact hheads b
  fresh q hq _ := by
    obtain rfl : p = q := Option.some.inj hq
    exact hnew

theorem slotOk_empty {valid : PageStatus} (hne : valid ≠ .hasAlloc) :
    SlotOk crc32 (pageHeadInit none valid) heads touched where
  idle _ := ⟨rfl, rfl, fun _ _ => rfl⟩
  busy hvalid := absurd hvalid hne
  num := rfl
  heads p hp := absurd hp (by simp [pageHeadInit])
  fresh p hp := absurd hp (by simp [pageHeadInit])

end Slot

/-! ## The search for a block -/

section Search

variable {pool : HugePagePool} {q : HugePage → Bool} {heads : ℕ → ℕ → MemBlockHead}
  {touched : List ℕ} {i b : ℕ}

theorem HugePagePool.findPage_some (h : pool.findPage q = some i) :
    i < HDCDRV_HUGE_PAGE_NUM ∧ q (pool.pageList i) = true := by
  rw [HugePagePool.findPage] at h
  have hfound := List.find?_some h
  exact ⟨List.mem_range.mp (List.mem_of_find?_eq_some h), hfound⟩

theorem HugePagePool.findPage_none (h : pool.findPage q = none) (hi : i < HDCDRV_HUGE_PAGE_NUM) :
    q (pool.pageList i) = false := by
  have hnone := List.find?_eq_none.mp h i (List.mem_range.mpr hi)
  simpa using hnone

/-- A usable page with room has a free block. -/
theorem SlotOk.freeBlockId (h : SlotOk crc32 (pool.pageList i) heads touched)
    (hfree : (pool.pageList i).hasFree = true) :
    ∃ b < HDCDRV_PAGE_BLOCK_NUM, pool.freeBlockId i = some b ∧
      (pool.pageList i).usedBlock b = false := by
  cases hfind : pool.freeBlockId i with
  | some b =>
      have hlt := List.mem_range.mp (List.mem_of_find?_eq_some hfind)
      have hidle := List.find?_some hfind
      exact ⟨b, hlt, rfl, by simpa using hidle⟩
  | none =>
      have hall := List.find?_eq_none.mp hfind
      have hfull : (pool.pageList i).marked = (List.range HDCDRV_PAGE_BLOCK_NUM).length :=
        List.countP_eq_length.mpr fun b hb => by simpa using hall b hb
      have hnum := h.num
      have hroom : (pool.pageList i).usedBlockNum < HDCDRV_PAGE_BLOCK_NUM := by
        simp only [HugePage.hasFree, decide_eq_true_eq] at hfree
        exact hfree.2
      rw [List.length_range] at hfull
      omega

theorem hdccomGetPageMem_block (h : ∀ i, SlotOk crc32 (pool.pageList i) heads touched)
    (hmem : hdccomGetPageMem pool = .block i b) :
    i < HDCDRV_HUGE_PAGE_NUM ∧ (pool.pageList i).valid = .hasAlloc ∧ b < HDCDRV_PAGE_BLOCK_NUM ∧
      (pool.pageList i).usedBlock b = false := by
  rw [hdccomGetPageMem] at hmem
  cases hfind : pool.findPage HugePage.hasFree with
  | some j =>
      obtain ⟨hj, hfree⟩ := HugePagePool.findPage_some hfind
      obtain ⟨c, hc, hid, hidle⟩ := (h j).freeBlockId hfree
      simp only [hfind, hid, Option.getD_some, PageMem.block.injEq] at hmem
      obtain ⟨rfl, rfl⟩ := hmem
      simp only [HugePage.hasFree, decide_eq_true_eq] at hfree
      exact ⟨hj, hfree.1, hc, hidle⟩
  | none =>
      simp only [hfind] at hmem
      split_ifs at hmem
      split at hmem <;> simp at hmem

theorem hdccomGetPageMem_later (hmem : hdccomGetPageMem pool = .later i) :
    i < HDCDRV_HUGE_PAGE_NUM ∧ (pool.pageList i).valid = .notAlloc := by
  rw [hdccomGetPageMem] at hmem
  split at hmem
  · simp at hmem
  · split_ifs at hmem
    split at hmem
    · rename_i j hfind
      obtain rfl := PageMem.later.inj hmem
      simpa using HugePagePool.findPage_some hfind
    · simp at hmem

/-- Without a reserved, an empty or a partly used slot the pool is full. -/
theorem hdccomGetPageMem_full (hmem : hdccomGetPageMem pool = .full)
    (hi : i < HDCDRV_HUGE_PAGE_NUM) :
    (pool.pageList i).valid = .hasAlloc ∧
      ¬(pool.pageList i).usedBlockNum < HDCDRV_PAGE_BLOCK_NUM := by
  rw [hdccomGetPageMem] at hmem
  split at hmem
  · simp at hmem
  · rename_i hfree
    split_ifs at hmem with hpre
    split at hmem
    · simp at hmem
    · rename_i hidle
      have h1 := HugePagePool.findPage_none hfree hi
      have h2 := HugePagePool.findPage_none (Option.not_isSome_iff_eq_none.mp hpre) hi
      have h3 := HugePagePool.findPage_none hidle hi
      cases hvalid : (pool.pageList i).valid with
      | notAlloc => simp [hvalid] at h3
      | preStatus => simp [hvalid] at h2
      | hasAlloc => exact ⟨rfl, by simpa [HugePage.hasFree, hvalid] using h1⟩

end Search

end OpiaiKernel.Hdc
