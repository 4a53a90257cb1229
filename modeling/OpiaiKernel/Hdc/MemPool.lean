import OpiaiKernel.Hdc.HdcError
import OpiaiKernel.Lib.Machine
import OpiaiKernel.Lib.Ring
import Mathlib.Algebra.Ring.Nat
import Mathlib.Data.List.Nodup
import Mathlib.Data.List.Perm.Subperm

/-!
# The block pool

A pool hands out blocks of one size.  The free blocks stand in a ring between two
64-bit counters; a block is taken at the head and comes back at the tail.  A counter
is reduced to a slot by the mask of the size, or by the remainder where the mask is
zero.

The functions are translated from `hdcdrv_mem_com.c`.  A block is named by the number
of its allocation, and its head is what stands in front of its buffer.
-/

namespace OpiaiKernel.Hdc

abbrev HDCDRV_MEM_BLOCK_MAGIC : UInt32 := 0x48444342

abbrev HDCDRV_MEM_BLOCK_HEAD_SIZE : UInt32 := 64

/-- The fields of a block head in front of the check code. -/
structure BlockInfo where
  magic : UInt32
  devid : UInt32
  type : UInt32
  size : UInt32
  dmaAddr : UInt64
  deriving DecidableEq, Inhabited

/-- `struct hdcdrv_mem_block_head`. -/
structure MemBlockHead extends BlockInfo where
  headCrc : UInt32
  refCount : UInt32
  occupied : Bool
  deriving DecidableEq, Inhabited

/-- `struct hdcdrv_mem_pool`, with the heads of its blocks. -/
structure MemPool where
  valid : Bool
  devId : UInt32
  size : UInt32
  segment : UInt32
  mask : UInt32
  head : UInt64
  tail : UInt64
  ring : ℕ → Option ℕ
  heads : ℕ → MemBlockHead

/-- `struct hdccom_mem_init`, and the addresses that the allocations give. -/
structure MemInit where
  poolType : UInt32
  devId : UInt32
  segment : UInt32
  num : UInt32
  alloc : ℕ → Option UInt64

variable (crc32 : BlockInfo → UInt32)

def hdcdrvMemBlockHeadInit (blockHead : MemBlockHead) (addr : UInt64)
    (poolType devId segment : UInt32) : MemBlockHead :=
  let info : BlockInfo :=
    { magic := HDCDRV_MEM_BLOCK_MAGIC
      devid := devId
      type := poolType
      size := segment - HDCDRV_MEM_BLOCK_HEAD_SIZE
      dmaAddr := addr + HDCDRV_MEM_BLOCK_HEAD_SIZE.toUInt64 }
  { info with headCrc := crc32 info, refCount := 0, occupied := blockHead.occupied }

def hdcdrvMemBlockHeadCheck (blockHead : MemBlockHead) : Bool :=
  blockHead.magic = HDCDRV_MEM_BLOCK_MAGIC ∧ blockHead.headCrc = crc32 blockHead.toBlockInfo

def hdccomCalcRingId (ringCnt : UInt64) (mask size : UInt32) : UInt32 :=
  if size = 0 then 0
  else if mask ≠ 0 then (ringCnt &&& mask.toUInt64).toUInt32
  else (ringCnt % size.toUInt64).toUInt32

/-- One round of the loop of `hdccom_init_mem_pool`. -/
def initBlock (initMem : MemInit) (pool : MemPool) (i : ℕ) : Option MemPool :=
  (initMem.alloc i).map fun addr =>
    { pool with
      heads := Function.update pool.heads i
        (hdcdrvMemBlockHeadInit crc32 (pool.heads i) addr initMem.poolType initMem.devId
          pool.segment)
      ring := Function.update pool.ring i (some i)
      size := pool.size + 1 }

def hdccomInitMemPool (pool : MemPool) (initMem : MemInit) : Option MemPool :=
  let pool :=
    { pool with
      segment := initMem.segment
      mask := initMem.num - 1
      head := 0
      size := 0
      ring := fun _ => none }
  ((List.range initMem.num.toNat).foldlM (initBlock crc32 initMem) pool).map fun pool =>
    { pool with tail := pool.size.toUInt64, devId := initMem.devId, valid := true }

def hdccomAllocMem (pool : MemPool) : Except HdcError (ℕ × UInt64) × MemPool :=
  if pool.valid = false then (.error .err, pool)
  else if pool.head = pool.tail then (.error .dmaMemAllocFail, pool)
  else
    let ringId := (hdccomCalcRingId pool.head pool.mask pool.size).toNat
    match pool.ring ringId with
    | none => (.error .memNotMatch, pool)
    | some buf =>
        let blockHead := pool.heads buf
        if hdcdrvMemBlockHeadCheck crc32 blockHead = false then (.error .memNotMatch, pool)
        else if blockHead.refCount ≠ 0 then (.error .memNotMatch, pool)
        else
          (.ok (buf, blockHead.dmaAddr),
            { pool with
              heads := Function.update pool.heads buf
                { blockHead with refCount := blockHead.refCount + 1, occupied := false }
              ring := Function.update pool.ring ringId none
              head := pool.head + 1 })

def hdccomFreeMem (pool : MemPool) (buf : ℕ) : Except HdcError Unit × MemPool :=
  let blockHead := pool.heads buf
  if blockHead.refCount ≠ 1 then (.error .memNotMatch, pool)
  else
    let ringId := (hdccomCalcRingId pool.tail pool.mask pool.size).toNat
    (.ok (),
      { pool with
        heads := Function.update pool.heads buf
          { blockHead with refCount := blockHead.refCount - 1 }
        ring := Function.update pool.ring ringId (some buf)
        tail := pool.tail + 1 })

/-- The pool with the blocks that are handed out. -/
structure PoolState where
  pool : MemPool
  out : List ℕ

inductive PoolOp
  | alloc
  | free (buf : ℕ)

/-- A call under the lock of the pool; what is freed is a block of the pool. -/
def poolStep (s : PoolState) : PoolOp → Option PoolState
  | .alloc =>
      match hdccomAllocMem crc32 s.pool with
      | (.ok (buf, _), pool) => some ⟨pool, buf :: s.out⟩
      | (.error _, pool) => some ⟨pool, s.out⟩
  | .free buf =>
      if buf < s.pool.size.toNat then
        match hdccomFreeMem s.pool buf with
        | (.ok _, pool) => some ⟨pool, s.out.erase buf⟩
        | (.error _, pool) => some ⟨pool, s.out⟩
      else none

def poolMachine (pool : MemPool) (initMem : MemInit) : Machine PoolState PoolOp where
  init s := hdccomInitMemPool crc32 pool initMem = some s.pool ∧ s.out = []
  step := poolStep crc32

/-- The slots between head and tail. -/
def MemPool.slots (pool : MemPool) : List (Option ℕ) :=
  (List.range (pool.tail - pool.head).toNat).map fun i =>
    pool.ring (hdccomCalcRingId (pool.head + UInt64.ofNat i) pool.mask pool.size).toNat

/-! ## The reduction to a slot -/

variable {crc32 : BlockInfo → UInt32} {num mask size : UInt32} {ringCnt : UInt64}

theorem toNat_hdccomCalcRingId (hsize : size ≠ 0) :
    (hdccomCalcRingId ringCnt mask size).toNat =
      if mask ≠ 0 then ringCnt.toNat &&& mask.toNat else ringCnt.toNat % size.toNat := by
  have hpos : 0 < size.toNat := by
    rw [Nat.pos_iff_ne_zero, ← UInt32.toNat_zero]
    exact fun h => hsize (UInt32.toNat_inj.mp h)
  rw [hdccomCalcRingId, if_neg hsize]
  split_ifs with hmask
  · have hle : ringCnt.toNat &&& mask.toNat ≤ mask.toNat := Nat.and_le_right
    have hlt := mask.toNat_lt
    rw [UInt64.toNat_toUInt32, UInt64.toNat_and, UInt32.toNat_toUInt64]
    exact Nat.mod_eq_of_lt (by omega)
  · have hlt := Nat.mod_lt ringCnt.toNat hpos
    have hsize := size.toNat_lt
    rw [UInt64.toNat_toUInt32, UInt64.toNat_mod, UInt32.toNat_toUInt64]
    exact Nat.mod_eq_of_lt (by omega)

theorem toNat_num_sub_one (hnum : num ≠ 0) : (num - 1).toNat = num.toNat - 1 := by
  have hle : (1 : UInt32) ≤ num := by
    rw [UInt32.le_iff_toNat_le, UInt32.toNat_one, Nat.one_le_iff_ne_zero, ← UInt32.toNat_zero]
    exact fun h => hnum (UInt32.toNat_inj.mp h)
  rw [UInt32.toNat_sub_of_le _ _ hle, UInt32.toNat_one]

/-- For a power of two the mask gives the remainder. -/
theorem hdccomCalcRingId_two_pow {k : ℕ} (hnum : num.toNat = 2 ^ k) :
    (hdccomCalcRingId ringCnt (num - 1) num).toNat = ringCnt.toNat % num.toNat := by
  have hne : num ≠ 0 := by
    rintro rfl
    exact (Nat.two_pow_pos k).ne' hnum.symm
  rw [toNat_hdccomCalcRingId hne, toNat_num_sub_one hne, hnum]
  split_ifs
  · exact Nat.and_two_pow_sub_one_eq_mod _ _
  · rfl

/-- For another size the mask brings two slots together. -/
theorem exists_and_ne {m : ℕ} (hm : 0 < m) (hnot : ∀ k, m + 1 ≠ 2 ^ k) :
    ∃ j ≤ m, j &&& m ≠ j := by
  refine ⟨2 ^ Nat.log2 m - 1, ?_, ?_⟩
  · have hle := Nat.log2_self_le hm.ne'
    omega
  · intro heq
    have hle := Nat.log2_self_le hm.ne'
    have hlt : m < 2 ^ (Nat.log2 m + 1) := Nat.lt_log2_self
    rw [Nat.and_comm, Nat.and_two_pow_sub_one_eq_mod] at heq
    have hmod : m % 2 ^ Nat.log2 m = m - 2 ^ Nat.log2 m := by
      rw [Nat.mod_eq_sub_mod hle, Nat.mod_eq_of_lt]
      rw [pow_succ] at hlt
      omega
    apply hnot (Nat.log2 m + 1)
    rw [pow_succ]
    have hpos := Nat.two_pow_pos (Nat.log2 m)
    omega

/-! ## The run of a pool -/

/-- The pool with the free blocks in the order in which they will be handed out. -/
structure PoolInv (crc32 : BlockInfo → UInt32) (num : UInt32) (free : List ℕ) (s : PoolState) :
    Prop where
  size : s.pool.size = num
  mask : s.pool.mask = num - 1
  valid : s.pool.valid = true
  check : ∀ b < num.toNat, hdcdrvMemBlockHeadCheck crc32 (s.pool.heads b) = true
  refCount : ∀ b < num.toNat, (s.pool.heads b).refCount = if b ∈ s.out then 1 else 0
  perm : (free ++ s.out).Perm (List.range num.toNat)
  content : Ring.content s.pool.ring num.toNat s.pool.head.toNat free.length = free.map some
  tail : s.pool.tail = s.pool.head + UInt64.ofNat free.length

/-- What a pool of `num` blocks promises. -/
structure PoolOk (crc32 : BlockInfo → UInt32) (num : UInt32) (s : PoolState) : Prop where
  nodup : s.out.Nodup
  slots : ∃ free : List ℕ, s.pool.slots = free.map some ∧ free.Nodup ∧
    ∀ b, b ∈ free ↔ b < num.toNat ∧ b ∉ s.out
  alloc : ∀ buf addr pool, hdccomAllocMem crc32 s.pool = (.ok (buf, addr), pool) →
    buf ∉ s.out ∧ s.pool.slots = some buf :: pool.slots
  fail : s.out.length = num.toNat → hdccomAllocMem crc32 s.pool = (.error .dmaMemAllocFail, s.pool)
  success : s.out.length ≠ num.toNat → ∃ b pool, hdccomAllocMem crc32 s.pool = (.ok b, pool)
  free : ∀ b ∈ s.out, ∃ pool, hdccomFreeMem s.pool b = (.ok (), pool) ∧
    pool.slots = s.pool.slots ++ [some b]
  reject : ∀ b < num.toNat, b ∉ s.out → hdccomFreeMem s.pool b = (.error .memNotMatch, s.pool)

section Init

variable {initMem : MemInit} {pool p : MemPool}

theorem hdcdrvMemBlockHeadCheck_init (blockHead : MemBlockHead) (addr : UInt64)
    (poolType devId segment : UInt32) :
    hdcdrvMemBlockHeadCheck crc32
      (hdcdrvMemBlockHeadInit crc32 blockHead addr poolType devId segment) = true := by
  simp [hdcdrvMemBlockHeadCheck, hdcdrvMemBlockHeadInit]

/-- What the rounds of the loop have written. -/
theorem foldlM_initBlock {n : ℕ}
    (h : (List.range n).foldlM (initBlock crc32 initMem) pool = some p) :
    p.size = pool.size + UInt32.ofNat n ∧ p.mask = pool.mask ∧ p.head = pool.head ∧
      (∀ i < n, p.ring i = some i) ∧
      ∀ i < n, hdcdrvMemBlockHeadCheck crc32 (p.heads i) = true ∧ (p.heads i).refCount = 0 := by
  induction n generalizing p with
  | zero =>
      obtain rfl : pool = p := Option.some.inj h
      simp
  | succ n ih =>
      rw [List.range_succ, List.foldlM_append] at h
      obtain ⟨q, hq, hlast⟩ := Option.bind_eq_some_iff.mp h
      obtain ⟨hsize, hmask, hhead, hring, hheads⟩ := ih hq
      obtain ⟨q', hq', hp⟩ := Option.bind_eq_some_iff.mp hlast
      obtain rfl : q' = p := Option.some.inj hp
      obtain ⟨addr, -, rfl⟩ := Option.map_eq_some_iff.mp hq'
      refine ⟨?_, hmask, hhead, ?_, ?_⟩
      · rw [hsize, UInt32.ofNat_add, UInt32.add_assoc]
        rfl
      · intro i hi
        rcases Nat.lt_succ_iff_lt_or_eq.mp hi with hlt | rfl
        · exact (Function.update_of_ne hlt.ne _ _).trans (hring i hlt)
        · exact Function.update_self _ _ _
      · intro i hi
        rcases Nat.lt_succ_iff_lt_or_eq.mp hi with hlt | rfl
        · simp only [Function.update_of_ne hlt.ne]
          exact hheads i hlt
        · simp only [Function.update_self]
          exact ⟨hdcdrvMemBlockHeadCheck_init _ _ _ _ _, rfl⟩

theorem hdccomInitMemPool_spec (h : hdccomInitMemPool crc32 pool initMem = some p) :
    PoolInv crc32 initMem.num (List.range initMem.num.toNat) ⟨p, []⟩ := by
  obtain ⟨q, hq, rfl⟩ := Option.map_eq_some_iff.mp h
  obtain ⟨hsize, hmask, hhead, hring, hheads⟩ := foldlM_initBlock hq
  have hnum : q.size = initMem.num := by rw [hsize, UInt32.ofNat_toNat, UInt32.zero_add]
  refine ⟨hnum, hmask, rfl, fun b hb => (hheads b hb).1, ?_, ?_, ?_, ?_⟩
  · intro b hb
    simpa using (hheads b hb).2
  · simp
  · simp only [hhead, UInt64.toNat_zero, List.length_range]
    apply List.map_congr_left
    intro i hi
    have hlt := List.mem_range.mp hi
    rw [Ring.pos, Nat.zero_add, Nat.mod_eq_of_lt hlt]
    exact hring i hlt
  · simp only [hhead, hnum, UInt64.zero_add, List.length_range]
    apply UInt64.toNat_inj.mp
    have hlt := initMem.num.toNat_lt
    rw [UInt32.toNat_toUInt64, UInt64.toNat_ofNat', Nat.mod_eq_of_lt (by omega)]

end Init

section Run

variable {free : List ℕ} {s t : PoolState} {b : ℕ}

theorem PoolInv.length (hinv : PoolInv crc32 num free s) :
    free.length + s.out.length = num.toNat := by
  rw [← List.length_append, hinv.perm.length_eq, List.length_range]

theorem PoolInv.nodup (hinv : PoolInv crc32 num free s) : (free ++ s.out).Nodup :=
  hinv.perm.nodup_iff.mpr List.nodup_range

theorem PoolInv.mem_iff (hinv : PoolInv crc32 num free s) :
    b ∈ free ∨ b ∈ s.out ↔ b < num.toNat := by
  rw [← List.mem_append, hinv.perm.mem_iff, List.mem_range]

theorem PoolInv.mem_free_iff (hinv : PoolInv crc32 num free s) :
    b ∈ free ↔ b < num.toNat ∧ b ∉ s.out := by
  have hdisj := List.disjoint_of_nodup_append hinv.nodup
  rw [← hinv.mem_iff]
  constructor
  · exact fun hb => ⟨.inl hb, hdisj hb⟩
  · rintro ⟨hb | hb, hout⟩
    · exact hb
    · exact absurd hb hout

/-- The sizes for which the two reductions are the remainder. -/
def GoodSize (num : UInt32) : Prop := num = 0 ∨ ∃ k, num.toNat = 2 ^ k

theorem GoodSize.calcRingId (hgood : GoodSize num) (hne : num ≠ 0) :
    (hdccomCalcRingId ringCnt (num - 1) num).toNat = ringCnt.toNat % num.toNat := by
  obtain rfl | ⟨k, hk⟩ := hgood
  · exact absurd rfl hne
  · exact hdccomCalcRingId_two_pow hk

/-- The counters may wrap. -/
theorem GoodSize.add_mod (hgood : GoodSize num) (hne : num ≠ 0) (n : ℕ) :
    (ringCnt + UInt64.ofNat n).toNat % num.toNat = (ringCnt.toNat + n) % num.toNat := by
  obtain rfl | ⟨k, hk⟩ := hgood
  · exact absurd rfl hne
  · have hlt := num.toNat_lt
    have hle : k ≤ 64 := by
      by_contra hgt
      have := Nat.pow_lt_pow_right (show 1 < 2 by omega) (show 64 < k by omega)
      omega
    have hdvd : num.toNat ∣ 2 ^ 64 := hk ▸ Nat.pow_dvd_pow 2 hle
    rw [UInt64.toNat_add, UInt64.toNat_ofNat', Nat.mod_mod_of_dvd _ hdvd, Nat.add_mod,
      Nat.mod_mod_of_dvd _ hdvd, ← Nat.add_mod]

theorem PoolInv.slots (hinv : PoolInv crc32 num free s) (hgood : GoodSize num) :
    s.pool.slots = free.map some := by
  have hlen := hinv.length
  have hlt := num.toNat_lt
  have hcount : (s.pool.tail - s.pool.head).toNat = free.length := by
    rw [hinv.tail, UInt64.add_comm, UInt64.add_sub_cancel, UInt64.toNat_ofNat',
      Nat.mod_eq_of_lt (by omega)]
  rw [← hinv.content, MemPool.slots, hcount, hinv.size, hinv.mask]
  apply List.map_congr_left
  intro i hi
  have hne : num ≠ 0 := by
    rintro rfl
    have := List.mem_range.mp hi
    simp at hlen
    simp [hlen] at this
  rw [hgood.calcRingId hne, hgood.add_mod hne, Ring.pos]

theorem PoolInv.ne_zero (hinv : PoolInv crc32 num free s) (hb : b < num.toNat) : num ≠ 0 := by
  rintro rfl
  exact Nat.not_lt_zero _ hb

theorem hdccomAllocMem_of_slot {pool : MemPool} {i : ℕ} (hvalid : pool.valid = true)
    (hcnt : pool.head ≠ pool.tail)
    (hid : (hdccomCalcRingId pool.head pool.mask pool.size).toNat = i)
    (hslot : pool.ring i = some b)
    (hcheck : hdcdrvMemBlockHeadCheck crc32 (pool.heads b) = true)
    (href : (pool.heads b).refCount = 0) :
    hdccomAllocMem crc32 pool =
      (.ok (b, (pool.heads b).dmaAddr),
        { pool with
          heads := Function.update pool.heads b
            { pool.heads b with refCount := (pool.heads b).refCount + 1, occupied := false }
          ring := Function.update pool.ring i none
          head := pool.head + 1 }) := by
  subst hid
  rw [hdccomAllocMem, if_neg (by simp [hvalid]), if_neg hcnt]
  simp [hslot, hcheck, href]

theorem hdccomFreeMem_of_refCount {pool : MemPool} {i : ℕ}
    (hid : (hdccomCalcRingId pool.tail pool.mask pool.size).toNat = i)
    (href : (pool.heads b).refCount = 1) :
    hdccomFreeMem pool b =
      (.ok (),
        { pool with
          heads := Function.update pool.heads b
            { pool.heads b with refCount := (pool.heads b).refCount - 1 }
          ring := Function.update pool.ring i (some b)
          tail := pool.tail + 1 }) := by
  subst hid
  simp [hdccomFreeMem, href]

theorem PoolInv.alloc_nil (hinv : PoolInv crc32 num [] s) :
    hdccomAllocMem crc32 s.pool = (.error .dmaMemAllocFail, s.pool) := by
  have htail : s.pool.head = s.pool.tail := by simp [hinv.tail]
  rw [hdccomAllocMem, if_neg (by simp [hinv.valid]), if_pos htail]

/-- A call hands out the block at the head. -/
theorem PoolInv.alloc_cons (hinv : PoolInv crc32 num (b :: free) s) (hgood : GoodSize num) :
    ∃ addr pool, hdccomAllocMem crc32 s.pool = (.ok (b, addr), pool) ∧
      PoolInv crc32 num free ⟨pool, b :: s.out⟩ := by
  have hmem : b < num.toNat ∧ b ∉ s.out := hinv.mem_free_iff.mp List.mem_cons_self
  have hne := hinv.ne_zero hmem.1
  have hlen := hinv.length
  have hlt := num.toNat_lt
  rw [List.length_cons] at hlen
  have hcontent := hinv.content
  rw [List.length_cons, Ring.content_cons, List.map_cons] at hcontent
  obtain ⟨hslot, hrest⟩ := List.cons_eq_cons.mp hcontent
  have hid : (hdccomCalcRingId s.pool.head s.pool.mask s.pool.size).toNat =
      s.pool.head.toNat % num.toNat := by rw [hinv.size, hinv.mask, hgood.calcRingId hne]
  have hcnt : s.pool.head ≠ s.pool.tail := by
    intro heq
    have hzero : UInt64.ofNat (free.length + 1) = 0 := by
      have htail := hinv.tail
      rw [← heq, List.length_cons] at htail
      exact (UInt64.left_eq_add.mp htail)
    have := congrArg UInt64.toNat hzero
    rw [UInt64.toNat_ofNat', Nat.mod_eq_of_lt (by omega)] at this
    simp at this
  have href := hinv.refCount b hmem.1
  rw [if_neg hmem.2] at href
  refine ⟨_, _, hdccomAllocMem_of_slot hinv.valid hcnt hid hslot (hinv.check b hmem.1) href, ?_⟩
  · refine ⟨hinv.size, hinv.mask, hinv.valid, ?_, ?_, ?_, ?_, ?_⟩
    · intro c hc
      rcases eq_or_ne c b with rfl | hcb
      · simp only [Function.update_self]
        exact hinv.check c hc
      · simp only [Function.update_of_ne hcb]
        exact hinv.check c hc
    · intro c hc
      rcases eq_or_ne c b with rfl | hcb
      · simp [href]
      · simp only [Function.update_of_ne hcb, List.mem_cons, hcb, false_or]
        exact hinv.refCount c hc
    · exact List.perm_middle.trans hinv.perm
    · have hmod : (s.pool.head + 1).toNat % num.toNat = (s.pool.head.toNat + 1) % num.toNat :=
        hgood.add_mod hne 1
      have hmove := Ring.content_update_head (h := s.pool.head.toNat) s.pool.ring none
        (show free.length < num.toNat by omega)
      exact (Ring.content_mod _ hmod _).trans (hmove.trans hrest)
    · rw [hinv.tail, List.length_cons, Nat.add_comm, UInt64.ofNat_add, ← UInt64.add_assoc]
      rfl

/-- A block that is out comes back at the tail. -/
theorem PoolInv.free_mem (hinv : PoolInv crc32 num free s) (hgood : GoodSize num)
    (hb : b ∈ s.out) :
    ∃ pool, hdccomFreeMem s.pool b = (.ok (), pool) ∧
      PoolInv crc32 num (free ++ [b]) ⟨pool, s.out.erase b⟩ := by
  have hlt : b < num.toNat := hinv.mem_iff.mp (.inr hb)
  have hne := hinv.ne_zero hlt
  have hlen := hinv.length
  have hpos := List.length_pos_of_mem hb
  have hnodup := (List.nodup_append.mp hinv.nodup).2.1
  have href := hinv.refCount b hlt
  rw [if_pos hb] at href
  have hid : (hdccomCalcRingId s.pool.tail s.pool.mask s.pool.size).toNat =
      (s.pool.head.toNat + free.length) % num.toNat := by
    rw [hinv.size, hinv.mask, hgood.calcRingId hne, hinv.tail, hgood.add_mod hne]
  refine ⟨_, hdccomFreeMem_of_refCount hid href, ?_⟩
  · refine ⟨hinv.size, hinv.mask, hinv.valid, ?_, ?_, ?_, ?_, ?_⟩
    · intro c hc
      rcases eq_or_ne c b with rfl | hcb
      · simp only [Function.update_self]
        exact hinv.check c hc
      · simp only [Function.update_of_ne hcb]
        exact hinv.check c hc
    · intro c hc
      rcases eq_or_ne c b with rfl | hcb
      · simp [href, hnodup.not_mem_erase]
      · simp only [Function.update_of_ne hcb, List.mem_erase_of_ne hcb]
        exact hinv.refCount c hc
    · have hcons := (List.perm_cons_erase hb).append_left free
      rw [List.append_assoc]
      exact hcons.symm.trans hinv.perm
    · have hput := Ring.content_put (m := s.pool.ring) (d := num.toNat)
        (h := s.pool.head.toNat) (n := free.length) (p := s.pool.head.toNat + free.length)
        (l := [some b]) rfl (by simp; omega)
      rw [hinv.content] at hput
      simpa [hid, Ring.put] using hput
    · rw [hinv.tail, List.length_append, UInt64.ofNat_add, ← UInt64.add_assoc]
      rfl

/-- A block that is not out is refused. -/
theorem PoolInv.free_not_mem (hinv : PoolInv crc32 num free s) (hlt : b < num.toNat)
    (hb : b ∉ s.out) : hdccomFreeMem s.pool b = (.error .memNotMatch, s.pool) := by
  have href := hinv.refCount b hlt
  rw [if_neg hb] at href
  simp [hdccomFreeMem, href]

theorem PoolInv.ok (hinv : PoolInv crc32 num free s) (hgood : GoodSize num) :
    PoolOk crc32 num s := by
  have hnodup := List.nodup_append.mp hinv.nodup
  have hlen := hinv.length
  refine
    { nodup := hnodup.2.1
      slots := ⟨free, hinv.slots hgood, hnodup.1, fun b => hinv.mem_free_iff⟩
      alloc := ?_
      fail := ?_
      success := ?_
      free := ?_
      reject := fun b hlt hb => hinv.free_not_mem hlt hb }
  · intro buf addr pool heq
    cases free with
    | nil => simp [hinv.alloc_nil] at heq
    | cons b free =>
        obtain ⟨addr', pool', hok, hnext⟩ := hinv.alloc_cons hgood
        obtain ⟨⟨rfl, rfl⟩, rfl⟩ : (b = buf ∧ addr' = addr) ∧ pool' = pool := by
          simpa [hok] using heq
        refine ⟨(hinv.mem_free_iff.mp List.mem_cons_self).2, ?_⟩
        rw [hinv.slots hgood, List.map_cons, ← hnext.slots hgood]
  · intro hfull
    obtain rfl : free = [] := List.length_eq_zero_iff.mp (by omega)
    exact hinv.alloc_nil
  · intro hroom
    cases free with
    | nil => simp at hlen; omega
    | cons b free =>
        obtain ⟨addr, pool, hok, -⟩ := hinv.alloc_cons hgood
        exact ⟨_, pool, hok⟩
  · intro b hb
    obtain ⟨pool, hok, hnext⟩ := hinv.free_mem hgood hb
    refine ⟨pool, hok, ?_⟩
    rw [hinv.slots hgood]
    simpa using hnext.slots hgood

theorem PoolInv.step (hinv : PoolInv crc32 num free s) (hgood : GoodSize num) (op : PoolOp)
    (hstep : poolStep crc32 s op = some t) : ∃ free, PoolInv crc32 num free t := by
  cases op with
  | alloc =>
      cases free with
      | nil =>
          simp only [poolStep, hinv.alloc_nil, Option.some.injEq] at hstep
          exact ⟨[], hstep ▸ hinv⟩
      | cons b free =>
          obtain ⟨addr, pool, hok, hnext⟩ := hinv.alloc_cons hgood
          simp only [poolStep, hok, Option.some.injEq] at hstep
          exact ⟨free, hstep ▸ hnext⟩
  | free b =>
      simp only [poolStep, hinv.size] at hstep
      split_ifs at hstep with hlt
      by_cases hb : b ∈ s.out
      · obtain ⟨pool, hok, hnext⟩ := hinv.free_mem hgood hb
        simp only [hok, Option.some.injEq] at hstep
        exact ⟨free ++ [b], hstep ▸ hnext⟩
      · simp only [hinv.free_not_mem hlt hb, Option.some.injEq] at hstep
        exact ⟨free, hstep ▸ hinv⟩

variable {initMem : MemInit} {pool p : MemPool}

theorem poolInv_of_reach (hgood : GoodSize initMem.num)
    (hs : (poolMachine crc32 pool initMem).Reach s) :
    ∃ free, PoolInv crc32 initMem.num free s := by
  apply hs.invariant
  · rintro ⟨p, out⟩ ⟨hinit, rfl⟩
    exact ⟨_, hdccomInitMemPool_spec hinit⟩
  · rintro s op t ⟨free, hinv⟩ - hstep
    exact hinv.step hgood op hstep

theorem hdccomInitMemPool_slots (h : hdccomInitMemPool crc32 pool initMem = some p) :
    p.head = 0 ∧ ∀ i < initMem.num.toNat, p.ring i = some i := by
  obtain ⟨q, hq, rfl⟩ := Option.map_eq_some_iff.mp h
  obtain ⟨-, -, hhead, hring, -⟩ := foldlM_initBlock hq
  exact ⟨hhead, hring⟩

/-- Where the size is not a power of two, the mask brings two free blocks to one slot. -/
theorem goodSize_of_ok (h : hdccomInitMemPool crc32 pool initMem = some p)
    (hok : PoolOk crc32 initMem.num ⟨p, []⟩) : GoodSize initMem.num := by
  by_contra hbad
  rw [GoodSize, not_or, not_exists] at hbad
  obtain ⟨hne, hpow⟩ := hbad
  have hinv := hdccomInitMemPool_spec h
  obtain ⟨hhead, hring⟩ := hdccomInitMemPool_slots h
  have hnum : initMem.num.toNat ≠ 0 := fun hzero => hne (UInt32.toNat_inj.mp hzero)
  have hone := hpow 0
  have hlt := initMem.num.toNat_lt
  have hmask := toNat_num_sub_one hne
  have hmask' : initMem.num - 1 ≠ 0 := by
    intro hzero
    rw [hzero, UInt32.toNat_zero] at hmask
    omega
  obtain ⟨j, hj, hand⟩ := exists_and_ne (m := initMem.num.toNat - 1) (by omega)
    (by simpa [Nat.sub_add_cancel (Nat.pos_of_ne_zero hnum)] using hpow)
  have hslot : ∀ i < initMem.num.toNat,
      p.ring (hdccomCalcRingId (p.head + UInt64.ofNat i) p.mask p.size).toNat =
        some (i &&& (initMem.num.toNat - 1)) := by
    intro i hi
    have hle : i &&& (initMem.num.toNat - 1) ≤ initMem.num.toNat - 1 := Nat.and_le_right
    rw [hinv.size, hinv.mask, toNat_hdccomCalcRingId hne, if_pos hmask', hmask, hhead,
      UInt64.zero_add, UInt64.toNat_ofNat', Nat.mod_eq_of_lt (by omega)]
    exact hring _ (by omega)
  have hcount : (p.tail - p.head).toNat = initMem.num.toNat := by
    rw [hinv.tail, UInt64.add_comm, UInt64.add_sub_cancel, UInt64.toNat_ofNat',
      List.length_range, Nat.mod_eq_of_lt (by omega)]
  obtain ⟨free, hslots, hnodup, -⟩ := hok.slots
  have hdistinct : (MemPool.slots p).Nodup := by
    rw [hslots]
    exact hnodup.map (fun _ _ => Option.some.inj)
  rw [MemPool.slots, hcount] at hdistinct
  have hle : j &&& (initMem.num.toNat - 1) ≤ initMem.num.toNat - 1 := Nat.and_le_right
  apply hand
  apply List.inj_on_of_nodup_map hdistinct (List.mem_range.mpr (by omega))
    (List.mem_range.mpr (by omega))
  rw [hslot _ (by omega), hslot _ (by omega), Nat.and_assoc, Nat.and_self]

/-- A pool keeps its promises in every run exactly if its size is zero or a power of two. -/
theorem hdccomMemPool_ok_iff (h : hdccomInitMemPool crc32 pool initMem = some p) :
    (∀ s, (poolMachine crc32 pool initMem).Reach s → PoolOk crc32 initMem.num s) ↔
      initMem.num = 0 ∨ ∃ k, initMem.num.toNat = 2 ^ k := by
  constructor
  · exact fun hall => goodSize_of_ok h (hall _ (.start ⟨h, rfl⟩))
  · intro hgood s hs
    obtain ⟨free, hinv⟩ := poolInv_of_reach hgood hs
    exact hinv.ok hgood

/-- A pool without buffers, before its initialisation. -/
def emptyPool : MemPool where
  valid := false
  devId := 0
  size := 0
  segment := 0
  mask := 0
  head := 0
  tail := 0
  ring _ := none
  heads _ := default

/-- Blocks of 4096 bytes. -/
def memInit (num : UInt32) : MemInit where
  poolType := 0
  devId := 0
  segment := 4096
  num := num
  alloc i := some (UInt64.ofNat (4096 * i))

theorem hdccomMemPool_ok_iff_four :
    (∀ s, (poolMachine (fun _ => 0) emptyPool (memInit 4)).Reach s →
      PoolOk (fun _ => 0) 4 s) ↔ (4 : UInt32) = 0 ∨ ∃ k, (4 : UInt32).toNat = 2 ^ k :=
  hdccomMemPool_ok_iff (p := (hdccomInitMemPool (fun _ => 0) emptyPool (memInit 4)).get rfl)
    (Option.some_get _).symm

/-- With three blocks two counters give the slot of block 0, and the second call fails. -/
theorem hdccomMemPool_three :
    (hdccomInitMemPool (fun _ => 0) emptyPool (memInit 3)).map MemPool.slots =
        some [some 0, some 0, some 2] ∧
      (hdccomInitMemPool (fun _ => 0) emptyPool (memInit 3)).map
          (fun p => (hdccomAllocMem (fun _ => 0) (hdccomAllocMem (fun _ => 0) p).2).1.toOption) =
        some none := by
  constructor <;> decide +kernel

end Run

end OpiaiKernel.Hdc
