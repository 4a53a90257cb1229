import Mathlib.Logic.Function.Basic
import OpiaiKernel.Lib.SearchTree
import OpiaiKernel.Xsmem.AlgoVma

/-!
# The cached share pool algorithm of an xsmem pool

A pool of this algorithm takes areas of the share pool as the caches of a device
and cuts its blocks out of them.  The caches of a device are in a red-black tree
by address, and each has a VMA allocator of its own.  A block whose flag says so
comes from the share pool directly.

The functions are translated from `xsmem_algo_cache_sp.c` and `xsmem_algo_sp.c`
under their own names.  The share pool is not part of the code: it answers with
any area in whole pages that overlaps none of those it has handed out.
-/

namespace OpiaiKernel.Xsmem

open AugTree

def XSMEM_MAX_DEV_NUM : ℕ := 4

def BUFF_SP_NORMAL : ℕ := 0

def BUFF_SP_HUGEPAGE_ONLY : ℕ := 2

def BUFF_SP_DVPP : ℕ := 4

def BUFF_FLAGS_DEVID_OFFSET : ℕ := 32

def XSMEM_BLK_ALLOC_FROM_OS : ℕ := 2 ^ 62

def spGetDeviceIdFromFlags (flags : ℕ) : ℕ := (flags >>> BUFF_FLAGS_DEVID_OFFSET) &&& 0xff

/-- What the algorithm uses of a `struct xsm_block`. -/
structure SpBlock where
  flag : ℕ
  offset : ℕ
  realSize : ℕ
  deriving DecidableEq

namespace SpBlock

def devid (blk : SpBlock) : ℕ := spGetDeviceIdFromFlags blk.flag

def span (blk : SpBlock) : Span := ⟨blk.offset, blk.realSize⟩

end SpBlock

def blkIsAllocedFromOs (flag : ℕ) : Prop :=
  flag &&& XSMEM_BLK_ALLOC_FROM_OS = XSMEM_BLK_ALLOC_FROM_OS

instance (flag : ℕ) : Decidable (blkIsAllocedFromOs flag) := inferInstanceAs (Decidable (_ = _))

/-! ## The share pool -/

/-- What the environment decides in one `sp_algo_alloc`: whether there are node
ids, and the answer of `mg_sp_alloc` for each of them. -/
structure SpEnv where
  nids : Bool
  vaddrs : List (Option ℕ)

def spAlgoAllocNodemask (env : SpEnv) : Option ℕ := env.vaddrs.findSome? id

/-- The answer is a nonempty area of whole pages that is free. -/
def SpEnv.Answers (P : PageSize) (env : SpEnv) (sp : List Span) (size : ℕ) : Prop :=
  ∀ vaddr ∈ spAlgoAllocNodemask env, 0 < vaddr ∧ 0 < size ∧ P.bytes ∣ vaddr ∧
    vaddr + size < 2 ^ 64 ∧ ∀ a ∈ sp, Span.Apart ⟨vaddr, size⟩ a

instance (s t : Span) : Decidable (Span.Apart s t) := inferInstanceAs (Decidable (_ ∨ _))

instance (P : PageSize) (env : SpEnv) (sp : List Span) (size : ℕ) :
    Decidable (env.Answers P sp size) :=
  inferInstanceAs (Decidable (∀ vaddr ∈ _, _))

/-- The result is the address and the size of the area. -/
def spAlgoAlloc (P : PageSize) (env : SpEnv) (sp : List Span) (allocSize : ℕ) :
    Except Errno (ℕ × ℕ) × List Span :=
  let realSizeTmp := P.align allocSize
  if realSizeTmp < allocSize then (.error .EOVERFLOW, sp)
  else if !env.nids then (.error Errno.ENXIO, sp)
  else
    match spAlgoAllocNodemask env with
    | none => (.error .ENOMEM, sp)
    | some vaddr => (.ok (vaddr, realSizeTmp), ⟨vaddr, realSizeTmp⟩ :: sp)

def spAlgoFree (sp : List Span) (addr : ℕ) : Except Errno Unit × List Span :=
  match sp.find? fun a => a.start = addr with
  | none => (.error .EINVAL, sp)
  | some a => (.ok (), sp.erase a)

/-! ## Caches and devices -/

structure CacheSpInfo where
  addr : ℕ
  totalSize : ℕ
  allocSize : ℕ
  vmaCtrl : VmaCtrl

def CacheSpInfo.area (info : CacheSpInfo) : Span := ⟨info.addr, info.totalSize⟩

/-- `cacheSem` is the number of readers of `cache_sem`; a writer is in and out in
one step. -/
structure CacheDevInfo where
  cacheCnt : ℕ
  totalSize : ℕ
  allocSize : ℕ
  ref : ℤ
  cacheSem : ℕ
  cacheRbtree : AugTree CacheSpInfo Unit

namespace CacheDevInfo

/-- The caches by address. -/
def caches (dev : CacheDevInfo) : List CacheSpInfo := dev.cacheRbtree.toList

/-- Write to the cache at `addr`. -/
def modifyInfo (dev : CacheDevInfo) (addr : ℕ) (f : CacheSpInfo → CacheSpInfo) : CacheDevInfo :=
  { dev with
    cacheRbtree := AugTree.map (fun c => if c.addr = addr then f c else c) dev.cacheRbtree }

end CacheDevInfo

structure MemStat where
  allocedSize : ℕ
  blkCnt : ℕ

structure CacheSpCtrl where
  spCtrl : List Span
  devInfo : ℕ → Option CacheDevInfo
  osInfo : MemStat

def CacheSpCtrl.setDev (ctrl : CacheSpCtrl) (devid : ℕ) (dev : Option CacheDevInfo) :
    CacheSpCtrl :=
  { ctrl with devInfo := Function.update ctrl.devInfo devid dev }

def cacheDevCreate (kvzalloc : Bool) (ctrl : CacheSpCtrl) (devid : ℕ) :
    Except Errno Unit × CacheSpCtrl :=
  match ctrl.devInfo devid with
  | some _ => (.ok (), ctrl)
  | none =>
      if kvzalloc then
        (.ok (), ctrl.setDev devid (some
          { cacheCnt := 0, totalSize := 0, allocSize := 0, ref := 1, cacheSem := 0,
            cacheRbtree := .nil }))
      else (.error .ENOMEM, ctrl)

/-- `none` when there is no such device. -/
def cacheDevGet (ctrl : CacheSpCtrl) (devid : ℕ) : Option CacheSpCtrl :=
  (ctrl.devInfo devid).map fun dev => ctrl.setDev devid (some { dev with ref := dev.ref + 1 })

def cacheDevPut (ctrl : CacheSpCtrl) (devid : ℕ) : CacheSpCtrl :=
  match ctrl.devInfo devid with
  | none => ctrl
  | some dev => ctrl.setDev devid (some { dev with ref := dev.ref - 1 })

/-- The caches are destroyed in address order; the results of `sp_algo_free` are
not looked at. -/
def cacheSpDestroyDev (ctrl : CacheSpCtrl) (dev : CacheDevInfo) : CacheSpCtrl :=
  { ctrl with spCtrl := dev.caches.foldl (fun sp c => (spAlgoFree sp c.addr).2) ctrl.spCtrl }

inductive CacheDestroyErr
  | ENODEV
  | ENXIO
  | EBUSY
  | ETXTBSY
  deriving DecidableEq

def cacheDevDestroy (ctrl : CacheSpCtrl) (devid : ℕ) :
    Except CacheDestroyErr Unit × CacheSpCtrl :=
  match ctrl.devInfo devid with
  | none => (.error CacheDestroyErr.ENXIO, ctrl)
  | some dev =>
      if dev.allocSize ≠ 0 then (.error .EBUSY, ctrl)
      else if dev.ref ≠ 1 then (.error .ETXTBSY, ctrl)
      else (.ok (), (cacheSpDestroyDev ctrl dev).setDev devid none)

def cacheSpAlgoCacheDestroy (ctrl : CacheSpCtrl) (devid : ℕ) :
    Except CacheDestroyErr Unit × CacheSpCtrl :=
  if XSMEM_MAX_DEV_NUM ≤ devid then (.error .ENODEV, ctrl) else cacheDevDestroy ctrl devid

def cacheSpDestroyAllDev (ctrl : CacheSpCtrl) : CacheSpCtrl :=
  (List.range XSMEM_MAX_DEV_NUM).foldl
    (fun ctrl devid =>
      match ctrl.devInfo devid with
      | none => ctrl
      | some dev => (cacheSpDestroyDev ctrl dev).setDev devid none)
    ctrl

/-! ## Creating a cache -/

structure XsmCacheCreateArg where
  devId : ℕ
  memFlag : ℕ
  memSize : ℕ
  deriving DecidableEq

def cacheSpCreateParaCheck (arg : XsmCacheCreateArg) : Except Errno Unit :=
  if XSMEM_MAX_DEV_NUM ≤ arg.devId then .error .ENODEV
  else if arg.memSize = 0 then .error .EINVAL
  else if arg.memFlag ≠ BUFF_SP_NORMAL ∧ arg.memFlag ≠ BUFF_SP_HUGEPAGE_ONLY ∧
      arg.memFlag ≠ BUFF_SP_NORMAL ||| BUFF_SP_DVPP ∧
      arg.memFlag ≠ BUFF_SP_HUGEPAGE_ONLY ||| BUFF_SP_DVPP then .error .EINVAL
  else .ok ()

/-- The tree of the caches has nothing to keep up beside its order. -/
def noAugment : Augment CacheSpInfo Unit where
  zero := ()
  compute _ _ _ := ()
  rotate _ _ _ _ _ := rfl

def cacheSpRbInsert (bal : Rotations) (dev : CacheDevInfo) (info : CacheSpInfo) :
    Except Errno CacheDevInfo :=
  match link (fun this => compare info.addr this.addr) [] dev.cacheRbtree with
  | none => .error .EINVAL
  | some p => .ok { dev with cacheRbtree := rbInsertAugmented noAugment bal info () p }

/-- The part of `cache_info_create` up to `sp_algo_alloc`. -/
def cacheInfoAlloc (P : PageSize) (kvzalloc : Bool) (env : SpEnv) (ctrl : CacheSpCtrl)
    (arg : XsmCacheCreateArg) : Except Errno (ℕ × ℕ) × CacheSpCtrl :=
  if kvzalloc then
    let (ret, sp) := spAlgoAlloc P env ctrl.spCtrl arg.memSize
    (ret, { ctrl with spCtrl := sp })
  else (.error .ENOMEM, ctrl)

/-- The rest of it, which gives the area back when it fails. -/
def cacheInfoLink (P : PageSize) (kmalloc : Bool) (bal : Rotations) (ctrl : CacheSpCtrl)
    (devid : ℕ) (dev : CacheDevInfo) (area : Span) : Except Errno Unit × CacheSpCtrl :=
  match if kmalloc then vmaInstCreate P area.size else none with
  | none => (.error .EINVAL, { ctrl with spCtrl := (spAlgoFree ctrl.spCtrl area.start).2 })
  | some vmaCtrl =>
      match cacheSpRbInsert bal dev
          { addr := area.start, totalSize := area.size, allocSize := 0, vmaCtrl := vmaCtrl } with
      | .error e => (.error e, { ctrl with spCtrl := (spAlgoFree ctrl.spCtrl area.start).2 })
      | .ok dev =>
          (.ok (), ctrl.setDev devid (some
            { dev with
              cacheCnt := Word.add 32 dev.cacheCnt 1
              totalSize := Word.add 64 dev.totalSize area.size }))

/-! ## Blocks -/

/-- One round of the loop of `cache_sp_blk_alloc`.  The counters are updated
with the allocator. -/
def cacheSpBlkTry (P : PageSize) (bal : Rotations) (dev : CacheDevInfo) (info : CacheSpInfo)
    (allocSize : ℕ) : Except Errno (ℕ × ℕ) × CacheDevInfo :=
  match vmaAlgoAlloc P bal info.vmaCtrl allocSize with
  | (.error e, vmaCtrl) =>
      (.error e, dev.modifyInfo info.addr fun c => { c with vmaCtrl := vmaCtrl })
  | (.ok (offset, realSize), vmaCtrl) =>
      (.ok (Word.add 64 offset info.addr, realSize),
        { dev.modifyInfo info.addr fun c =>
            { c with allocSize := Word.add 64 c.allocSize realSize, vmaCtrl := vmaCtrl } with
          allocSize := Word.add 64 dev.allocSize realSize })

def cacheSpRbSearch (dev : CacheDevInfo) (addr : ℕ) : Option CacheSpInfo :=
  search
    (fun info =>
      if addr < info.addr then .lt
      else if Word.add 64 info.addr info.totalSize ≤ addr then .gt
      else .eq)
    dev.cacheRbtree

/-- `_cache_sp_algo_free_to_cache` -/
def cacheSpFreeToCache (kmalloc : Bool) (bal : Rotations) (dev : CacheDevInfo) (blk : SpBlock) :
    Except Errno Unit × CacheDevInfo :=
  match cacheSpRbSearch dev blk.offset with
  | none => (.error Errno.ENXIO, dev)
  | some info =>
      match vmaAlgoFree kmalloc bal info.vmaCtrl (Word.sub 64 blk.offset info.addr)
          blk.realSize with
      | (.error e, vmaCtrl) =>
          (.error e, dev.modifyInfo info.addr fun c => { c with vmaCtrl := vmaCtrl })
      | (.ok (), vmaCtrl) =>
          (.ok (),
            { dev.modifyInfo info.addr fun c =>
                { c with
                  allocSize := Word.sub 64 c.allocSize blk.realSize
                  vmaCtrl := vmaCtrl } with
              allocSize := Word.sub 64 dev.allocSize blk.realSize })

/-- The entries written to a buffer for `cacheCnt` of them. -/
def cacheSpQuery (dev : CacheDevInfo) (cacheCnt : ℕ) : List (ℕ × ℕ) :=
  (dev.caches.take cacheCnt).map fun info => (info.addr, info.totalSize)

def cacheSpAlgoAllocFromOs (P : PageSize) (env : SpEnv) (ctrl : CacheSpCtrl) (allocSize : ℕ) :
    Except Errno (ℕ × ℕ) × CacheSpCtrl :=
  match spAlgoAlloc P env ctrl.spCtrl allocSize with
  | (.error e, sp) => (.error e, { ctrl with spCtrl := sp })
  | (.ok (offset, realSize), sp) =>
      (.ok (offset, realSize),
        { ctrl with
          spCtrl := sp
          osInfo :=
            ⟨Word.add 64 ctrl.osInfo.allocedSize realSize, Word.add 64 ctrl.osInfo.blkCnt 1⟩ })

def cacheSpAlgoFreeToOs (ctrl : CacheSpCtrl) (blk : SpBlock) : Except Errno Unit × CacheSpCtrl :=
  match spAlgoFree ctrl.spCtrl blk.offset with
  | (.error e, sp) => (.error e, { ctrl with spCtrl := sp })
  | (.ok (), sp) =>
      (.ok (),
        { ctrl with
          spCtrl := sp
          osInfo :=
            ⟨Word.sub 64 ctrl.osInfo.allocedSize blk.realSize, Word.sub 64 ctrl.osInfo.blkCnt 1⟩ })

/-! ## Calls in flight -/

/-- Where a call is, between two of the sections that it runs under a lock.  The
calls other than `create` hold a reference to their device. -/
inductive CacheCall
  /-- A device was made or found, before `cache_dev_get`. -/
  | create (arg : XsmCacheCreateArg)
  | infoCreate (arg : XsmCacheCreateArg)
  /-- With the area for the cache, before `cache_sem` is taken. -/
  | infoLink (arg : XsmCacheCreateArg) (area : Span)
  | blkAlloc (allocSize flag : ℕ)
  /-- Under `cache_sem`, at the cache at address `pos`; `ret` is the last error. -/
  | blkWalk (allocSize flag : ℕ) (pos : Option ℕ) (ret : Errno)
  | blkFree (blk : SpBlock)
  | query (devid cacheCnt : ℕ)
  /-- Before `cache_dev_put`; `ret` is the error that will be returned. -/
  | put (devid : ℕ) (ret : Option Errno)
  deriving DecidableEq

namespace CacheCall

/-- The device whose reference the call holds. -/
def refDev : CacheCall → Option ℕ
  | create _ => none
  | infoCreate arg => some arg.devId
  | infoLink arg _ => some arg.devId
  | blkAlloc _ flag => some (spGetDeviceIdFromFlags flag)
  | blkWalk _ flag _ _ => some (spGetDeviceIdFromFlags flag)
  | blkFree blk => some blk.devid
  | query devid _ => some devid
  | put devid _ => some devid

/-- The place of a walk through the caches of `devid`. -/
def walk (devid : ℕ) : CacheCall → Option (Option ℕ)
  | blkWalk _ flag pos _ => if spGetDeviceIdFromFlags flag = devid then some pos else none
  | _ => none

/-- The area that is to become a cache. -/
def newArea : CacheCall → Option Span
  | infoLink _ area => some area
  | _ => none

/-- The block that is being freed. -/
def freeing : CacheCall → Option SpBlock
  | blkFree blk => some blk
  | _ => none

end CacheCall

/-- The control block, the calls in flight and the blocks handed out: those that
can be freed, those whose free failed, and those from the share pool. -/
structure CacheRun where
  ctrl : CacheSpCtrl
  calls : List CacheCall
  live : List SpBlock
  lost : List SpBlock
  osLive : List SpBlock

/-- What the environment decides in one step of a call. -/
structure CallEnv where
  kmalloc : Bool
  bal : Rotations
  sp : SpEnv

inductive CacheOp
  | create (arg : XsmCacheCreateArg) (kvzalloc : Bool)
  | destroy (devid : ℕ)
  | query (devid cacheCnt : ℕ)
  | alloc (allocSize flag : ℕ) (sp : SpEnv)
  | free (blk : SpBlock)
  /-- The next section of a call. -/
  | run (call : CacheCall) (env : CallEnv)
  | poolFree

namespace CacheRun

/-- The call goes on as `new`. -/
def goOn (s : CacheRun) (old new : CacheCall) (ctrl : CacheSpCtrl) : CacheRun :=
  { s with ctrl := ctrl, calls := new :: s.calls.erase old }

/-- A new call starts. -/
def start (s : CacheRun) (call : CacheCall) (ctrl : CacheSpCtrl) : CacheRun :=
  { s with ctrl := ctrl, calls := call :: s.calls }

end CacheRun

/-- The next section of a call.  A section of a device that is gone does not run,
and neither does a writer of `cache_sem` while there are readers. -/
def runCacheCall (P : PageSize) (s : CacheRun) (call : CacheCall) (env : CallEnv) :
    Option CacheRun :=
  match call with
  | .create arg =>
      match cacheDevGet s.ctrl arg.devId with
      | none => some { s with calls := s.calls.erase call }
      | some ctrl => some (s.goOn call (.infoCreate arg) ctrl)
  | .infoCreate arg =>
      if env.sp.Answers P s.ctrl.spCtrl (P.align arg.memSize) then
        match cacheInfoAlloc P env.kmalloc env.sp s.ctrl arg with
        | (.ok (addr, size), ctrl) => some (s.goOn call (.infoLink arg ⟨addr, size⟩) ctrl)
        | (.error e, ctrl) => some (s.goOn call (.put arg.devId (some e)) ctrl)
      else none
  | .infoLink arg area =>
      match s.ctrl.devInfo arg.devId with
      | none => none
      | some dev =>
          if dev.cacheSem ≠ 0 then none
          else
            match cacheInfoLink P env.kmalloc env.bal s.ctrl arg.devId dev area with
            | (.ok (), ctrl) => some (s.goOn call (.put arg.devId none) ctrl)
            | (.error e, ctrl) => some (s.goOn call (.put arg.devId (some e)) ctrl)
  | .blkAlloc allocSize flag =>
      let devid := spGetDeviceIdFromFlags flag
      match s.ctrl.devInfo devid with
      | none => none
      | some dev =>
          let first := (rbFirst dev.cacheRbtree).map fun x => x.a.addr
          some (s.goOn call (.blkWalk allocSize flag first .ENOMEM)
            (s.ctrl.setDev devid (some { dev with cacheSem := dev.cacheSem + 1 })))
  | .blkWalk allocSize flag pos ret =>
      let devid := spGetDeviceIdFromFlags flag
      match s.ctrl.devInfo devid with
      | none => none
      | some dev =>
          match pos with
          | none =>
              some (s.goOn call (.put devid (some ret))
                (s.ctrl.setDev devid (some { dev with cacheSem := dev.cacheSem - 1 })))
          | some addr =>
              match locate (fun c => c.addr == addr) [] dev.cacheRbtree with
              | none => none
              | some x =>
                  match cacheSpBlkTry P env.bal dev x.a allocSize with
                  | (.ok (offset, realSize), dev) =>
                      let dev := { dev with cacheSem := dev.cacheSem - 1 }
                      some
                        { s.goOn call (.put devid none) (s.ctrl.setDev devid (some dev)) with
                          live := ⟨flag, offset, realSize⟩ :: s.live }
                  | (.error e, dev) =>
                      let next := (rbNext x).map fun y => y.a.addr
                      some (s.goOn call (.blkWalk allocSize flag next e)
                        (s.ctrl.setDev devid (some dev)))
  | .blkFree blk =>
      match s.ctrl.devInfo blk.devid with
      | none => none
      | some dev =>
          match cacheSpFreeToCache env.kmalloc env.bal dev blk with
          | (.ok (), dev) =>
              some (s.goOn call (.put blk.devid none) (s.ctrl.setDev blk.devid (some dev)))
          | (.error e, dev) =>
              some
                { s.goOn call (.put blk.devid (some e)) (s.ctrl.setDev blk.devid (some dev)) with
                  lost := blk :: s.lost }
  | .query devid _ => some (s.goOn call (.put devid none) s.ctrl)
  | .put devid _ => some { s with ctrl := cacheDevPut s.ctrl devid, calls := s.calls.erase call }

/-- The framework frees each block once, and the pool only when it has no block
left and no call in flight. -/
def cacheStep (P : PageSize) (s : CacheRun) : CacheOp → Option CacheRun
  | .create arg kvzalloc =>
      match cacheSpCreateParaCheck arg with
      | .error _ => some s
      | .ok () =>
          match cacheDevCreate kvzalloc s.ctrl arg.devId with
          | (.error _, ctrl) => some { s with ctrl := ctrl }
          | (.ok (), ctrl) => some (s.start (.create arg) ctrl)
  | .destroy devid => some { s with ctrl := (cacheSpAlgoCacheDestroy s.ctrl devid).2 }
  | .query devid cacheCnt =>
      if XSMEM_MAX_DEV_NUM ≤ devid then some s
      else
        match cacheDevGet s.ctrl devid with
        | none => some s
        | some ctrl => some (s.start (.query devid cacheCnt) ctrl)
  | .alloc allocSize flag sp =>
      if blkIsAllocedFromOs flag then
        if sp.Answers P s.ctrl.spCtrl (P.align allocSize) then
          match cacheSpAlgoAllocFromOs P sp s.ctrl allocSize with
          | (.error _, ctrl) => some { s with ctrl := ctrl }
          | (.ok (offset, realSize), ctrl) =>
              some { s with ctrl := ctrl, osLive := ⟨flag, offset, realSize⟩ :: s.osLive }
        else none
      else if XSMEM_MAX_DEV_NUM ≤ spGetDeviceIdFromFlags flag then some s
      else
        match cacheDevGet s.ctrl (spGetDeviceIdFromFlags flag) with
        | none => some s
        | some ctrl => some (s.start (.blkAlloc allocSize flag) ctrl)
  | .free blk =>
      if blkIsAllocedFromOs blk.flag then
        if blk ∈ s.osLive then
          some
            { s with
              ctrl := (cacheSpAlgoFreeToOs s.ctrl blk).2
              osLive := s.osLive.erase blk }
        else none
      else if blk ∈ s.live then
        match cacheDevGet s.ctrl blk.devid with
        | none => some { s with live := s.live.erase blk, lost := blk :: s.lost }
        | some ctrl => some { s.start (.blkFree blk) ctrl with live := s.live.erase blk }
      else none
  | .run call env => if call ∈ s.calls then runCacheCall P s call env else none
  | .poolFree =>
      if s.calls = [] ∧ s.live = [] ∧ s.osLive = [] then
        some { s with ctrl := cacheSpDestroyAllDev s.ctrl, lost := [] }
      else none

/-- A pool from its creation on. -/
def cacheMachine (P : PageSize) : Machine CacheRun CacheOp where
  init s :=
    s.ctrl.spCtrl = [] ∧ (∀ devid, s.ctrl.devInfo devid = none) ∧ s.ctrl.osInfo = ⟨0, 0⟩ ∧
      s.calls = [] ∧ s.live = [] ∧ s.lost = [] ∧ s.osLive = []
  step := cacheStep P

end OpiaiKernel.Xsmem
