import OpiaiKernel.Lib.Walk
import OpiaiKernel.Trs.ResMng
import OpiaiKernel.Trs.ShmSqcq

/-!
# The recycling of a process

When a process exits, the resources that it still owns are freed type by type, by
a callback of the type for each id that the process owns, until its counter of
the type is zero.  The queues have channels: in the pair mode an SQ and its CQ
share one, otherwise each has its own.

The functions are translated from `trs_proc.c`, `trs_hw_sqcq.c`, `trs_sw_sqcq.c`,
`trs_cb_sqcq.c`, `trs_logic_cq.c`, `trs_shm_sqcq.c` and `trs_res_mng.c`.  The
state is the one of an instance with the contexts of the process in it.
-/

namespace OpiaiKernel.Trs.Recycle

def trsHwCq : ℕ := 6
def trsSwSq : ℕ := 7
def trsSwCq : ℕ := 8
def trsCbSq : ℕ := 9
def trsCbCq : ℕ := 10
def trsLogicCq : ℕ := 11
def trsCoreMaxIdType : ℕ := 12

structure TrsSqCtx where
  cqid : ℕ
  chanId : ℤ

/-- An instance: its resources, whether it works in the pair mode and with a part
of the features, the contexts of its queues, the shared queue with the channels
that the processes have for it, the channels that were destroyed, and what the
device answers to a check. -/
structure TsInst where
  res : ResState
  stars : Bool
  partFeatur : Bool
  sqCtx : ℕ → TrsSqCtx
  cqCtx : ℕ → ℤ
  swSqCtx : ℕ → TrsSqCtx
  swCqCtx : ℕ → ℤ
  cbCq : ℕ → ℕ
  shmCtx : TrsShmCtx
  procShm : TrsProc → ℤ
  destroyed : List ℤ
  releaseCheck : Bool

variable (proc : TrsProc)

/-- `trs_proc_has_res`. -/
def TsInst.has (s : TsInst) (res : TrsRes) : Bool := trsIsResPidMatch s.res proc res

/-- `trs_proc_del_res` with its put. -/
def TsInst.delRes (s : TsInst) (res : TrsRes) : TsInst :=
  if s.has proc res then
    let t := trsProcDelRes s.res proc res
    { s with res := trsResPut { t with freeing := t.freeing.erase res } res }
  else s

def TsInst.chanDestroy (s : TsInst) (chanId : ℤ) : TsInst :=
  { s with destroyed := chanId :: s.destroyed }

def TsInst.sqCtxUninit (s : TsInst) (sqid : ℕ) : TsInst :=
  { s with sqCtx := Function.update s.sqCtx sqid { s.sqCtx sqid with chanId := -1 } }

def TsInst.cqCtxUninit (s : TsInst) (cqid : ℕ) : TsInst :=
  { s with cqCtx := Function.update s.cqCtx cqid (-1) }

def trsHwSqcqFreePair (s : TsInst) (sqid cqid : ℕ) : TsInst :=
  let chanId := (s.sqCtx sqid).chanId
  ((((s.sqCtxUninit sqid).cqCtxUninit cqid).delRes proc (trsHwSq, sqid)).delRes proc
    (trsHwCq, cqid)).chanDestroy chanId

def trsHwSqcqFreeSqChan (s : TsInst) (sqid : ℕ) : TsInst :=
  let s := s.delRes proc (trsHwSq, sqid)
  (s.chanDestroy (s.sqCtx sqid).chanId).sqCtxUninit sqid

def trsHwSqcqFreeCqChan (s : TsInst) (cqid : ℕ) : TsInst :=
  let s := s.delRes proc (trsHwCq, cqid)
  (s.chanDestroy (s.cqCtx cqid)).cqCtxUninit cqid

def trsHwSqcqRecycle (s : TsInst) (resType resId : ℕ) : TsInst :=
  if resType = trsHwSq then
    if s.stars then trsHwSqcqFreePair proc s resId (s.sqCtx resId).cqid
    else trsHwSqcqFreeSqChan proc s resId
  else if s.stars then s
  else trsHwSqcqFreeCqChan proc s resId

def trsSwSqcqFree (s : TsInst) (sqid cqid : ℕ) : TsInst :=
  let chanId := (s.swSqCtx sqid).chanId
  let s := { s with
    swSqCtx := Function.update s.swSqCtx sqid { s.swSqCtx sqid with chanId := -1 }
    swCqCtx := Function.update s.swCqCtx cqid (-1) }
  ((s.delRes proc (trsSwSq, sqid)).delRes proc (trsSwCq, cqid)).chanDestroy chanId

/-- The type is compared with the one of the hardware SQs. -/
def trsSwSqcqRecycle (s : TsInst) (resType resId : ℕ) : TsInst :=
  if resType = trsHwSq then trsSwSqcqFree proc s resId (s.swSqCtx resId).cqid
  else s

def trsCbSqcqFree (s : TsInst) (sqid cqid : ℕ) : TsInst :=
  if ¬ s.has proc (trsCbCq, cqid) then s
  else if s.cbCq cqid ≠ sqid then s
  else (s.delRes proc (trsCbCq, cqid)).delRes proc (trsCbSq, s.cbCq cqid)

def trsCbSqcqRecycle (s : TsInst) (resType resId : ℕ) : TsInst :=
  if resType = trsCbCq then trsCbSqcqFree proc s (s.cbCq resId) resId
  else s

def trsLogicCqRecycle (s : TsInst) (_resType resId : ℕ) : TsInst :=
  if ¬ s.has proc (trsLogicCq, resId) then s
  else s.delRes proc (trsLogicCq, resId)

def trsResIdRecycle (s : TsInst) (resType resId : ℕ) : TsInst :=
  s.delRes proc (resType, resId)

def TsInst.resNum (s : TsInst) (resType : ℕ) : ℤ := s.res.currentIdNum proc resType

def trsForEachProcResId (s : TsInst) (resType : ℕ)
    (recycleFunc : TsInst → ℕ → ℕ → TsInst) : TsInst :=
  if s.resNum proc resType = 0 then s
  else
    Walk.run (fun s i => trsIsIdPidMatch (s.res.ids (resType, i)) proc)
      (fun s => s.resNum proc resType = 0) (fun s i => recycleFunc s resType i)
      (List.range (s.res.maxId resType)) s

def trsShmFreePhySq (s : TsInst) : TsInst :=
  let ref := Word.sub 32 s.shmCtx.ref 1
  if ref = 0 then
    { s.chanDestroy s.shmCtx.chanId with shmCtx := { s.shmCtx with ref := ref, chanId := -1 } }
  else { s with shmCtx := { s.shmCtx with ref := ref } }

def trsShmFreePhyCq (s : TsInst) : TsInst :=
  if 0 ≤ s.procShm proc then
    { s.chanDestroy (s.procShm proc) with procShm := Function.update s.procShm proc (-1) }
  else s

def trsShmSqcqRecycle (s : TsInst) : TsInst := trsShmFreePhyCq proc (trsShmFreePhySq s)

/-- The walks of `trs_proc_ts_res_recycle`. -/
def trsProcResWalks (s : TsInst) : TsInst :=
  let s := trsForEachProcResId proc s trsHwSq (trsHwSqcqRecycle proc)
  let s := trsForEachProcResId proc s trsHwCq (trsHwSqcqRecycle proc)
  let s := trsForEachProcResId proc s trsSwSq (trsSwSqcqRecycle proc)
  let s := trsForEachProcResId proc s trsSwCq (trsSwSqcqRecycle proc)
  (List.range trsHwSq).foldl
    (fun s resType => trsForEachProcResId proc s resType (trsResIdRecycle proc)) s

/-- What `trs_proc_ts_res_recycle` does after a positive answer of the device. -/
def trsProcTsResRecycle (s : TsInst) : TsInst :=
  trsProcResWalks proc (if 0 ≤ s.procShm proc then trsShmSqcqRecycle proc s else s)

def trsProcIsResLeak (s : TsInst) : Bool :=
  0 ≤ s.procShm proc || (List.range trsCoreMaxIdType).any fun i => 0 < s.resNum proc i

/-- The part of `trs_proc_release` for an instance. -/
def trsProcReleaseInst (s : TsInst) : TsInst :=
  if s.partFeatur then s
  else
    let s := trsForEachProcResId proc s trsLogicCq (trsLogicCqRecycle proc)
    let s := trsForEachProcResId proc s trsCbCq (trsCbSqcqRecycle proc)
    trsForEachProcResId proc s trsCbSq (trsCbSqcqRecycle proc)

/-- The part of `trs_proc_recycle` for an instance; `false` is `-EBUSY`. -/
def trsProcRecycleInst (s : TsInst) : TsInst × Bool :=
  if trsProcIsResLeak proc s then
    if s.releaseCheck then (trsProcTsResRecycle proc s, true) else (s, false)
  else (s, true)

def trsProcRelease (insts : List TsInst) : List TsInst := insts.map (trsProcReleaseInst proc)

def trsProcRecycle (insts : List TsInst) : List TsInst × Bool :=
  (insts.map fun s => (trsProcRecycleInst proc s).1,
    insts.all fun s => (trsProcRecycleInst proc s).2)

end OpiaiKernel.Trs.Recycle
