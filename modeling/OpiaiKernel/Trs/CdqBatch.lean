import OpiaiKernel.Lib.Machine
import Mathlib.Data.List.Nodup
import Mathlib.Data.List.Range
import Mathlib.Tactic.SplitIfs

/-!
# Allocating the batches of a CDQ

The batches of a queue are allocated in order behind its tail, and the hardware
takes them in order at its head.  A call that finds the queue full gives the
mutex back and waits for the head to move or the queue to go.

The functions are translated from `cdqm_core.c`, for one queue.  A section
under the mutex is one step, and so are the check before it, the end of the
wait and the look at the queue that follows it.  The queue is created by the
local side only, since the messages of the other side are refused.
-/

namespace OpiaiKernel.Trs

/-- The sides that create queues; a zeroed side is neither. -/
inductive CdqSide
  | createByDevice
  | createByHost
  deriving DecidableEq

def maxCdqDepth : ℕ := 64 * 1024

inductive DrvError
  | paraError
  | cdqAbnormal
  | noCdqResources
  | cdqQuit
  | waitTimeout
  | waitInterrupt
  deriving DecidableEq

/-- `struct cdqm_cdq_manage`, with the process and the batches of its
configuration. -/
structure CdqmCdqManage where
  valid : Bool
  createSide : Option CdqSide
  timeOutFlag : Bool
  pid : ℕ
  batchNum : ℕ
  useBatchHead : ℕ
  useBatchTail : ℕ
  recyclePid : ℕ

/-- What `wait_event_interruptible_timeout` answers. -/
inductive WaitEnd
  | timeout
  | interrupted
  | woken
  deriving DecidableEq

/-- Where a call of `cdqm_drv_alloc_batch` is: it passed the check, waits, has
waited, or saw the queue valid after that.  A call that waited keeps the number
of batches that it read, and `gen` tells which queue it read it from. -/
inductive CdqCall
  | checked (timeout : ℤ)
  | waiting (batchNum cdqHead gen : ℕ)
  | waited (ret : WaitEnd) (batchNum gen : ℕ)
  | relock (ret : WaitEnd) (batchNum gen : ℕ)
  deriving DecidableEq

/-- A batch that was handed out: its id, the queue and the tail before and
after, whether the queue was valid and abnormal and which one the call found at
its start. -/
structure CdqHanded where
  batchId : ℕ
  batchNum : ℕ
  tail : ℕ
  newTail : ℕ
  valid : Bool
  abnormal : Bool
  gen : ℕ
  callGen : ℕ

/-- What a call returned, and what it handed out. -/
structure CdqOutcome where
  ret : Except DrvError Unit
  handed : Option CdqHanded

/-- The queue, the ready index of the hardware since it was created, how much
of it the head was told, the ids handed out since then, how many queues were
created, the calls under way and the outcomes of those that returned. -/
structure CdqState where
  cdq : CdqmCdqManage
  rdyIdx : ℕ
  passed : ℕ
  ids : List ℕ
  gen : ℕ
  calls : List CdqCall
  outcomes : List CdqOutcome

def cdqmJudgeCdqFull (cdq : CdqmCdqManage) : Bool :=
  decide (cdq.useBatchHead = (cdq.useBatchTail + 1) % cdq.batchNum)

def cdqmClearCdqMng (cdq : CdqmCdqManage) : CdqmCdqManage :=
  { cdq with valid := false, createSide := none, timeOutFlag := false, pid := 0 }

def cdqmExistCdqParaCheck (cdq : CdqmCdqManage) (pid : ℕ) : Bool :=
  cdq.valid && (cdq.recyclePid ≠ 0 || cdq.pid = pid)

/-- `tsdrv_cdqm_get_cdq_rdy_idx` into the head of the queue. -/
def getCdqRdyIdx (s : CdqState) : CdqState :=
  { s with
    cdq := { s.cdq with useBatchHead := s.rdyIdx % s.cdq.batchNum }
    passed := s.rdyIdx }

/-- The check of the arguments of a creation, as far as it is about batches. -/
def cdqmCreateParaCheck (batchNum batchSize : ℕ) : Bool :=
  !(batchNum > maxCdqDepth || batchSize > maxCdqDepth || batchNum ≤ 1 || batchSize = 0 ||
    batchNum * batchSize > maxCdqDepth)

def cdqmDrvCreateCdq (localSide : CdqSide) (s : CdqState) (pid batchNum batchSize : ℕ)
    (syncOk : Bool) : CdqState :=
  if !cdqmCreateParaCheck batchNum batchSize then s
  else if s.cdq.valid || !syncOk then s
  else
    { s with
      cdq :=
        { valid := true
          createSide := some localSide
          timeOutFlag := false
          pid := pid
          batchNum := batchNum
          useBatchHead := 0
          useBatchTail := 0
          recyclePid := 0 }
      rdyIdx := 0
      passed := 0
      ids := []
      gen := s.gen + 1 }

def cdqmDrvDestroyCdq (localSide : CdqSide) (s : CdqState) (pid : ℕ) (uninitOk : Bool) : CdqState :=
  if !cdqmExistCdqParaCheck s.cdq pid then s
  else if s.cdq.createSide ≠ some localSide then s
  else if !uninitOk then s
  else { s with cdq := cdqmClearCdqMng s.cdq }

/-- One queue of the loop of `cdqm_recycle_cdq`. -/
def cdqmRecycleCdq (localSide : CdqSide) (s : CdqState) (pid : ℕ) (uninitOk : Bool) : CdqState :=
  if s.cdq.pid = pid ∧ s.cdq.valid = true then
    cdqmDrvDestroyCdq localSide { s with cdq := { s.cdq with recyclePid := pid } } pid uninitOk
  else s

def cdqmDrvBatchAbnormal (s : CdqState) : CdqState :=
  if s.cdq.valid then { s with cdq := { s.cdq with timeOutFlag := true } } else s

namespace CdqState

/-- The call returns, without a batch. -/
def finish (s : CdqState) (c : CdqCall) (ret : Except DrvError Unit) : CdqState :=
  { s with calls := s.calls.erase c, outcomes := ⟨ret, none⟩ :: s.outcomes }

def become (s : CdqState) (c c' : CdqCall) : CdqState :=
  { s with calls := c' :: s.calls.erase c }

/-- The last lines of `cdqm_drv_alloc_batch`, for a call that read `batchNum`
from the queue `callGen`. -/
def assign (s : CdqState) (c : CdqCall) (batchNum callGen : ℕ) : CdqState :=
  let tail := (s.cdq.useBatchTail + 1) % batchNum
  { s with
    cdq := { s.cdq with useBatchTail := tail }
    ids := s.ids ++ [s.cdq.useBatchTail]
    calls := s.calls.erase c
    outcomes :=
      { ret := .ok ()
        handed := some
          { batchId := s.cdq.useBatchTail
            batchNum := s.cdq.batchNum
            tail := s.cdq.useBatchTail
            newTail := tail
            valid := s.cdq.valid
            abnormal := s.cdq.timeOutFlag
            gen := s.gen
            callGen := callGen } } :: s.outcomes }

end CdqState

/-- The first section under the mutex.  `ret` is still the answer of the check
when the side does not fit. -/
def allocBatchLocked (localSide : CdqSide) (s : CdqState) (c : CdqCall) (timeout : ℤ) : CdqState :=
  if s.cdq.createSide ≠ some localSide then s.finish c (.ok ())
  else if s.cdq.timeOutFlag then s.finish c (.error .cdqAbnormal)
  else
    let s := getCdqRdyIdx s
    if cdqmJudgeCdqFull s.cdq then
      if timeout = 0 then s.finish c (.error .noCdqResources)
      else s.become c (.waiting s.cdq.batchNum s.cdq.useBatchHead s.gen)
    else s.assign c s.cdq.batchNum s.gen

/-- The section after the wait. -/
def allocBatchRelocked (s : CdqState) (c : CdqCall) (ret : WaitEnd) (batchNum gen : ℕ) :
    CdqState :=
  match ret with
  | .timeout => s.finish c (.error .waitTimeout)
  | .interrupted => s.finish c (.error .waitInterrupt)
  | .woken => s.assign c batchNum gen

/-- Creation, destruction, recycling and marking of the queue, the hardware
taking a batch, the interrupt, and the steps of the calls. -/
inductive CdqOp
  | create (pid batchNum batchSize : ℕ) (syncOk : Bool)
  | destroy (pid : ℕ) (uninitOk : Bool)
  | recycle (pid : ℕ) (uninitOk : Bool)
  | abnormal
  | advance
  | refresh
  | check (pid : ℕ) (timeout : ℤ)
  | lock (timeout : ℤ)
  | wake (batchNum cdqHead gen : ℕ) (ret : WaitEnd)
  | recheck (ret : WaitEnd) (batchNum gen : ℕ)
  | relock (ret : WaitEnd) (batchNum gen : ℕ)

/-- The condition of the wait. -/
def cdqWaitCond (s : CdqState) (cdqHead : ℕ) : Bool :=
  !s.cdq.valid || s.cdq.useBatchHead ≠ cdqHead

def cdqStep (localSide : CdqSide) (s : CdqState) : CdqOp → Option CdqState
  | .create pid batchNum batchSize syncOk =>
      some (cdqmDrvCreateCdq localSide s pid batchNum batchSize syncOk)
  | .destroy pid uninitOk => some (cdqmDrvDestroyCdq localSide s pid uninitOk)
  | .recycle pid uninitOk => some (cdqmRecycleCdq localSide s pid uninitOk)
  | .abnormal => some (cdqmDrvBatchAbnormal s)
  | .advance =>
      -- the hardware takes only what was handed out
      if s.rdyIdx < s.ids.length then some { s with rdyIdx := s.rdyIdx + 1 } else none
  | .refresh => some (getCdqRdyIdx s)
  | .check pid timeout =>
      if cdqmExistCdqParaCheck s.cdq pid then
        some { s with calls := .checked timeout :: s.calls }
      else some { s with outcomes := ⟨.error .paraError, none⟩ :: s.outcomes }
  | .lock timeout =>
      if .checked timeout ∈ s.calls then
        some (allocBatchLocked localSide s (.checked timeout) timeout)
      else none
  | .wake batchNum cdqHead gen ret =>
      if .waiting batchNum cdqHead gen ∈ s.calls ∧
          (ret = .woken → cdqWaitCond s cdqHead = true) then
        some (s.become (.waiting batchNum cdqHead gen) (.waited ret batchNum gen))
      else none
  | .recheck ret batchNum gen =>
      if .waited ret batchNum gen ∈ s.calls then
        if !s.cdq.valid then some (s.finish (.waited ret batchNum gen) (.error .cdqQuit))
        else some (s.become (.waited ret batchNum gen) (.relock ret batchNum gen))
      else none
  | .relock ret batchNum gen =>
      if .relock ret batchNum gen ∈ s.calls then
        some (allocBatchRelocked s (.relock ret batchNum gen) ret batchNum gen)
      else none

/-- The zeroed queue, before its first creation. -/
def cdqInit : CdqState where
  cdq :=
    { valid := false
      createSide := none
      timeOutFlag := false
      pid := 0
      batchNum := 0
      useBatchHead := 0
      useBatchTail := 0
      recyclePid := 0 }
  rdyIdx := 0
  passed := 0
  ids := []
  gen := 0
  calls := []
  outcomes := []

/-- The driver of the host or of the device. -/
def cdqMachine (localSide : CdqSide) : Machine CdqState CdqOp where
  init s := s = cdqInit
  step := cdqStep localSide

end OpiaiKernel.Trs
