import Mathlib.Logic.Function.Basic
import OpiaiKernel.Lib.Machine
import OpiaiKernel.Lib.SwapRemove
import Mathlib.Algebra.Ring.Nat
import Mathlib.Algebra.Ring.Int.Defs

/-!
# The threads of a group

A thread joins its group at its first wait.  The group keeps, for every event
id, the threads that subscribe the event, and how many of these have timed out.
On a scheduled group every thread is bound to the cpu of its first wait.

The functions are translated from `esched.c`; each runs under the lock of the
group.  An array with its number of used entries is a list, and an array over
event ids, cpus or thread ids is a function.  There are as many event ids as a
bitmap has bits, so that a loop over the event ids is one over the bits.
-/

namespace OpiaiKernel.Esched

inductive DrvError
  | paraError
  | noGroup
  | groupExist
  | outOfMemory
  | notSupport
  | threadExceedsSpec
  deriving DecidableEq

inductive GroupType
  | bindDpCpu
  | bindCpCpu
  | bindDpCpuExclusive
  deriving DecidableEq

inductive SchedMode
  | uninit
  | schedCpu
  | nonSchedCpu
  deriving DecidableEq

inductive ThreadStatus
  | idle
  | ready
  | run
  deriving DecidableEq

/-- `struct sched_thread_ctx`. -/
structure SchedThreadCtx where
  valid : Bool
  status : ThreadStatus
  waitFlag : Bool
  timeoutFlag : Bool
  timeoutDetected : Bool
  tid : ℕ
  bindCpuid : ℕ
  kernelTid : ℕ
  subscribeEventBitmap : BitVec 64

/-- `struct sched_event_timeout_info`. -/
structure SchedEventTimeoutInfo where
  timeoutFlag : Bool
  timeoutThreadNum : ℕ
  timeoutTimestamp : ℕ

/-- `struct sched_grp_ctx`. -/
structure SchedGrpCtx where
  schedMode : SchedMode
  isExclusive : Bool
  cfgThreadNum : ℕ
  thread : List ℕ
  threadCtx : ℕ → SchedThreadCtx
  cpuidToTid : ℕ → ℕ
  eventThreadMap : ℕ → List ℕ
  eventTimeoutInfo : ℕ → SchedEventTimeoutInfo

def SCHED_MAX_THREAD_NUM_IN_GRP : ℕ := 1024

/-- Zeroed memory. -/
def zeroThreadCtx : SchedThreadCtx where
  valid := false
  status := .idle
  waitFlag := false
  timeoutFlag := false
  timeoutDetected := false
  tid := 0
  bindCpuid := 0
  kernelTid := 0
  subscribeEventBitmap := 0

/-! ## Creation -/

/-- `alloc` is whether the memory of the arrays is there. -/
def schedProcAddGrp (grp : SchedGrpCtx) (schedMode : GroupType) (threadNum : ℕ) (alloc : Bool) :
    Except DrvError Unit × SchedGrpCtx :=
  if threadNum = 0 ∨ SCHED_MAX_THREAD_NUM_IN_GRP < threadNum then (.error .paraError, grp)
  else if grp.schedMode ≠ .uninit then (.error .groupExist, grp)
  else if alloc = false then (.error .outOfMemory, grp)
  else
    (.ok (), { grp with
      schedMode := if schedMode = .bindCpCpu then .nonSchedCpu else .schedCpu
      isExclusive := schedMode = .bindDpCpuExclusive
      cfgThreadNum := threadNum
      threadCtx := fun _ => zeroThreadCtx
      cpuidToTid := fun _ => threadNum })

/-! ## Subscriptions -/

def setThreadCtx (grp : SchedGrpCtx) (tid : ℕ) (ctx : SchedThreadCtx) : SchedGrpCtx :=
  { grp with threadCtx := Function.update grp.threadCtx tid ctx }

/-- A new thread of an event has not timed out. -/
def clearTimeoutFlag (info : SchedEventTimeoutInfo) : SchedEventTimeoutInfo :=
  { info with timeoutFlag := false, timeoutTimestamp := 0 }

def schedAdjustEventThreadMap (grp : SchedGrpCtx) (tid idx : ℕ) (eventBitmap : BitVec 64) :
    List ℕ × SchedEventTimeoutInfo :=
  if eventBitmap.getLsbD idx = true then
    (grp.eventThreadMap idx ++ [tid], clearTimeoutFlag (grp.eventTimeoutInfo idx))
  else (SwapRemove.swapRemove (grp.eventThreadMap idx) tid, grp.eventTimeoutInfo idx)

def schedAdjustThreadEvent (grp : SchedGrpCtx) (tid : ℕ) (eventBitmap : BitVec 64) : SchedGrpCtx :=
  let cur := (grp.threadCtx tid).subscribeEventBitmap
  { grp with
    eventThreadMap := fun i =>
      if cur.getLsbD i = eventBitmap.getLsbD i then grp.eventThreadMap i
      else (schedAdjustEventThreadMap grp tid i eventBitmap).1
    eventTimeoutInfo := fun i =>
      if cur.getLsbD i = eventBitmap.getLsbD i then grp.eventTimeoutInfo i
      else (schedAdjustEventThreadMap grp tid i eventBitmap).2 }

def schedUpgradeThreadEvent (grp : SchedGrpCtx) (tid : ℕ) : SchedGrpCtx :=
  let eventBitmap := (grp.threadCtx tid).subscribeEventBitmap
  { grp with
    eventThreadMap := fun i =>
      if eventBitmap.getLsbD i = true then grp.eventThreadMap i ++ [tid]
      else grp.eventThreadMap i
    eventTimeoutInfo := fun i =>
      if eventBitmap.getLsbD i = true then clearTimeoutFlag (grp.eventTimeoutInfo i)
      else grp.eventTimeoutInfo i }

def schedThreadSubscribeEventCfg (grp : SchedGrpCtx) (tid : ℕ) (eventBitmap : BitVec 64) :
    SchedGrpCtx :=
  let grp := if (grp.threadCtx tid).valid = true then schedAdjustThreadEvent grp tid eventBitmap
    else grp
  setThreadCtx grp tid { grp.threadCtx tid with subscribeEventBitmap := eventBitmap }

def schedThreadSubscribeEvent (grp : SchedGrpCtx) (tid : ℕ) (eventBitmap : BitVec 64) :
    Except DrvError Unit × SchedGrpCtx :=
  if eventBitmap = 0 then (.error .paraError, grp)
  else if grp.schedMode = .uninit then (.error .noGroup, grp)
  else if grp.cfgThreadNum ≤ tid then (.error .paraError, grp)
  else (.ok (), schedThreadSubscribeEventCfg grp tid eventBitmap)

/-! ## Registration -/

/-- `pid` is the task that waits. -/
def schedGrpAddThread (grp : SchedGrpCtx) (tid cpuid pid : ℕ) :
    Except DrvError Unit × SchedGrpCtx :=
  let bindCpuid := if grp.schedMode = .nonSchedCpu then 0 else cpuid
  if grp.schedMode = .schedCpu ∧ (grp.cpuidToTid bindCpuid ≠ grp.cfgThreadNum ∨
      grp.cfgThreadNum ≤ grp.thread.length) then
    (.error .threadExceedsSpec, grp)
  else
    let grp := setThreadCtx grp tid
      { grp.threadCtx tid with tid, bindCpuid, status := .idle, kernelTid := pid }
    let grp := { grp with cpuidToTid := Function.update grp.cpuidToTid bindCpuid tid }
    let grp := schedUpgradeThreadEvent grp tid
    let grp := setThreadCtx grp tid { grp.threadCtx tid with valid := true }
    (.ok (), { grp with thread := grp.thread ++ [tid] })

/-- A thread that waits again has recovered from its timeout. -/
def schedThreadStatusCheck (grp : SchedGrpCtx) (tid pid : ℕ) : SchedGrpCtx :=
  let ctx := { grp.threadCtx tid with kernelTid := pid }
  if ctx.timeoutFlag = false then setThreadCtx grp tid ctx
  else
    let grp := setThreadCtx grp tid { ctx with timeoutFlag := false, timeoutDetected := false }
    { grp with
      eventTimeoutInfo := fun i =>
        let info := grp.eventTimeoutInfo i
        if ctx.subscribeEventBitmap.getLsbD i = true then
          { timeoutFlag := false
            timeoutThreadNum := (info.timeoutThreadNum + (2 ^ 32 - 1)) % 2 ^ 32
            timeoutTimestamp := 0 }
        else info }

/-- `swapout` is the timeout that only takes the thread from its cpu. -/
def schedThreadUpdate (grp : SchedGrpCtx) (tid cpuid pid : ℕ) (swapout : Bool) :
    Except DrvError Unit × SchedGrpCtx :=
  let ctx := grp.threadCtx tid
  if ctx.waitFlag = true then (.error .threadExceedsSpec, grp)
  else
    let waiting := setThreadCtx grp tid { ctx with waitFlag := !swapout }
    if ctx.valid = true then (.ok (), schedThreadStatusCheck waiting tid pid)
    else
      match schedGrpAddThread waiting tid cpuid pid with
      | (.error e, grp) =>
          (.error e, setThreadCtx grp tid { grp.threadCtx tid with waitFlag := false })
      | (.ok (), grp) => (.ok (), schedThreadStatusCheck grp tid pid)

/-- `sched_wait_event` up to the wait; `cpuid` is the cpu of the caller, if it
is one that schedules. -/
def schedWaitEvent (grp : SchedGrpCtx) (tid : ℕ) (cpuid : Option ℕ) (pid : ℕ) (swapout : Bool) :
    Except DrvError Unit × SchedGrpCtx :=
  match grp.schedMode, cpuid with
  | .uninit, _ => (.error .noGroup, grp)
  | .nonSchedCpu, _ =>
      if swapout = true then (.error .notSupport, grp)
      else if grp.cfgThreadNum ≤ tid then (.error .paraError, grp)
      else schedThreadUpdate grp tid 0 pid swapout
  | .schedCpu, cpuid =>
      if grp.cfgThreadNum ≤ tid then (.error .paraError, grp)
      else
        match cpuid with
        | none => (.error .paraError, grp)
        | some cpuid => schedThreadUpdate grp tid cpuid pid swapout

/-- The wait ends, with an event or without. -/
def schedWaitReturn (grp : SchedGrpCtx) (tid : ℕ) (status : ThreadStatus) : SchedGrpCtx :=
  setThreadCtx grp tid { grp.threadCtx tid with waitFlag := false, status }

/-! ## Timeouts -/

def schedCheckGroupTimeout (grp : SchedGrpCtx) (tid timestamp : ℕ) : SchedGrpCtx :=
  let eventBitmap := (grp.threadCtx tid).subscribeEventBitmap
  { grp with
    eventTimeoutInfo := fun i =>
      let info := grp.eventTimeoutInfo i
      if eventBitmap.getLsbD i = true then
        let timeoutThreadNum := (info.timeoutThreadNum + 1) % 2 ^ 32
        if (grp.eventThreadMap i).length = timeoutThreadNum then
          { timeoutFlag := true, timeoutThreadNum, timeoutTimestamp := timestamp }
        else { info with timeoutThreadNum }
      else info }

/-- `sched_check_thread_timeout` for a thread that ran too long. -/
def schedCheckThreadTimeout (grp : SchedGrpCtx) (tid timestamp : ℕ) : SchedGrpCtx :=
  let ctx := grp.threadCtx tid
  if ctx.timeoutDetected = true ∨ ctx.status ≠ .run then grp
  else
    schedCheckGroupTimeout
      (setThreadCtx grp tid
        { ctx with timeoutDetected := true, timeoutFlag := true, status := .idle })
      tid timestamp

/-! ## The machine -/

inductive GrpOp
  | addGrp (schedMode : GroupType) (threadNum : ℕ) (alloc : Bool)
  | subscribe (tid : ℕ) (eventBitmap : BitVec 64)
  | wait (tid : ℕ) (cpuid : Option ℕ) (pid : ℕ) (swapout : Bool)
  | waitReturn (tid : ℕ) (status : ThreadStatus)
  | timeout (tid timestamp : ℕ)

/-- Only registered threads return from a wait or are found on a cpu. -/
def grpStep (grp : SchedGrpCtx) : GrpOp → Option SchedGrpCtx
  | .addGrp schedMode threadNum alloc => some (schedProcAddGrp grp schedMode threadNum alloc).2
  | .subscribe tid eventBitmap => some (schedThreadSubscribeEvent grp tid eventBitmap).2
  | .wait tid cpuid pid swapout => some (schedWaitEvent grp tid cpuid pid swapout).2
  | .waitReturn tid status =>
      if (grp.threadCtx tid).valid = true then some (schedWaitReturn grp tid status) else none
  | .timeout tid timestamp =>
      if (grp.threadCtx tid).valid = true ∧ grp.schedMode = .schedCpu then
        some (schedCheckThreadTimeout grp tid timestamp)
      else none

/-- The zeroed group of a new process. -/
def zeroGrpCtx : SchedGrpCtx where
  schedMode := .uninit
  isExclusive := false
  cfgThreadNum := 0
  thread := []
  threadCtx := fun _ => zeroThreadCtx
  cpuidToTid := fun _ => 0
  eventThreadMap := fun _ => []
  eventTimeoutInfo := fun _ => ⟨false, 0, 0⟩

def grpMachine : Machine SchedGrpCtx GrpOp where
  init grp := grp = zeroGrpCtx
  step := grpStep

end OpiaiKernel.Esched
