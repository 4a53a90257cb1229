import OpiaiKernel.Errno
import OpiaiKernel.Lib.KeyCount
import OpiaiKernel.Lib.Machine
import OpiaiKernel.Lib.Word
import Mathlib.Data.Fintype.Card
import Mathlib.Tactic.SplitIfs

/-!
# The shared submission queue of an instance

The processes that use the shared queues of an instance have one submission
queue together and a completion queue each.  The instance counts them, and
destroys the channel of the submission queue when the count falls to zero.

The functions are translated from `trs_shm_sqcq.c`, `trs_proc_ts_res_recycle`
from `trs_proc.c`.  Calls follow one another.  What the channel layer, the
mapping and the device answer comes with a call.
-/

namespace OpiaiKernel.Trs

/-- A `pid_t`, which is positive. -/
abbrev Pid := Fin (2 ^ 31)

/-- `struct trs_shm_ctx`. -/
structure TrsShmCtx where
  ref : ℕ
  chanId : ℤ
  sqid : ℕ

/-- `struct trs_proc_shm_ctx`. -/
structure TrsProcShmCtx where
  chanId : ℤ
  cqid : ℕ

/-- The instance, the processes that have it open, with their contexts, and
the channels that exist. -/
structure ShmState where
  stars : Bool
  shm : TrsShmCtx
  procs : List Pid
  proc : Pid → TrsProcShmCtx
  live : ℤ → Bool

/-- A channel that `hal_kernel_trs_chan_create` made, with the id of its queue. -/
structure ShmChan where
  chanId : ℕ
  qid : ℕ

/-- What the calls of an allocation answer. -/
structure ShmAllocEnv where
  sqChan : Except Errno ShmChan
  cqChan : Except Errno ShmChan
  remap : Except Errno Unit
  notice : Except Errno Unit

/-- The arguments of an allocation that are checked. -/
structure ShmAllocPara where
  sqeSize : ℕ
  sqeDepth : ℕ
  cqeSize : ℕ
  cqeDepth : ℕ
  sqQueAddr : ℕ

def trsShmSqeSize : ℕ := 64
def trsShmCqeSize : ℕ := 16
def trsShmSqDepth : ℕ := 1024
def trsShmCqDepth : ℕ := 1024

namespace ShmState

variable {s t : ShmState} {pid : Pid} {k : ℤ}

def setProc (s : ShmState) (pid : Pid) (ctx : TrsProcShmCtx) : ShmState :=
  { s with proc := Function.update s.proc pid ctx }

/-- The shared context of the process has a channel. -/
def attached (s : ShmState) (pid : Pid) : Bool := decide (0 ≤ (s.proc pid).chanId)

def attachedNum (s : ShmState) : ℕ := s.procs.countP s.attached

end ShmState

def trsShmAllocPhySq (s : ShmState) (sqChan : Except Errno ShmChan) :
    ShmState × Except Errno Unit :=
  if 0 < s.shm.ref then
    ({ s with shm := { s.shm with ref := Word.add 32 s.shm.ref 1 } }, .ok ())
  else
    match sqChan with
    | .error e => (s, .error e)
    | .ok c =>
        ({ s with
            shm := { ref := 1, chanId := c.chanId, sqid := c.qid }
            live := Function.update s.live c.chanId true }, .ok ())

def trsShmAllocPhyCq (s : ShmState) (pid : Pid) (cqChan : Except Errno ShmChan) :
    ShmState × Except Errno Unit :=
  if 0 ≤ (s.proc pid).chanId then (s, .error .EEXIST)
  else
    match cqChan with
    | .error e => (s, .error e)
    | .ok c =>
        ({ s.setProc pid { chanId := c.chanId, cqid := c.qid } with
            live := Function.update s.live c.chanId true }, .ok ())

/-- The count is a `u32`. -/
def trsShmFreePhySq (s : ShmState) : ShmState :=
  let ref := Word.sub 32 s.shm.ref 1
  if ref = 0 then
    { s with
      shm := { s.shm with ref := ref, chanId := -1 }
      live := Function.update s.live s.shm.chanId false }
  else { s with shm := { s.shm with ref := ref } }

def trsShmFreePhyCq (s : ShmState) (pid : Pid) : ShmState :=
  if 0 ≤ (s.proc pid).chanId then
    { s.setProc pid { s.proc pid with chanId := -1 } with
      live := Function.update s.live (s.proc pid).chanId false }
  else s

def trsShmSqcqAllocParaCheck (para : ShmAllocPara) : Bool :=
  !(para.sqeSize ≠ trsShmSqeSize || para.sqeDepth ≠ trsShmSqDepth ||
    para.cqeSize ≠ trsShmCqeSize || para.cqeDepth ≠ trsShmCqDepth || para.sqQueAddr = 0)

def trsShmSqcqAlloc (s : ShmState) (pid : Pid) (para : ShmAllocPara) (env : ShmAllocEnv) :
    ShmState × Except Errno Unit :=
  if s.stars then (s, .error .EINVAL)
  else if !trsShmSqcqAllocParaCheck para then (s, .error .EINVAL)
  else
    match trsShmAllocPhySq s env.sqChan with
    | (s, .error e) => (s, .error e)
    | (s, .ok _) =>
        match trsShmAllocPhyCq s pid env.cqChan with
        | (s, .error e) => (trsShmFreePhySq s, .error e)
        | (s, .ok _) =>
            match env.remap, env.notice with
            | .error e, _ => (trsShmFreePhyCq (trsShmFreePhySq s) pid, .error e)
            | .ok _, .error e => (trsShmFreePhyCq (trsShmFreePhySq s) pid, .error e)
            | .ok _, .ok _ => (s, .ok ())

/-- The arguments of a free fit the context of the process. -/
def shmFreeParaCheck (s : ShmState) (pid : Pid) (sqId cqId : ℕ) : Bool :=
  !(s.shm.chanId < 0 || s.shm.sqid ≠ sqId || (s.proc pid).cqid ≠ cqId)

def trsShmSqcqFree (s : ShmState) (pid : Pid) (sqId cqId : ℕ) (notice : Except Errno Unit) :
    ShmState × Except Errno Unit :=
  if !shmFreeParaCheck s pid sqId cqId then (s, .error .EINVAL)
  else
    match notice with
    | .error e => (s, .error e)
    | .ok _ => (trsShmFreePhyCq (trsShmFreePhySq s) pid, .ok ())

def trsShmSqcqRecycle (s : ShmState) (pid : Pid) : ShmState :=
  trsShmFreePhyCq (trsShmFreePhySq s) pid

/-- The part for the shared queues; `check` is the answer of the device. -/
def trsProcTsResRecycle (s : ShmState) (pid : Pid) (check : Except Errno Unit) : ShmState :=
  match check with
  | .error _ => s
  | .ok _ => if 0 ≤ (s.proc pid).chanId then trsShmSqcqRecycle s pid else s

/-- A process opens the instance, allocates, frees, is recycled, and its
context is destroyed when nothing is left of it. -/
inductive ShmOp
  | create (pid : Pid)
  | alloc (pid : Pid) (para : ShmAllocPara) (env : ShmAllocEnv)
  | free (pid : Pid) (sqId cqId : ℕ) (notice : Except Errno Unit)
  | recycle (pid : Pid) (check : Except Errno Unit)
  | destroy (pid : Pid)

def ShmOp.pid : ShmOp → Pid
  | create pid | alloc pid _ _ | free pid _ _ _ | recycle pid _ | destroy pid => pid

/-- The channels that are created are not in use, and are not the same. -/
def ShmAllocEnv.fresh (env : ShmAllocEnv) (live : ℤ → Bool) : Bool :=
  match env.sqChan, env.cqChan with
  | .error _, .error _ => true
  | .ok c, .error _ => !live c.chanId
  | .error _, .ok c => !live c.chanId
  | .ok c, .ok d => !live c.chanId && !live d.chanId && c.chanId ≠ d.chanId

def shmStep (s : ShmState) : ShmOp → Option ShmState
  | .create pid =>
      if pid ∈ s.procs then none
      else some { s.setProc pid { chanId := -1, cqid := 0 } with procs := pid :: s.procs }
  | .alloc pid para env =>
      if pid ∈ s.procs ∧ env.fresh s.live = true then some (trsShmSqcqAlloc s pid para env).1
      else none
  | .free pid sqId cqId notice =>
      if pid ∈ s.procs then some (trsShmSqcqFree s pid sqId cqId notice).1 else none
  | .recycle pid check =>
      if pid ∈ s.procs then some (trsProcTsResRecycle s pid check) else none
  | .destroy pid =>
      if pid ∈ s.procs ∧ (s.proc pid).chanId < 0 then
        some { s with procs := s.procs.erase pid }
      else none

/-- `trs_shm_sqcq_init`, after the instance was zeroed. -/
def shmInit (stars : Bool) : ShmState where
  stars := stars
  shm := { ref := 0, chanId := -1, sqid := 0 }
  procs := []
  proc := fun _ => { chanId := -1, cqid := 0 }
  live := fun _ => false

def shmMachine : Machine ShmState ShmOp where
  init s := ∃ stars, s = shmInit stars
  step := shmStep

end OpiaiKernel.Trs
