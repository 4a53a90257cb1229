import OpiaiKernel.Lib.Machine
import Mathlib.Data.Int.Notation
import Mathlib.Data.List.Count
import Mathlib.Data.List.Nodup
import Mathlib.Data.List.Perm.Basic
import Mathlib.Logic.Function.Basic
import Mathlib.Tactic.SplitIfs

/-!
# The lifetime of a process context

A process context is found by its pid in the hash table of the node.  The table
holds a reference, and so does everyone who found the context and has not put
it back.  Who drops the last reference frees the context.

The functions are translated from `esched.h` and `esched.c`.  Processes are
added and deleted under the mutex of the node; each access to the table, to the
status and to a counter is a step of its own, between which lookups and puts
run.  A context that was counted down to zero waits for the release work or for
the thread that frees it.
-/

namespace OpiaiKernel.Esched

/-- `struct sched_proc_ctx`; `valid` is its status. -/
structure SchedProcCtx where
  pid : ℤ
  valid : Bool
  refcnt : ℤ

/-- What the holder of `proc_mng_mutex` does next, and to which context. -/
inductive ProcMng
  | unlocked
  | addRepeat (c : ℕ)
  | addNew (c : ℕ)
  | addCounted (c : ℕ)
  | delFound (c : ℕ)
  | delInvalid (c : ℕ)
  | delUnlinked (c : ℕ)
  deriving DecidableEq

/-- The contexts that were allocated, numbered; those in the hash table, the
latest first; the gets of threads without the mutex; the contexts that were
counted down, that left the list of deleted processes, and that were freed. -/
structure ProcState where
  ctx : ℕ → SchedProcCtx
  used : ℕ
  procHashTable : List ℕ
  mng : ProcMng
  got : List ℕ
  releasing : List ℕ
  exiting : List ℕ
  freed : List ℕ

/-- The gets that the holder of the mutex has outstanding. -/
def ProcMng.got : ProcMng → List ℕ
  | .unlocked | .addNew _ | .addCounted _ => []
  | .addRepeat c | .delFound c | .delInvalid c | .delUnlinked c => [c]

/-- A context that is counted for the table before it is linked or after it is
unlinked. -/
def ProcMng.counted : ProcMng → List ℕ
  | .addCounted c | .delUnlinked c => [c]
  | _ => []

namespace ProcState

def setCtx (s : ProcState) (c : ℕ) (ctx : SchedProcCtx) : ProcState :=
  { s with ctx := Function.update s.ctx c ctx }

/-- `atomic_inc` and `atomic_dec` of the reference counter. -/
def addRefcnt (s : ProcState) (c : ℕ) (n : ℤ) : ProcState :=
  s.setCtx c { s.ctx c with refcnt := (s.ctx c).refcnt + n }

end ProcState

def schedGetProcCtx (s : ProcState) (pid : ℤ) : Option ℕ :=
  s.procHashTable.find? fun c => (s.ctx c).pid = pid

/-- The context that `esched_proc_get` counts, under the lock of the bucket. -/
def eschedProcFind (s : ProcState) (pid : ℤ) : Option ℕ :=
  (schedGetProcCtx s pid).filter fun c => (s.ctx c).valid

/-- `esched_proc_put`: the context is freed, here or by the release work, when
no reference is left. -/
def eschedProcPut (s : ProcState) (c : ℕ) : ProcState :=
  let s := s.addRefcnt c (-1)
  if 0 < (s.ctx c).refcnt then s else { s with releasing := c :: s.releasing }

/-- A lookup, its put, the steps of `sched_add_process`, of
`sched_del_process` and of `sched_free_process`. -/
inductive ProcOp
  | get (pid : ℤ)
  | put (c : ℕ)
  | add (pid : ℤ) (mem : Bool)
  | addPut
  | addCount
  | addLink
  | del (pid : ℤ)
  | delMark
  | delUnlink
  | delUncount
  | freeUnlist (c : ℕ)
  | free (c : ℕ)

def procStep (s : ProcState) : ProcOp → Option ProcState
  | .get pid =>
      match eschedProcFind s pid with
      | none => some s
      | some c => some { s.addRefcnt c 1 with got := c :: s.got }
  | .put c =>
      if c ∈ s.got then some (eschedProcPut { s with got := s.got.erase c } c) else none
  | .add pid mem =>
      if s.mng = .unlocked then
        match eschedProcFind s pid with
        | some c => some { s.addRefcnt c 1 with mng := .addRepeat c }
        | none =>
            if mem then
              some { s.setCtx s.used { pid := pid, valid := true, refcnt := 0 } with
                used := s.used + 1
                mng := .addNew s.used }
            else some s
      else none
  | .addPut =>
      match s.mng with
      | .addRepeat c => some (eschedProcPut { s with mng := .unlocked } c)
      | _ => none
  | .addCount =>
      match s.mng with
      | .addNew c => some { s.addRefcnt c 1 with mng := .addCounted c }
      | _ => none
  | .addLink =>
      match s.mng with
      | .addCounted c => some { s with procHashTable := c :: s.procHashTable, mng := .unlocked }
      | _ => none
  | .del pid =>
      if s.mng = .unlocked then
        match eschedProcFind s pid with
        | some c => some { s.addRefcnt c 1 with mng := .delFound c }
        | none => some s
      else none
  | .delMark =>
      match s.mng with
      | .delFound c =>
          some { s.setCtx c { s.ctx c with valid := false } with mng := .delInvalid c }
      | _ => none
  | .delUnlink =>
      match s.mng with
      | .delInvalid c =>
          some { s with procHashTable := s.procHashTable.erase c, mng := .delUnlinked c }
      | _ => none
  | .delUncount =>
      -- the caller gives the mutex back and puts the context later
      match s.mng with
      | .delUnlinked c =>
          some { s.addRefcnt c (-1) with mng := .unlocked, got := c :: s.got }
      | _ => none
  | .freeUnlist c =>
      if s.mng = .unlocked ∧ c ∈ s.releasing then
        some { s with releasing := s.releasing.erase c, exiting := c :: s.exiting }
      else none
  | .free c =>
      if c ∈ s.exiting then
        some { s with exiting := s.exiting.erase c, freed := c :: s.freed }
      else none

def procInit : ProcState where
  ctx := fun _ => { pid := 0, valid := false, refcnt := 0 }
  used := 0
  procHashTable := []
  mng := .unlocked
  got := []
  releasing := []
  exiting := []
  freed := []

def procMachine : Machine ProcState ProcOp where
  init s := s = procInit
  step := procStep

end OpiaiKernel.Esched
