import OpiaiKernel.Lib.Machine
import Mathlib.Data.Int.Notation
import Mathlib.Data.List.Count
import Mathlib.Data.List.Range
import Mathlib.Logic.Function.Basic
import Mathlib.Tactic.SplitIfs

/-!
# The owners of resource ids

A process that allocates a resource id owns it with one reference.  Others take
references to an id that is owned and not being freed.  Whoever drops the last
reference gives the id back to its allocator.

The functions are translated from `trs_proc.c` and `trs_res_mng.c`.  A section
under the mutex of a resource type is one step, together with the update of the
counter of the process next to it, so that a free, a put and an allocation of
any processes interleave.  The allocator hands out ids that it has; a holder
puts what it got.
-/

namespace OpiaiKernel.Trs

def trsHwSq : ℕ := 5

/-- A resource: its type and its id. -/
abbrev TrsRes := ℕ × ℕ

instance : LawfulBEq TrsRes := inferInstanceAs (LawfulBEq (ℕ × ℕ))

/-- A process by its pid and its task id. -/
structure TrsProc where
  pid : ℕ
  taskId : ℕ
  deriving DecidableEq

inductive ResStatus
  | normal
  | del
  deriving DecidableEq

/-- `struct trs_res_ids`. -/
structure TrsResIds where
  status : ResStatus
  taskId : ℕ
  pid : ℕ
  ref : ℤ

/-- The managers of the resource types and the counters of the processes; the
ids that the allocator handed out, the allocations that have an id and did not
enter it, the frees that marked an id and hold its reference, the gets, and the
ids on their way back to the allocator. -/
structure ResState where
  maxId : ℕ → ℕ
  useNum : ℕ → ℤ
  ids : TrsRes → TrsResIds
  currentIdNum : TrsProc → ℕ → ℤ
  out : List TrsRes
  pending : List (TrsProc × TrsRes)
  freeing : List TrsRes
  gets : List TrsRes
  returning : List TrsRes

namespace ResState

variable (s : ResState)

def setIds (res : TrsRes) (ids : TrsResIds) : ResState :=
  { s with ids := Function.update s.ids res ids }

def addUseNum (resType : ℕ) (n : ℤ) : ResState :=
  { s with useNum := Function.update s.useNum resType (s.useNum resType + n) }

def addCurrentIdNum (proc : TrsProc) (resType : ℕ) (n : ℤ) : ResState :=
  { s with
    currentIdNum := Function.update s.currentIdNum proc
      (Function.update (s.currentIdNum proc) resType (s.currentIdNum proc resType + n)) }

end ResState

def trsIsIdPidMatch (id : TrsResIds) (proc : TrsProc) : Bool :=
  id.pid = proc.pid && id.taskId = proc.taskId && id.status = .normal

def trsIsResPidMatch (s : ResState) (proc : TrsProc) (res : TrsRes) : Bool :=
  res.2 < s.maxId res.1 && trsIsIdPidMatch (s.ids res) proc

/-- The section of `trs_res_get`. -/
def trsResGet (s : ResState) (proc : TrsProc) (res : TrsRes) : Option ResState :=
  if trsIsResPidMatch s proc res then
    some (s.setIds res { s.ids res with ref := (s.ids res).ref + 1 })
  else none

/-- The section of `trs_res_put`; when it answers zero, the caller gives the id
back. -/
def trsResPut (s : ResState) (res : TrsRes) : ResState :=
  if s.maxId res.1 ≤ res.2 then s
  else if (s.ids res).ref = 0 then s
  else
    let ref := (s.ids res).ref - 1
    if ref ≤ 0 then
      { (s.setIds res { s.ids res with ref := ref, pid := 0 }).addUseNum res.1 (-1) with
        returning := res :: s.returning }
    else s.setIds res { s.ids res with ref := ref }

/-- An id that was not entered is given back. -/
def trsProcAddRes (s : ResState) (proc : TrsProc) (res : TrsRes) : ResState :=
  if s.maxId res.1 ≤ res.2 ∨ (s.ids res).pid ≠ 0 then { s with out := s.out.erase res }
  else
    ((s.setIds res { status := .normal, taskId := proc.taskId, pid := proc.pid, ref := 1 }).addUseNum
      res.1 1).addCurrentIdNum proc res.1 1

/-- `trs_proc_del_res` up to its put. -/
def trsProcDelRes (s : ResState) (proc : TrsProc) (res : TrsRes) : ResState :=
  if trsIsResPidMatch s proc res then
    { (s.setIds res { s.ids res with status := .del }).addCurrentIdNum proc res.1 (-1) with
      freeing := res :: s.freeing }
  else s

/-- The parts of `trs_res_id_alloc`, of `trs_res_id_free`, `trs_res_id_get`,
the put of a free and `trs_res_id_put`, and the return of an id. -/
inductive ResOp
  | alloc (proc : TrsProc) (res : TrsRes) (notice : Bool)
  | addRes (proc : TrsProc) (res : TrsRes)
  | free (proc : TrsProc) (res : TrsRes)
  | freePut (res : TrsRes)
  | get (proc : TrsProc) (res : TrsRes)
  | put (res : TrsRes)
  | giveBack (res : TrsRes)

def resStep (s : ResState) : ResOp → Option ResState
  | .alloc proc res notice =>
      if proc.pid ≠ 0 ∧ res ∉ s.out then
        if notice then some { s with out := res :: s.out, pending := (proc, res) :: s.pending }
        else some s
      else none
  | .addRes proc res =>
      if (proc, res) ∈ s.pending then
        some (trsProcAddRes { s with pending := s.pending.erase (proc, res) } proc res)
      else none
  | .free proc res => if proc.pid ≠ 0 then some (trsProcDelRes s proc res) else none
  | .freePut res =>
      if res ∈ s.freeing then some (trsResPut { s with freeing := s.freeing.erase res } res)
      else none
  | .get proc res =>
      if proc.pid ≠ 0 then
        if trsHwSq ≤ res.1 then some s
        else
          match trsResGet s proc res with
          | none => some s
          | some t => some { t with gets := res :: t.gets }
      else none
  | .put res =>
      if res ∈ s.gets then some (trsResPut { s with gets := s.gets.erase res } res) else none
  | .giveBack res =>
      if res ∈ s.returning then
        some { s with returning := s.returning.erase res, out := s.out.erase res }
      else none

def resInit (maxId : ℕ → ℕ) : ResState where
  maxId := maxId
  useNum := fun _ => 0
  ids := fun _ => { status := .normal, taskId := 0, pid := 0, ref := 0 }
  currentIdNum := fun _ _ => 0
  out := []
  pending := []
  freeing := []
  gets := []
  returning := []

def resMachine : Machine ResState ResOp where
  init s := ∃ maxId, s = resInit maxId
  step := resStep

end OpiaiKernel.Trs
