import OpiaiKernel.Xsmem.Pool

/-!
# The xsmem framework

Tasks register pools, attach to them and release them; a pool lives as long as
it has references.  The state is what the module keeps between the system
calls: the tasks by `uid`, the pools by address, the idr from pool ids to
pools, the hash table of keys and the bitmaps of block ids.  Addresses are not
used again, so that a stale pointer would be seen as one.

The functions are translated from `xsmem_framework.c`, `xsmem_res_idr.c` and
`xsmem_ns_adapt.c` under their own names.  Every ioctl is one step, except that
an attach may block; the reference it holds meanwhile is in `attaching`.  What
the environment decides is an argument: allocation failures, the process that
makes a call, and `env`, which resolves the call of `xsm_block_free` for the
pool and the offset.
-/

namespace OpiaiKernel.Xsmem

structure XsmTask where
  pid : ℕ
  attachedPoolCount : ℤ
  poolNum : ℤ
  nodeListHead : List ℕ
  registerXpListHead : List ℕ
  deriving DecidableEq

/-- A blocked attach: its task, its pool and the process that made the call. -/
structure AttachWait where
  uid : ℕ
  xp : ℕ
  tgid : ℕ
  deriving DecidableEq

structure XsmemState (σ : Type) where
  tasks : ℕ → Option XsmTask
  taskTable : List ℕ
  uniProcessId : ℕ
  pools : ℕ → Option (XsmPool σ)
  nextXp : ℕ
  xsmemIdr : ℕ → Option ℕ
  nextXsmemId : ℕ
  xsmemKeyList : List ℕ
  blockid : ℕ → ℕ → Bool
  attaching : List AttachWait

def MAX_XP_NUM_OF_TASK : ℤ := 32

def XSMEM_MAX_ID : ℕ := 2 ^ 14

variable {σ ε : Type}

namespace XsmemState

def setTask (s : XsmemState σ) (uid : ℕ) (task : XsmTask) : XsmemState σ :=
  { s with tasks := Function.update s.tasks uid (some task) }

def setPool (s : XsmemState σ) (h : ℕ) (xp : XsmPool σ) : XsmemState σ :=
  { s with pools := Function.update s.pools h (some xp) }

/-- A pool with the bitmap of its namespace. -/
def view (s : XsmemState σ) (xp : XsmPool σ) : PoolView σ := ⟨xp, s.blockid xp.mntNs⟩

def setView (s : XsmemState σ) (h : ℕ) (v : PoolView σ) : XsmemState σ :=
  { s with
    pools := Function.update s.pools h (some v.xp)
    blockid := Function.update s.blockid v.xp.mntNs v.blockid }

@[simp] theorem setPool_pools (s : XsmemState σ) (h : ℕ) (xp : XsmPool σ) :
    (s.setPool h xp).pools h = some xp := Function.update_self ..

end XsmemState

/-! ## Ids and keys of pools -/

/-- The smallest unused id of the range. -/
def idrAlloc (idr : ℕ → Option ℕ) (start stop : ℕ) : Option ℕ :=
  (List.range' start (stop - start)).find? fun id => (idr id).isNone

def xsmemIdrAllocId (s : XsmemState σ) : Option ℕ :=
  match idrAlloc s.xsmemIdr s.nextXsmemId XSMEM_MAX_ID with
  | some id => some id
  | none => if s.nextXsmemId ≠ 0 then idrAlloc s.xsmemIdr 0 s.nextXsmemId else none

def xsmemPoolHnodeFind (s : XsmemState σ) (key : String) : Option ℕ :=
  s.xsmemKeyList.find? fun h => (s.pools h).any fun xp => xp.key = key

/-- The key of a pool carries the namespace. -/
def xsmemStrcatWithNs (key : String) (ns : ℕ) : String := key ++ "_" ++ toString ns

/-! ## The references of a pool -/

def xsmemPoolGet (s : XsmemState σ) (poolId : ℕ) : Option (ℕ × XsmemState σ) :=
  match s.xsmemIdr poolId with
  | none => none
  | some h =>
      match s.pools h with
      | none => none
      | some xp => some (h, s.setPool h { xp with refcnt := xp.refcnt + 1 })

def xsmemPoolDelete (A : PoolAlgo σ ε) (env : ℕ → ε) (s : XsmemState σ) (h : ℕ) (xp : XsmPool σ) :
    XsmemState σ :=
  { s with
    pools := Function.update s.pools h none
    blockid := Function.update s.blockid xp.mntNs (xsmemClearBlock A env (s.view xp)).blockid
    xsmemKeyList := s.xsmemKeyList.erase h
    xsmemIdr := Function.update s.xsmemIdr xp.poolId none }

def xsmemPoolPut (A : PoolAlgo σ ε) (env : ℕ → ℕ → ε) (s : XsmemState σ) (h : ℕ) : XsmemState σ :=
  match s.pools h with
  | none => s
  | some xp =>
      if xp.refcnt - 1 ≠ 0 then s.setPool h { xp with refcnt := xp.refcnt - 1 }
      else xsmemPoolDelete A (env h) s h { xp with refcnt := xp.refcnt - 1 }

/-! ## Register -/

/-- The new pool has no reference yet; `kzalloc` stands for the memory and for
the number of pools that the namespace allows. -/
def xsmemPoolCreate (A : PoolAlgo σ ε) (s : XsmemState σ) (tgid ns : ℕ) (key : String)
    (poolSize : ℕ) (kzalloc : Bool) : Except Errno ℕ × XsmemState σ :=
  if kzalloc = false then (.error .ENOMEM, s)
  else
    match A.xsmPoolInit poolSize with
    | none => (.error .EINVAL, s)
    | some priv =>
        match xsmemIdrAllocId s with
        | none => (.error .ENOSPC, s)
        | some id =>
            let xp : XsmPool σ :=
              { poolId := id, refcnt := 0, nodeListHead := [], blockRoot := [], priv
                allocSize := 0, realAllocSize := 0, createPid := tgid
                addingTaskListHead := [], mntNs := ns, key }
            (.ok s.nextXp,
              { s.setPool s.nextXp xp with
                nextXp := s.nextXp + 1
                xsmemIdr := Function.update s.xsmemIdr id (some s.nextXp)
                nextXsmemId := (id + 1) % XSMEM_MAX_ID
                xsmemKeyList := s.nextXp :: s.xsmemKeyList })

def xsmemPoolRegister (A : PoolAlgo σ ε) (s : XsmemState σ) (tgid ns : ℕ) (key : String)
    (poolSize : ℕ) (kzalloc : Bool) : Except Errno ℕ × XsmemState σ :=
  match xsmemPoolHnodeFind s key with
  | some _ => (.error .EEXIST, s)
  | none =>
      match xsmemPoolCreate A s tgid ns key poolSize kzalloc with
      | (.error e, s) => (.error e, s)
      | (.ok h, s) =>
          match s.pools h with
          | none => (.ok h, s)
          | some xp => (.ok h, s.setPool h { xp with refcnt := xp.refcnt + 1 })

/-- The count `pool_num` is raised first and lowered again by a failure. -/
def ioctlXsmemPoolRegister (A : PoolAlgo σ ε) (s : XsmemState σ) (uid : ℕ) (task : XsmTask)
    (tgid ns : ℕ) (key : String) (poolSize : ℕ) (kzalloc : Bool) : Except Errno ℕ × XsmemState σ :=
  if MAX_XP_NUM_OF_TASK < task.poolNum + 1 then (.error .ENOMEM, s)
  else
    match xsmemPoolRegister A s tgid ns (xsmemStrcatWithNs key ns) poolSize kzalloc with
    | (.error e, s) => (.error e, s)
    | (.ok h, s) =>
        (.ok h, s.setTask uid
          { task with
            poolNum := task.poolNum + 1
            registerXpListHead := task.registerXpListHead ++ [h] })

/-! ## Detach and unregister -/

/-- `task_pool_node_find` -/
def taskPoolNodeFind (s : XsmemState σ) (uid h : ℕ) : Option TaskPoolNode :=
  match s.tasks uid, s.pools h with
  | some task, some xp =>
      if h ∈ task.nodeListHead then Keyed.get TaskPoolNode.task uid xp.nodeListHead else none
  | _, _ => none

def taskDetached (task : XsmTask) (h createPid : ℕ) : XsmTask :=
  { task with
    attachedPoolCount := task.attachedPoolCount - 1
    nodeListHead := task.nodeListHead.erase h
    poolNum := if createPid ≠ task.pid then task.poolNum - 1 else task.poolNum }

def xsmemPoolTaskDetach (A : PoolAlgo σ ε) (env : ℕ → ℕ → ε) (s : XsmemState σ) (uid h : ℕ) :
    XsmemState σ :=
  match s.tasks uid, s.pools h with
  | some task, some xp =>
      let v := xsmemTaskClearBlock A (env h) (s.view xp) uid
      let s := s.setView h { v with xp := poolNodeDel v.xp uid }
      xsmemPoolPut A env (s.setTask uid (taskDetached task h xp.createPid)) h
  | _, _ => s

def xsmemPoolDetach (A : PoolAlgo σ ε) (env : ℕ → ℕ → ε) (s : XsmemState σ) (uid h : ℕ) :
    Except Errno Unit × XsmemState σ :=
  match taskPoolNodeFind s uid h with
  | none => (.error .ESRCH, s)
  | some _ => (.ok (), xsmemPoolTaskDetach A env s uid h)

/-- The pool leaves the list of the task, `pool_num` is lowered and the
reference of the registration is put. -/
def xsmemTaskUnregisterPool (A : PoolAlgo σ ε) (env : ℕ → ℕ → ε) (s : XsmemState σ) (uid h : ℕ) :
    XsmemState σ :=
  match s.tasks uid with
  | none => s
  | some task =>
      xsmemPoolPut A env
        (s.setTask uid
          { task with
            poolNum := task.poolNum - 1
            registerXpListHead := task.registerXpListHead.erase h }) h

def ioctlXsmemPoolUnregister (A : PoolAlgo σ ε) (env : ℕ → ℕ → ε) (s : XsmemState σ) (uid : ℕ)
    (task : XsmTask) (poolId : ℕ) : Except Errno Unit × XsmemState σ :=
  match task.registerXpListHead.find? fun h => (s.pools h).any fun xp => xp.poolId = poolId with
  | none => (.error .ENODEV, s)
  | some h => (.ok (), xsmemTaskUnregisterPool A env (xsmemPoolDetach A env s uid h).2 uid h)

def ioctlXsmemPoolDetach (A : PoolAlgo σ ε) (env : ℕ → ℕ → ε) (s : XsmemState σ) (uid poolId : ℕ) :
    Except Errno Unit × XsmemState σ :=
  match xsmemPoolGet s poolId with
  | none => (.error .ENODEV, s)
  | some (h, s) =>
      let (ret, s) := xsmemPoolDetach A env s uid h
      (ret, xsmemPoolPut A env s h)

/-! ## Adding a task -/

def xsmemIsTaskHasAdmin (s : XsmemState σ) (uid : ℕ) (task : XsmTask) (h : ℕ) (xp : XsmPool σ) :
    Bool :=
  match taskPoolNodeFind s uid h with
  | none => xp.createPid = task.pid
  | some node => node.attr.admin

/-- `vpid` is the process that `xsmem_get_tgid_by_vpid` finds. -/
def ioctlXsmemPoolTaskCommon (A : PoolAlgo σ ε) (env : ℕ → ℕ → ε) (s : XsmemState σ) (uid : ℕ)
    (task : XsmTask) (poolId : ℕ) (vpid : Except Errno ℕ)
    (op : XsmPool σ → ℕ → Except Errno Unit × XsmPool σ) : Except Errno Unit × XsmemState σ :=
  match xsmemPoolGet s poolId with
  | none => (.error .EINVAL, s)
  | some (h, s) =>
      match s.pools h with
      | none => (.error .EINVAL, s)
      | some xp =>
          if xsmemIsTaskHasAdmin s uid task h xp = false then
            (.error .EINVAL, xsmemPoolPut A env s h)
          else
            match vpid with
            | .error e => (.error e, xsmemPoolPut A env s h)
            | .ok pid => ((op xp pid).1, xsmemPoolPut A env (s.setPool h (op xp pid).2) h)

/-- `task_exit_notify`: a process that exits is no longer being added. -/
def taskExitNotify (s : XsmemState σ) (pid : ℕ) : XsmemState σ :=
  { s with pools := fun h => (s.pools h).map fun xp => (xsmemPoolTaskDel xp pid).2 }

/-! ## Attach -/

/-- `xsmem_pool_attach` from the point where the task was found among the tasks
being added; `permAdd` is the result of `xsm_pool_perm_add`. -/
def xsmemPoolAttachFound (s : XsmemState σ) (uid h : ℕ) (task : XsmTask) (xp : XsmPool σ)
    (addingTask : AddingTask) (permAdd : Except Errno Unit) (kmalloc : Bool) :
    Except Errno Unit × XsmemState σ :=
  let xp := xsmemPoolAddingTaskDel xp addingTask
  match permAdd with
  | .error e => (.error e, s.setPool h xp)
  | .ok () =>
      if xp.createPid ≠ task.pid ∧ MAX_XP_NUM_OF_TASK < task.poolNum + 1 then
        (.error .ENOMEM, s.setPool h xp)
      else if h ∈ task.nodeListHead then (.error .ESRCH, s.setPool h xp)
      else if kmalloc = false then (.error .ENOMEM, s.setPool h xp)
      else
        let xp := poolNodeAdd xp uid task.pid addingTask.attr
        (.ok (), (s.setPool h { xp with refcnt := xp.refcnt + 1 }).setTask uid
          { task with
            attachedPoolCount := task.attachedPoolCount + 1
            nodeListHead := task.nodeListHead ++ [h]
            poolNum := if xp.createPid ≠ task.pid then task.poolNum + 1 else task.poolNum })

/-- Without a task to add the call fails at once or blocks. -/
def ioctlXsmemPoolAttach (A : PoolAlgo σ ε) (env : ℕ → ℕ → ε) (s : XsmemState σ) (uid tgid : ℕ)
    (task : XsmTask) (poolId timeout : ℕ) (permAdd : Except Errno Unit) (kmalloc : Bool) :
    Except Errno Unit × XsmemState σ :=
  match xsmemPoolGet s poolId with
  | none => (.error .ENODEV, s)
  | some (h, s) =>
      if h ∈ task.nodeListHead then (.error .ESRCH, xsmemPoolPut A env s h)
      else
        match s.pools h with
        | none => (.error .ENODEV, s)
        | some xp =>
            match xsmemPoolAddingTaskFind xp tgid with
            | some addingTask =>
                let (ret, s) := xsmemPoolAttachFound s uid h task xp addingTask permAdd kmalloc
                (ret, xsmemPoolPut A env s h)
            | none =>
                if timeout = 0 then (.error .EINVAL, xsmemPoolPut A env s h)
                else (.error .EAGAIN, { s with attaching := ⟨uid, h, tgid⟩ :: s.attaching })

/-- A blocked attach looks again and finds its task. -/
def attachWake (A : PoolAlgo σ ε) (env : ℕ → ℕ → ε) (s : XsmemState σ) (w : AttachWait)
    (permAdd : Except Errno Unit) (kmalloc : Bool) : Option (XsmemState σ) :=
  match s.tasks w.uid, s.pools w.xp with
  | some task, some xp =>
      (xsmemPoolAddingTaskFind xp w.tgid).map fun addingTask =>
        let s := { s with attaching := s.attaching.erase w }
        xsmemPoolPut A env
          (xsmemPoolAttachFound s w.uid w.xp task xp addingTask permAdd kmalloc).2 w.xp
  | _, _ => none

/-- A blocked attach times out or is interrupted. -/
def attachGiveUp (A : PoolAlgo σ ε) (env : ℕ → ℕ → ε) (s : XsmemState σ) (w : AttachWait) : XsmemState σ :=
  xsmemPoolPut A env { s with attaching := s.attaching.erase w } w.xp

/-! ## Blocks -/

/-- `ioctl_xsmem_block_common` around one of the operations on blocks. -/
def ioctlXsmemBlockCommon {α : Type} (A : PoolAlgo σ ε) (env : ℕ → ℕ → ε) (s : XsmemState σ)
    (uid poolId : ℕ) (op : ℕ → PoolView σ → TaskPoolNode → Except Errno α × PoolView σ) :
    Except Errno α × XsmemState σ :=
  match xsmemPoolGet s poolId with
  | none => (.error .EINVAL, s)
  | some (h, s) =>
      match s.pools h, taskPoolNodeFind s uid h with
      | some xp, some node =>
          let (ret, v) := op h (s.view xp) node
          (ret, xsmemPoolPut A env (s.setView h v) h)
      | _, _ => (.error .EINVAL, xsmemPoolPut A env s h)

/-- The loop of `ioctl_xsmem_block_get` over the nodes of the task; the result
ends with the id of the pool. -/
def ioctlXsmemBlockGet (s : XsmemState σ) (uid offset : ℕ) (kmalloc : Bool) :
    List ℕ → Except Errno (ℕ × ℕ × ℕ × ℕ) × XsmemState σ
  | [] => (.error .ENODEV, s)
  | h :: hs =>
      match s.pools h, taskPoolNodeFind s uid h with
      | some xp, some node =>
          match xsmemPoolBlockGet kmalloc xp node offset with
          | (.ok (size, off, id), xp') => (.ok (size, off, id, xp.poolId), s.setPool h xp')
          | (.error _, _) => ioctlXsmemBlockGet s uid offset kmalloc hs
      | _, _ => ioctlXsmemBlockGet s uid offset kmalloc hs

/-! ## Open and release -/

def xsmTaskFind (s : XsmemState σ) (pid : ℕ) : Option ℕ :=
  s.taskTable.find? fun uid => (s.tasks uid).any fun task => task.pid = pid

def xsmemOpen (s : XsmemState σ) (tgid : ℕ) (kmalloc : Bool) : Except Errno ℕ × XsmemState σ :=
  match xsmTaskFind s tgid with
  | some _ => (.error .ENOMEM, s)
  | none =>
      if kmalloc = false then (.error .ENOMEM, s)
      else
        let uid := s.uniProcessId + 1
        let task : XsmTask :=
          { pid := tgid, attachedPoolCount := 0, poolNum := 0, nodeListHead := []
            registerXpListHead := [] }
        (.ok uid, { s.setTask uid task with uniProcessId := uid, taskTable := uid :: s.taskTable })

def xsmemRelease (A : PoolAlgo σ ε) (env : ℕ → ℕ → ε) (s : XsmemState σ) (uid : ℕ) (task : XsmTask) :
    XsmemState σ :=
  let s := task.nodeListHead.foldl (fun s h => xsmemPoolTaskDetach A env s uid h) s
  let s := task.registerXpListHead.foldl (fun s h => xsmemTaskUnregisterPool A env s uid h) s
  { s with tasks := Function.update s.tasks uid none, taskTable := s.taskTable.erase uid }

/-! ## The machine -/

inductive XsmemCall (ε : Type)
  | register (tgid ns : ℕ) (key : String) (poolSize : ℕ) (kzalloc : Bool)
  | unregister (poolId : ℕ)
  | taskAdd (poolId : ℕ) (vpid : Except Errno ℕ) (attr : GroupShareAttr) (kmalloc : Bool)
  | taskDel (poolId : ℕ) (vpid : Except Errno ℕ)
  | attach (tgid poolId timeout : ℕ) (permAdd : Except Errno Unit) (kmalloc : Bool)
  | detach (poolId : ℕ)
  | blockAlloc (tgid poolId size flag : ℕ) (kmalloc : Bool) (e : ε)
  | blockFree (poolId offset : ℕ)
  | blockGet (offset : ℕ) (kmalloc : Bool)
  | release

inductive XsmemOp (ε : Type)
  | open (tgid : ℕ) (kmalloc : Bool)
  /-- A call on the file of the task `uid`. -/
  | call (uid : ℕ) (call : XsmemCall ε) (env : ℕ → ℕ → ε)
  | attachWake (w : AttachWait) (permAdd : Except Errno Unit) (kmalloc : Bool) (env : ℕ → ℕ → ε)
  | attachGiveUp (w : AttachWait) (env : ℕ → ℕ → ε)
  | taskExit (pid : ℕ)

/-- A size is an `unsigned long`, and a file is released when no call on it is
in progress. -/
def xsmemCall (A : PoolAlgo σ ε) (env : ℕ → ℕ → ε) (s : XsmemState σ) (uid : ℕ) (task : XsmTask) :
    XsmemCall ε → Option (XsmemState σ)
  | .register tgid ns key poolSize kzalloc =>
      if poolSize < 2 ^ 64 then
        some (ioctlXsmemPoolRegister A s uid task tgid ns key poolSize kzalloc).2
      else none
  | .unregister poolId => some (ioctlXsmemPoolUnregister A env s uid task poolId).2
  | .taskAdd poolId vpid attr kmalloc =>
      some (ioctlXsmemPoolTaskCommon A env s uid task poolId vpid
        fun xp pid => xsmemPoolTaskAdd kmalloc xp pid attr).2
  | .taskDel poolId vpid =>
      some (ioctlXsmemPoolTaskCommon A env s uid task poolId vpid xsmemPoolTaskDel).2
  | .attach tgid poolId timeout permAdd kmalloc =>
      some (ioctlXsmemPoolAttach A env s uid tgid task poolId timeout permAdd kmalloc).2
  | .detach poolId => some (ioctlXsmemPoolDetach A env s uid poolId).2
  | .blockAlloc tgid poolId size flag kmalloc e =>
      some (ioctlXsmemBlockCommon A env s uid poolId
        fun _ v node => ioctlXsmemBlockAlloc A e kmalloc tgid v node size flag).2
  | .blockFree poolId offset =>
      some (ioctlXsmemBlockCommon A env s uid poolId
        fun h v node => ioctlXsmemBlockFree A (env h offset) v node offset).2
  | .blockGet offset kmalloc =>
      some (ioctlXsmemBlockGet s uid offset kmalloc task.nodeListHead).2
  | .release =>
      if ∀ w ∈ s.attaching, w.uid ≠ uid then some (xsmemRelease A env s uid task) else none

def xsmemStep (A : PoolAlgo σ ε) (s : XsmemState σ) : XsmemOp ε → Option (XsmemState σ)
  | .open tgid kmalloc => some (xsmemOpen s tgid kmalloc).2
  | .call uid call env => (s.tasks uid).bind fun task => xsmemCall A env s uid task call
  | .attachWake w permAdd kmalloc env =>
      if w ∈ s.attaching then attachWake A env s w permAdd kmalloc else none
  | .attachGiveUp w env => if w ∈ s.attaching then some (attachGiveUp A env s w) else none
  | .taskExit pid => some (taskExitNotify s pid)

def xsmemInit : XsmemState σ where
  tasks _ := none
  taskTable := []
  uniProcessId := 0
  pools _ := none
  nextXp := 0
  xsmemIdr _ := none
  nextXsmemId := 0
  xsmemKeyList := []
  blockid _ _ := false
  attaching := []

/-- The module from its loading on. -/
def xsmemMachine (A : PoolAlgo σ ε) : Machine (XsmemState σ) (XsmemOp ε) where
  init s := s = xsmemInit
  step := xsmemStep A

end OpiaiKernel.Xsmem
