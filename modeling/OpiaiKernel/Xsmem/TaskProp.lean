import OpiaiKernel.Lib.Machine
import OpiaiKernel.Xsmem.PropOp
import Mathlib.Logic.Function.Basic

/-!
# The life of a property

Properties live as long as the tasks and the pools they belong to.  The machine
runs the ioctl of `xsmem_prop.c` against what ends a property: the detach of a
task from a pool, the release of a task and the deletion of a pool by its last
reference.  Each section under `prop_list_mutex` is one step, so that the steps
of different tasks interleave; the mutex of a task orders the steps of one task,
which is what `stage` records.  A call holds the references it has taken in
`holds`, and a step that ends with the mutex of the task returns them there.
-/

namespace OpiaiKernel.Xsmem

/-- Where a task stands: no call has its mutex, an operation on properties is
about to take `prop_list_mutex`, or a detach has come this far.  `held` says that
the detach is an ioctl, which has a reference of its own. -/
inductive PropStage
  | idle
  | op (xp : Option ℕ) (arg : XsmPropOpArg)
  | grpPropDel (xp : ℕ) (held : Bool)
  | taskPropClear (xp : ℕ) (held : Bool)
  | nodeDel (xp : ℕ) (held : Bool)
  | closed
  deriving DecidableEq

structure PropTask where
  uid : ℕ
  pid : ℕ
  nodeListHead : List PropNode
  registerXpListHead : List ℕ
  releasing : Bool
  stage : PropStage
  deriving DecidableEq

structure PropPool where
  refcnt : ℤ
  propListHead : List XsmProp
  deriving DecidableEq

structure PropState where
  tasks : List PropTask
  uniProcessId : ℕ
  pools : ℕ → Option PropPool
  nextXp : ℕ
  holds : List ℕ
  propListHead : List XsmProp
  nextProp : ℕ

inductive PropAct
  | open (pid : ℕ)
  | register (uid : ℕ)
  | poolGet (xp : ℕ)
  | poolPut (xp : ℕ)
  | attach (uid xp : ℕ)
  | propOp (uid : ℕ) (xp : Option ℕ) (arg : XsmPropOpArg)
  | propRun (uid : ℕ) (env : PropEnv)
  | detach (uid xp : ℕ)
  | grpPropDel (uid : ℕ)
  | taskPropClear (uid : ℕ)
  | nodeDel (uid : ℕ)
  | unregister (uid xp : ℕ)
  | release (uid : ℕ)
  | releaseNode (uid xp : ℕ)
  | taskPropDel (uid : ℕ)
  | taskDel (uid : ℕ)

namespace PropState

def task (s : PropState) (uid : ℕ) : Option PropTask := Keyed.get PropTask.uid uid s.tasks

/-- Write a task that is in the table. -/
def setTask (s : PropState) (task : PropTask) : PropState :=
  { s with tasks := Keyed.modify PropTask.uid task.uid (fun _ => task) s.tasks }

def setPool (s : PropState) (h : ℕ) (xp : PropPool) : PropState :=
  { s with pools := Function.update s.pools h (some xp) }

def setHolds (s : PropState) (holds : List ℕ) : PropState := { s with holds }

def start : PropState :=
  { tasks := [], uniProcessId := 0, pools := fun _ => none, nextXp := 0, holds := []
    propListHead := [], nextProp := 0 }

end PropState

/-- `task_pool_node_find` -/
def PropTask.node (task : PropTask) (h : ℕ) : Option PropNode :=
  Keyed.get PropNode.pool h task.nodeListHead

/-- Write through the pointer to a node. -/
def PropTask.setNode (task : PropTask) (node : PropNode) : PropTask :=
  { task with
    nodeListHead := Keyed.modify PropNode.pool node.pool (fun _ => node) task.nodeListHead }

def PropTask.setStage (task : PropTask) (stage : PropStage) : PropTask := { task with stage }

/-- A task whose mutex an ioctl can take. -/
def PropTask.Free (task : PropTask) : Prop := task.stage = .idle ∧ task.releasing = false

instance (task : PropTask) : Decidable task.Free := inferInstanceAs (Decidable (_ ∧ _))

/-! ## Tasks, pools and references -/

/-- `xsmem_open`, refused to a process that has the device open. -/
def propOpen (s : PropState) (pid : ℕ) : Option PropState :=
  if s.tasks.any fun task => task.pid = pid then none
  else
    some { s with
      tasks := s.tasks ++
        [{ uid := s.uniProcessId + 1, pid, nodeListHead := [], registerXpListHead := []
           releasing := false, stage := .idle }]
      uniProcessId := s.uniProcessId + 1 }

def propRegister (s : PropState) (task : PropTask) : Option PropState :=
  if task.Free then
    let s := s.setTask { task with registerXpListHead := task.registerXpListHead ++ [s.nextXp] }
    some { s.setPool s.nextXp { refcnt := 1, propListHead := [] } with
      nextXp := s.nextXp + 1 }
  else none

/-- `xsmem_pool_get` -/
def propPoolGet (s : PropState) (h : ℕ) : Option PropState :=
  match s.pools h with
  | none => none
  | some xp => some ((s.setPool h { xp with refcnt := xp.refcnt + 1 }).setHolds (h :: s.holds))

/-- `xsmem_pool_put` of a reference that a call holds; the last one deletes the
pool, with the properties it still has. -/
def propPoolPut (s : PropState) (h : ℕ) : Option PropState :=
  if h ∈ s.holds then
    match s.pools h with
    | none => none
    | some xp =>
        let s := s.setHolds (s.holds.erase h)
        if xp.refcnt - 1 ≠ 0 then some (s.setPool h { xp with refcnt := xp.refcnt - 1 })
        else some { s with pools := Function.update s.pools h none }
  else none

/-- The end of `xsmem_pool_attach`: a node and its reference. -/
def propAttach (s : PropState) (task : PropTask) (h : ℕ) : Option PropState :=
  if task.Free ∧ h ∈ s.holds then
    match s.pools h with
    | none => none
    | some xp =>
        if (task.node h).isSome then some s
        else
          let node : PropNode := { task := task.uid, pool := h, taskPropHead := [] }
          some ((s.setTask { task with nodeListHead := task.nodeListHead ++ [node] }).setPool h
            { xp with refcnt := xp.refcnt + 1 })
  else none

def propUnregister (s : PropState) (task : PropTask) (h : ℕ) : Option PropState :=
  if task.stage = .idle ∧ h ∈ task.registerXpListHead then
    some ((s.setTask { task with registerXpListHead := task.registerXpListHead.erase h }).setHolds
      (h :: s.holds))
  else none

/-! ## The ioctl -/

/-- The checks before `prop_list_mutex`; the pool has been found by its id, and
no pool stands for a negative one. -/
def ioctlXsmemPoolPropOp (s : PropState) (task : PropTask) (xp : Option ℕ) (arg : XsmPropOpArg) :
    Except PropErr Unit :=
  if arg.op = XSMEM_PROP_OP_SET ∧ arg.owner ≠ XSMEM_PROP_OWNER_TASK ∧
      arg.owner ≠ XSMEM_PROP_OWNER_TASK_GRP then .error .EINVAL
  else if arg.prop = 0 ∨ arg.propLen = 0 ∨ PROP_NAME_MAX_LEN ≤ arg.propLen then .error .EINVAL
  else
    match xp with
    | some h =>
        match s.pools h with
        | none => .error .ENODEV
        | some _ => if (task.node h).isSome then .ok () else .error .EINVAL
    | none =>
        if arg.op = XSMEM_PROP_OP_SET ∧ arg.owner = XSMEM_PROP_OWNER_TASK_GRP then .error .EINVAL
        else .ok ()

/-- A refused ioctl leaves the state, and its reference where it is. -/
def propOp (s : PropState) (task : PropTask) (xp : Option ℕ) (arg : XsmPropOpArg) :
    Option PropState :=
  if task.Free ∧ xp.toList ⊆ s.holds then
    match ioctlXsmemPoolPropOp s task xp arg with
    | .error _ => some s
    | .ok _ => some ((s.setTask (task.setStage (.op xp arg))).setHolds (s.holds.diff xp.toList))
  else none

/-- The list an operation works on, with the node of the caller. -/
def PropState.view (s : PropState) (task : PropTask) : Option ℕ → Option PropView
  | none => some { head := s.propListHead, node := none, nextProp := s.nextProp }
  | some h => (s.pools h).map fun xp =>
      { head := xp.propListHead, node := task.node h, nextProp := s.nextProp }

def PropState.setHead (s : PropState) (head : List XsmProp) : Option ℕ → PropState
  | none => { s with propListHead := head }
  | some h =>
      match s.pools h with
      | none => s
      | some xp => s.setPool h { xp with propListHead := head }

/-- What a call under `prop_list_mutex` returns, and what it leaves. -/
def propCall (s : PropState) (task : PropTask) (xp : Option ℕ) (arg : XsmPropOpArg)
    (env : PropEnv) : Option (Except PropErr (Option ℕ) × PropView) :=
  (s.view task xp).bind fun v => xsmemPoolPropOp task.pid v arg env

def propRun (s : PropState) (task : PropTask) (env : PropEnv) : Option PropState :=
  match task.stage with
  | .op xp arg =>
      if ∀ key ∈ env.key, key.length = arg.propLen then
        match propCall s task xp arg env with
        | none => none
        | some (_, v) =>
            let task := (v.node.elim task task.setNode).setStage .idle
            some { ((s.setHead v.head xp).setTask task).setHolds (xp.toList ++ s.holds) with
              nextProp := v.nextProp }
      else none
  | _ => none

/-! ## The end of a node -/

/-- `xsmem_pool_detach` starts on the node it finds. -/
def propDetach (s : PropState) (task : PropTask) (h : ℕ) : Option PropState :=
  if task.Free ∧ h ∈ s.holds then
    if (task.node h).isSome then
      some ((s.setTask (task.setStage (.grpPropDel h true))).setHolds (s.holds.erase h))
    else some s
  else none

/-- The loop of `xsmem_release` over the nodes. -/
def propReleaseNode (s : PropState) (task : PropTask) (h : ℕ) : Option PropState :=
  if task.stage = .idle ∧ task.releasing = true ∧ (task.node h).isSome then
    some (s.setTask (task.setStage (.grpPropDel h false)))
  else none

/-- `xsmem_proc_grp_prop_del` -/
def propGrpPropDel (s : PropState) (task : PropTask) : Option PropState :=
  match task.stage with
  | .grpPropDel h held =>
      match s.pools h, task.node h with
      | some xp, some node =>
          match xsmemProcGrpPropDel node.taskPropHead xp.propListHead with
          | none => none
          | some head =>
              some ((s.setPool h { xp with propListHead := head }).setTask
                ((task.setNode { node with taskPropHead := [] }).setStage (.taskPropClear h held)))
      | _, _ => none
  | _ => none

/-- `xsmem_pool_task_prop_clear` -/
def propTaskPropClear (s : PropState) (task : PropTask) : Option PropState :=
  match task.stage with
  | .taskPropClear h held =>
      match s.pools h with
      | none => none
      | some xp =>
          some ((s.setPool h
            { xp with propListHead := xsmemTaskPropDel xp.propListHead task.pid }).setTask
              (task.setStage (.nodeDel h held)))
  | _ => none

/-- `task_pool_node_del`; the references of the node and of the ioctl are still
to be put. -/
def propNodeDel (s : PropState) (task : PropTask) : Option PropState :=
  match task.stage with
  | .nodeDel h held =>
      some ((s.setTask
        { task with
          nodeListHead := Keyed.remove PropNode.pool h task.nodeListHead
          stage := .idle }).setHolds ((if held then [h] else []) ++ h :: s.holds))
  | _ => none

/-! ## The release of a task -/

def propRelease (s : PropState) (task : PropTask) : Option PropState :=
  if task.Free then some (s.setTask { task with releasing := true }) else none

/-- `xsmem_task_prop_del`, when the loops over the nodes and the pools are done. -/
def propTaskPropDel (s : PropState) (task : PropTask) : Option PropState :=
  if task.stage = .idle ∧ task.releasing = true ∧ task.nodeListHead = [] ∧
      task.registerXpListHead = [] then
    some { s.setTask (task.setStage .closed) with
      propListHead := xsmemTaskPropDel s.propListHead task.pid }
  else none

def propTaskDel (s : PropState) (task : PropTask) : Option PropState :=
  if task.stage = .closed then
    some { s with tasks := Keyed.remove PropTask.uid task.uid s.tasks }
  else none

/-! ## The machine -/

def propStep (s : PropState) : PropAct → Option PropState
  | .open pid => propOpen s pid
  | .register uid => (s.task uid).bind (propRegister s)
  | .poolGet xp => propPoolGet s xp
  | .poolPut xp => propPoolPut s xp
  | .attach uid xp => (s.task uid).bind fun task => propAttach s task xp
  | .propOp uid xp arg => (s.task uid).bind fun task => propOp s task xp arg
  | .propRun uid env => (s.task uid).bind fun task => propRun s task env
  | .detach uid xp => (s.task uid).bind fun task => propDetach s task xp
  | .grpPropDel uid => (s.task uid).bind (propGrpPropDel s)
  | .taskPropClear uid => (s.task uid).bind (propTaskPropClear s)
  | .nodeDel uid => (s.task uid).bind (propNodeDel s)
  | .unregister uid xp => (s.task uid).bind fun task => propUnregister s task xp
  | .release uid => (s.task uid).bind (propRelease s)
  | .releaseNode uid xp => (s.task uid).bind fun task => propReleaseNode s task xp
  | .taskPropDel uid => (s.task uid).bind (propTaskPropDel s)
  | .taskDel uid => (s.task uid).bind (propTaskDel s)

def propMachine : Machine PropState PropAct where
  init s := s = PropState.start
  step := propStep

end OpiaiKernel.Xsmem
