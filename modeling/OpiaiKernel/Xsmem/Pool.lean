import OpiaiKernel.Lib.Keyed
import OpiaiKernel.Lib.Word
import OpiaiKernel.Xsmem.PoolAlgo

/-!
# The blocks of an xsmem pool

A pool keeps its blocks in a red-black tree by offset.  Every task that is
attached to the pool has a node in it, and a task that holds a block has one
`xsm_task_block_node` linked both into the list of the block and into the list
of the node.  The operations on the blocks of one pool are translated from
`xsmem_framework.c` under their own names.

The tree is the list of its blocks in offset order.  A `struct xsm_block *` is
modelled by the offset of the block, and a `struct xsm_task_pool_node *` by the
`uid` of its task, which no two nodes of a pool share.  Whether `kmalloc`
succeeds and what resolves the calls of the algorithm are arguments.
-/

namespace OpiaiKernel.Xsmem

structure GroupShareAttr where
  admin : Bool
  read : Bool
  write : Bool
  alloc : Bool
  rsv : ℕ := 0
  deriving DecidableEq

/-- `struct xsm_task_block_node` -/
structure TaskBlockNode where
  node : ℕ
  refcnt : ℤ
  deriving DecidableEq

structure XsmBlock where
  refcnt : ℤ
  pid : ℕ
  id : ℕ
  offset : ℕ
  flag : ℕ
  allocSize : ℕ
  realSize : ℕ
  taskBlkHead : List TaskBlockNode
  deriving DecidableEq

/-- `struct xsm_task_pool_node`; `pid` is the constant `task->pid`, and the
list `taskBlkHead` is given by the offsets of the blocks. -/
structure TaskPoolNode where
  task : ℕ
  pid : ℕ
  attr : GroupShareAttr
  allocSize : ℕ
  realAllocSize : ℕ
  taskBlkHead : List ℕ
  deriving DecidableEq

structure AddingTask where
  pid : ℕ
  attr : GroupShareAttr
  deriving DecidableEq

structure XsmPool (σ : Type) where
  poolId : ℕ
  refcnt : ℤ
  nodeListHead : List TaskPoolNode
  blockRoot : List XsmBlock
  priv : σ
  allocSize : ℕ
  realAllocSize : ℕ
  createPid : ℕ
  addingTaskListHead : List AddingTask
  mntNs : ℕ
  key : String

/-- A pool and the bitmap `xsmem_blockid` of its namespace. -/
structure PoolView (σ : Type) where
  xp : XsmPool σ
  blockid : ℕ → Bool

def XSMEM_BLOCK_MAX_NUM : ℕ := 262144

def TASK_BLK_MAX_GET_NUM : ℤ := 32 * 1024

def XSMEM_BLK_NOT_AUTO_RECYCLE : ℕ := 2 ^ 63

/-! ## Block ids -/

/-- `find_next_zero_bit` from the first bit on -/
def xsmemNsBlkidAlloc (blockid : ℕ → Bool) : Option ℕ :=
  (List.range' 0 XSMEM_BLOCK_MAX_NUM).find? fun id => !blockid id

def xsmemBlockidPut (blockid : ℕ → Bool) (id : ℕ) : ℕ → Bool :=
  if id < XSMEM_BLOCK_MAX_NUM then Function.update blockid id false else blockid

variable {σ ε : Type}

namespace XsmPool

/-- Write to the block at `offset`. -/
def modifyBlock (xp : XsmPool σ) (offset : ℕ) (f : XsmBlock → XsmBlock) : XsmPool σ :=
  { xp with blockRoot := Keyed.modify XsmBlock.offset offset f xp.blockRoot }

/-- Write to the node of the task `uid`. -/
def modifyNode (xp : XsmPool σ) (uid : ℕ) (f : TaskPoolNode → TaskPoolNode) : XsmPool σ :=
  { xp with nodeListHead := Keyed.modify TaskPoolNode.task uid f xp.nodeListHead }

end XsmPool

/-! ## The block tree -/

def xsmemFindBlock (xp : XsmPool σ) (offset : ℕ) : Option XsmBlock :=
  xp.blockRoot.find? fun blk =>
    blk.offset ≤ offset ∧ offset < Word.add 64 blk.offset blk.allocSize

/-- Two blocks at one offset mean that the algorithm is broken; the second one
is not linked. -/
def xsmemAddBlock : List XsmBlock → XsmBlock → List XsmBlock
  | [], blk => [blk]
  | tmp :: root, blk =>
      if tmp.offset < blk.offset then tmp :: xsmemAddBlock root blk
      else if blk.offset < tmp.offset then blk :: tmp :: root
      else tmp :: root

def xsmemBlockDestroy (A : PoolAlgo σ ε) (env : ε) (xp : XsmPool σ) (blk : XsmBlock) :
    XsmPool σ :=
  { xp with
    priv := A.xsmBlockFree env xp.priv blk.offset blk.realSize
    blockRoot := Keyed.remove XsmBlock.offset blk.offset xp.blockRoot }

/-! ## Who holds a block -/

def xsmemFindTaskBlockNode (uid : ℕ) (blk : XsmBlock) : Option TaskBlockNode :=
  Keyed.get TaskBlockNode.node uid blk.taskBlkHead

/-- The new node carries `refcnt`. -/
def xsmemTaskLinkBlk (xp : XsmPool σ) (uid offset : ℕ) (refcnt : ℤ) : XsmPool σ :=
  (xp.modifyNode uid fun n => { n with taskBlkHead := n.taskBlkHead ++ [offset] }).modifyBlock
    offset fun b => { b with taskBlkHead := b.taskBlkHead ++ [⟨uid, refcnt⟩] }

def xsmemTaskUnlinkBlk (xp : XsmPool σ) (uid offset : ℕ) : XsmPool σ :=
  (xp.modifyNode uid fun n => { n with taskBlkHead := n.taskBlkHead.erase offset }).modifyBlock
    offset fun b => { b with taskBlkHead := Keyed.remove TaskBlockNode.node uid b.taskBlkHead }

/-- Write to the count of the node of `uid` on the block at `offset`. -/
def setTaskBlockRefcnt (xp : XsmPool σ) (uid offset : ℕ) (refcnt : ℤ) : XsmPool σ :=
  xp.modifyBlock offset fun b =>
    { b with taskBlkHead :=
        Keyed.modify TaskBlockNode.node uid (fun t => { t with refcnt }) b.taskBlkHead }

def blkRefcntAdd (xp : XsmPool σ) (offset : ℕ) (d : ℤ) : XsmPool σ :=
  xp.modifyBlock offset fun b => { b with refcnt := b.refcnt + d }

/-! ## The totals -/

def nodeStatAdd (xp : XsmPool σ) (uid : ℕ) (blk : XsmBlock) : XsmPool σ :=
  xp.modifyNode uid fun n =>
    { n with
      allocSize := Word.add 64 n.allocSize blk.allocSize
      realAllocSize := Word.add 64 n.realAllocSize blk.realSize }

def nodeStatSub (xp : XsmPool σ) (uid : ℕ) (blk : XsmBlock) : XsmPool σ :=
  xp.modifyNode uid fun n =>
    { n with
      allocSize := Word.sub 64 n.allocSize blk.allocSize
      realAllocSize := Word.sub 64 n.realAllocSize blk.realSize }

def xsmemPoolStatAdd (xp : XsmPool σ) (blk : XsmBlock) : XsmPool σ :=
  { xp with
    allocSize := Word.add 64 xp.allocSize blk.allocSize
    realAllocSize := Word.add 64 xp.realAllocSize blk.realSize }

def xsmemPoolStatSub (xp : XsmPool σ) (blk : XsmBlock) : XsmPool σ :=
  { xp with
    allocSize := Word.sub 64 xp.allocSize blk.allocSize
    realAllocSize := Word.sub 64 xp.realAllocSize blk.realSize }

/-! ## The operations -/

def xsmemIsBlkNeedAutoRecycle (blk : XsmBlock) : Prop :=
  blk.flag &&& XSMEM_BLK_NOT_AUTO_RECYCLE ≠ XSMEM_BLK_NOT_AUTO_RECYCLE

instance (blk : XsmBlock) : Decidable (xsmemIsBlkNeedAutoRecycle blk) :=
  inferInstanceAs (Decidable (_ ≠ _))

/-- Take the block out of the totals, its id out of the bitmap and the block
out of the pool. -/
def recycleBlock (A : PoolAlgo σ ε) (env : ε) (v : PoolView σ) (blk : XsmBlock) : PoolView σ where
  xp := xsmemBlockDestroy A env (xsmemPoolStatSub v.xp blk) blk
  blockid := xsmemBlockidPut v.blockid blk.id

/-- One round of the loop of `xsmem_clear_block`. -/
def clearBlockRound (A : PoolAlgo σ ε) (env : ℕ → ε) (v : PoolView σ) (blk : XsmBlock) :
    PoolView σ where
  xp := xsmemBlockDestroy A (env blk.offset) v.xp blk
  blockid := xsmemBlockidPut v.blockid blk.id

def xsmemClearBlock (A : PoolAlgo σ ε) (env : ℕ → ε) (v : PoolView σ) : PoolView σ :=
  v.xp.blockRoot.foldl (clearBlockRound A env) v

/-- One round of the loop of `xsmem_task_clear_block`, for the block at
`offset`. -/
def taskClearBlockRound (A : PoolAlgo σ ε) (env : ℕ → ε) (uid : ℕ) (v : PoolView σ)
    (offset : ℕ) : PoolView σ :=
  match Keyed.get XsmBlock.offset offset v.xp.blockRoot with
  | none => v
  | some blk =>
      match xsmemFindTaskBlockNode uid blk with
      | none => v
      | some taskBlkNode =>
          let xp := blkRefcntAdd (xsmemTaskUnlinkBlk v.xp uid offset) offset (-taskBlkNode.refcnt)
          if blk.refcnt - taskBlkNode.refcnt ≤ 0 ∧ xsmemIsBlkNeedAutoRecycle blk then
            recycleBlock A (env offset) { v with xp } blk
          else { v with xp }

/-- The loop runs over the list of the node of the task `uid`. -/
def xsmemTaskClearBlock (A : PoolAlgo σ ε) (env : ℕ → ε) (v : PoolView σ) (uid : ℕ) :
    PoolView σ :=
  match Keyed.get TaskPoolNode.task uid v.xp.nodeListHead with
  | none => v
  | some node => node.taskBlkHead.foldl (taskClearBlockRound A env uid) v

/-- The result is the offset and the id of the new block; `tgid` is the process
that makes the call. -/
def ioctlXsmemBlockAlloc (A : PoolAlgo σ ε) (env : ε) (kmalloc : Bool) (tgid : ℕ)
    (v : PoolView σ) (node : TaskPoolNode) (size flag : ℕ) :
    Except Errno (ℕ × ℕ) × PoolView σ :=
  if node.attr.alloc = false then (.error .EINVAL, v)
  else if kmalloc = false then (.error .ENOMEM, v)
  else
    match xsmemNsBlkidAlloc v.blockid with
    | none => (.error .ENOSPC, v)
    | some blkid =>
        let blockid := Function.update v.blockid blkid true
        match A.xsmBlockAlloc env v.xp.priv size flag with
        | (.error e, priv) => (.error e, ⟨{ v.xp with priv }, xsmemBlockidPut blockid blkid⟩)
        | (.ok (offset, realSize), priv) =>
            let blk : XsmBlock :=
              { refcnt := 1, pid := tgid, id := blkid, offset, flag, allocSize := size, realSize
                taskBlkHead := [] }
            let xp := { v.xp with priv, blockRoot := xsmemAddBlock v.xp.blockRoot blk }
            let xp := nodeStatAdd (xsmemTaskLinkBlk xp node.task offset 1) node.task blk
            (.ok (offset, blkid), ⟨xsmemPoolStatAdd xp blk, blockid⟩)

def ioctlXsmemBlockFree (A : PoolAlgo σ ε) (env : ε) (v : PoolView σ) (node : TaskPoolNode)
    (offset : ℕ) : Except Errno Unit × PoolView σ :=
  match xsmemFindBlock v.xp offset with
  | none => (.error .ENODEV, v)
  | some blk =>
      match xsmemFindTaskBlockNode node.task blk with
      | none => (.error .ENODEV, v)
      | some taskBlkNode =>
          let xp :=
            if taskBlkNode.refcnt - 1 ≤ 0 then
              let xp := if blk.pid = node.pid then nodeStatSub v.xp node.task blk else v.xp
              xsmemTaskUnlinkBlk xp node.task blk.offset
            else setTaskBlockRefcnt v.xp node.task blk.offset (taskBlkNode.refcnt - 1)
          let xp := blkRefcntAdd xp blk.offset (-1)
          if blk.refcnt - 1 ≤ 0 then (.ok (), recycleBlock A env { v with xp } blk)
          else (.ok (), { v with xp })

/-- The result is the size, the offset and the id of the block. -/
def xsmemPoolBlockGet (kmalloc : Bool) (xp : XsmPool σ) (node : TaskPoolNode) (offset : ℕ) :
    Except Errno (ℕ × ℕ × ℕ) × XsmPool σ :=
  match xsmemFindBlock xp offset with
  | none => (.error .ENODEV, xp)
  | some blk =>
      let got := (blk.allocSize, blk.offset, blk.id)
      match xsmemFindTaskBlockNode node.task blk with
      | none =>
          if kmalloc = false then (.error .ENOMEM, xp)
          else
            (.ok got, setTaskBlockRefcnt
              (blkRefcntAdd (xsmemTaskLinkBlk xp node.task blk.offset 0) blk.offset 1)
              node.task blk.offset 1)
      | some taskBlkNode =>
          if TASK_BLK_MAX_GET_NUM ≤ taskBlkNode.refcnt then (.error .EINVAL, xp)
          else
            (.ok got, setTaskBlockRefcnt (blkRefcntAdd xp blk.offset 1) node.task blk.offset
              (taskBlkNode.refcnt + 1))

/-! ## The tasks of a pool -/

def xsmemPoolTaskNodeFind (xp : XsmPool σ) (pid : ℕ) : Option TaskPoolNode :=
  Keyed.get TaskPoolNode.pid pid xp.nodeListHead

def xsmemPoolAddingTaskFind (xp : XsmPool σ) (pid : ℕ) : Option AddingTask :=
  Keyed.get AddingTask.pid pid xp.addingTaskListHead

def xsmemPoolAddingTaskDel (xp : XsmPool σ) (addingTask : AddingTask) : XsmPool σ :=
  { xp with addingTaskListHead := xp.addingTaskListHead.erase addingTask }

def xsmemPoolTaskReadd (newAttr curAttr : GroupShareAttr) : Except Errno Unit :=
  if newAttr = curAttr then .ok () else .error .EEXIST

def xsmemPoolTaskAdd (kmalloc : Bool) (xp : XsmPool σ) (pid : ℕ) (attr : GroupShareAttr) :
    Except Errno Unit × XsmPool σ :=
  match xsmemPoolAddingTaskFind xp pid with
  | some addingTask => (xsmemPoolTaskReadd attr addingTask.attr, xp)
  | none =>
      match xsmemPoolTaskNodeFind xp pid with
      | some node => (xsmemPoolTaskReadd attr node.attr, xp)
      | none =>
          if kmalloc = false then (.error .ENOMEM, xp)
          else (.ok (), { xp with addingTaskListHead := xp.addingTaskListHead ++ [⟨pid, attr⟩] })

def xsmemPoolTaskDel (xp : XsmPool σ) (pid : ℕ) : Except Errno Unit × XsmPool σ :=
  match xsmemPoolAddingTaskFind xp pid with
  | none => (.error .EINVAL, xp)
  | some addingTask => (.ok (), xsmemPoolAddingTaskDel xp addingTask)

/-- The part of `task_pool_node_add` in the pool. -/
def poolNodeAdd (xp : XsmPool σ) (uid pid : ℕ) (attr : GroupShareAttr) : XsmPool σ :=
  { xp with
    nodeListHead := xp.nodeListHead ++
      [{ task := uid, pid, attr, allocSize := 0, realAllocSize := 0, taskBlkHead := [] }] }

/-- The part of `task_pool_node_del` in the pool. -/
def poolNodeDel (xp : XsmPool σ) (uid : ℕ) : XsmPool σ :=
  { xp with nodeListHead := Keyed.remove TaskPoolNode.task uid xp.nodeListHead }

end OpiaiKernel.Xsmem
