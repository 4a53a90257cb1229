import OpiaiKernel.Errno
import OpiaiKernel.Lib.AugTree
import OpiaiKernel.Lib.Machine
import OpiaiKernel.Lib.Span
import OpiaiKernel.Lib.Word

/-!
# The VMA block allocator of an xsmem pool

The free blocks of a pool are kept in a red-black tree by address.  Every node
caches the size of the largest block of its subtree, so that the lowest block
that is large enough is found in one descent.  A `struct vma_block *` is
modelled by the start address of the block, which no two blocks of the tree
share; reading through the pointer locates the block in the tree.

The functions are translated from `xsmem_algo_vma.c` under their own names.
What the environment decides is an argument: whether `kmalloc` succeeds, and
the rotations of each red-black rebalancing.
-/

namespace OpiaiKernel.Xsmem

open AugTree

/-- The page size is a power of two. -/
structure PageSize where
  shift : ℕ
  shift_lt : shift < 64

def PageSize.bytes (P : PageSize) : ℕ := 2 ^ P.shift

/-- `ALIGN(x, PAGE_SIZE)` on an `unsigned long`. -/
def PageSize.align (P : PageSize) (x : ℕ) : ℕ :=
  Word.add 64 x (P.bytes - 1) / P.bytes * P.bytes

/-- The range of a `struct vma_block`; its `subtree_max_size` is the cache of
its tree node. -/
abbrev VmaBlock := Span

abbrev VmaTree := AugTree VmaBlock ℕ

structure VmaCtrl where
  totalSize : ℕ
  freeSize : ℕ
  allocBlockCnt : ℕ
  freeBlockRoot : VmaTree
  deriving DecidableEq

/-- `compute_subtree_max_size` -/
def computeSubtreeMaxSize : Augment VmaBlock ℕ where
  zero := 0
  compute b l r := max b.size (max l r)
  rotate a b x y z := by omega

/-- `subtree_max_size` -/
def subtreeMaxSize (t : VmaTree) : ℕ := t.aug 0

def vmaInstCreate (P : PageSize) (poolSize : ℕ) : Option VmaCtrl :=
  if poolSize % P.bytes ≠ 0 ∨ poolSize = 0 then none
  else
    some
      { totalSize := poolSize
        freeSize := poolSize
        allocBlockCnt := 0
        freeBlockRoot := .node .nil ⟨0, poolSize⟩ poolSize .nil }

/-- The block at `start` is written and `block_update_subtree_max_size` is
called on it. -/
def blockUpdate (root : VmaTree) (start : ℕ) (f : VmaBlock → VmaBlock) : VmaTree :=
  match locate (fun b => b.start == start) [] root with
  | none => root
  | some x => propagate computeSubtreeMaxSize (.node x.l (f x.a) x.aug x.r) x.path

/-- `rb_erase_augmented` of the block at `start`. -/
def blockErase (bal : Rotations) (root : VmaTree) (start : ℕ) : VmaTree :=
  match locate (fun b => b.start == start) [] root with
  | none => root
  | some x => rbEraseAugmented computeSubtreeMaxSize bal x

def findFirstProperBlock (size : ℕ) : Path VmaBlock ℕ → VmaTree → Option (Loc VmaBlock ℕ)
  | _, .nil => none
  | p, .node l b g r =>
      if size ≤ subtreeMaxSize l then findFirstProperBlock size (.left b g r :: p) l
      else if size ≤ b.size then some ⟨p, l, b, g, r⟩
      else if size ≤ subtreeMaxSize r then findFirstProperBlock size (.right l b g :: p) r
      else none

def vmaAllocBlock (bal : Rotations) (root : VmaTree) (size : ℕ) : Except Errno (ℕ × VmaTree) :=
  match findFirstProperBlock size [] root with
  | none => .error .ENOSPC
  | some x =>
      if x.a.size = size then .ok (x.a.start, rbEraseAugmented computeSubtreeMaxSize bal x)
      else
        .ok (x.a.start, propagate computeSubtreeMaxSize
          (.node x.l ⟨Word.add 64 x.a.start size, Word.sub 64 x.a.size size⟩ x.aug x.r) x.path)

/-- The result is the address and the rounded size of the new block. -/
def vmaAlgoAlloc (P : PageSize) (bal : Rotations) (ctrl : VmaCtrl) (allocSize : ℕ) :
    Except Errno (ℕ × ℕ) × VmaCtrl :=
  if allocSize = 0 then (.error .EINVAL, ctrl)
  else
    let realSizeTmp := P.align allocSize
    if realSizeTmp < allocSize then (.error .EOVERFLOW, ctrl)
    else if ctrl.freeSize < realSizeTmp then (.error .ENOSPC, ctrl)
    else
      match vmaAllocBlock bal ctrl.freeBlockRoot realSizeTmp with
      | .error e => (.error e, ctrl)
      | .ok (offset, root) =>
          (.ok (offset, realSizeTmp),
            { ctrl with
              freeSize := Word.sub 64 ctrl.freeSize realSizeTmp
              allocBlockCnt := Word.add 64 ctrl.allocBlockCnt 1
              freeBlockRoot := root })

/-- The descent of `vma_free_block` to the link for a block at `start`; `none`
when a free block starts there. -/
def freeDescend (start : ℕ) : Path VmaBlock ℕ → VmaTree → Option (Path VmaBlock ℕ)
  | p, .nil => some p
  | p, .node l b g r =>
      if start < b.start then freeDescend start (.left b g r :: p) l
      else if b.start < start then freeDescend start (.right l b g :: p) r
      else none

def prevBlock : Path VmaBlock ℕ → Option VmaBlock
  | [] => none
  | .right _ b _ :: _ => some b
  | .left b g r :: p => (rbPrev ⟨p, .nil, b, g, r⟩).map Loc.a

def nextBlock : Path VmaBlock ℕ → Option VmaBlock
  | [] => none
  | .left b _ _ :: _ => some b
  | .right l b g :: p => (rbNext ⟨p, l, b, g, .nil⟩).map Loc.a

/-- `is_overlap` -/
def isOverlap (l1 h1 l2 h2 : ℕ) : Prop := l1 < h2 ∧ l2 < h1

instance (l1 h1 l2 h2 : ℕ) : Decidable (isOverlap l1 h1 l2 h2) :=
  inferInstanceAs (Decidable (_ ∧ _))

/-- The part of `vma_free_block` about the previous block: whether the block
was merged, and the tree. -/
def freeMergePrev (root : VmaTree) (prev : Option VmaBlock) (start size : ℕ) :
    Except Errno (Bool × VmaTree) :=
  match prev with
  | none => .ok (false, root)
  | some prev =>
      if Word.add 64 prev.start prev.size = start then
        .ok (true, blockUpdate root prev.start fun b => ⟨b.start, Word.add 64 b.size size⟩)
      else if isOverlap start (Word.add 64 start size) prev.start
          (Word.add 64 prev.start prev.size) then .error .EINVAL
      else .ok (false, root)

/-- The part of `vma_free_block` about the next block. -/
def freeMergeNext (bal : Rotations) (root : VmaTree) (merged : Bool)
    (prev next : Option VmaBlock) (start size : ℕ) : Except Errno (Bool × VmaTree) :=
  match next with
  | none => .ok (merged, root)
  | some block =>
      if Word.add 64 start size = block.start then
        match merged, prev with
        | true, some prev =>
            .ok (true, blockUpdate (blockErase bal root block.start) prev.start
              fun b => ⟨b.start, Word.add 64 b.size block.size⟩)
        | _, _ =>
            .ok (true, blockUpdate root block.start
              fun b => ⟨Word.sub 64 b.start size, Word.add 64 b.size size⟩)
      else if isOverlap start (Word.add 64 start size) block.start
          (Word.add 64 block.start block.size) then .error .EINVAL
      else .ok (merged, root)

/-- The result and the tree, which a failure may leave changed. -/
def vmaFreeBlock (kmalloc : Bool) (bal : Rotations) (root : VmaTree) (start size : ℕ) :
    Except Errno Unit × VmaTree :=
  match freeDescend start [] root with
  | none => (.error .EFAULT, root)
  | some p =>
      match freeMergePrev root (prevBlock p) start size with
      | .error e => (.error e, root)
      | .ok (mergedPrev, root₁) =>
          match freeMergeNext bal root₁ mergedPrev (prevBlock p) (nextBlock p) start size with
          | .error e => (.error e, root₁)
          | .ok (merged, root₂) =>
              if merged then (.ok (), root₂)
              else if kmalloc then
                -- the cache of the new leaf is set, the ones above it are not updated
                (.ok (), rbInsertAugmented computeSubtreeMaxSize bal ⟨start, size⟩ size p)
              else (.error .ENOMEM, root₂)

/-- The counters are updated whatever `vma_free_block` returns. -/
def vmaAlgoFree (kmalloc : Bool) (bal : Rotations) (ctrl : VmaCtrl) (addr realSize : ℕ) :
    Except Errno Unit × VmaCtrl :=
  let (ret, root) := vmaFreeBlock kmalloc bal ctrl.freeBlockRoot addr realSize
  (ret,
    { ctrl with
      freeSize := Word.add 64 ctrl.freeSize realSize
      allocBlockCnt := Word.sub 64 ctrl.allocBlockCnt 1
      freeBlockRoot := root })

/-! ## Runs of the allocator -/

/-- The control block and the blocks handed out, by address and rounded size. -/
structure VmaRun where
  ctrl : VmaCtrl
  live : List VmaBlock
  deriving DecidableEq

inductive VmaOp
  | alloc (allocSize : ℕ) (bal : Rotations)
  | free (block : VmaBlock) (bal : Rotations)

/-- One call; only live blocks are freed, and `kmalloc` succeeds. -/
def vmaStep (P : PageSize) (s : VmaRun) : VmaOp → Option VmaRun
  | .alloc allocSize bal =>
      match vmaAlgoAlloc P bal s.ctrl allocSize with
      | (.ok (addr, realSize), ctrl) => some ⟨ctrl, ⟨addr, realSize⟩ :: s.live⟩
      | (.error _, ctrl) => some ⟨ctrl, s.live⟩
  | .free block bal =>
      if block ∈ s.live then
        some ⟨(vmaAlgoFree true bal s.ctrl block.start block.size).2, s.live.erase block⟩
      else none

/-- The allocator of a pool of `T` bytes, from its creation on. -/
def vmaMachine (P : PageSize) (T : ℕ) : Machine VmaRun VmaOp where
  init s := T < 2 ^ 64 ∧ vmaInstCreate P T = some s.ctrl ∧ s.live = []
  step := vmaStep P

end OpiaiKernel.Xsmem
