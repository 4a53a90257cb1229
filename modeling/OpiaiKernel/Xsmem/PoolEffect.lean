import Mathlib.Algebra.Order.Group.Int
import OpiaiKernel.Xsmem.PoolInv

/-!
# The operations on the blocks as events

Each operation on the blocks of a pool either leaves the pool as it is or is
one event of the acting node.
-/

namespace OpiaiKernel.Xsmem

open Keyed Span

variable {σ ε : Type} {A : PoolAlgo σ ε}

/-! ## The block tree -/

theorem sorted_remove {l : List XsmBlock} {o : ℕ}
    (h : l.Pairwise fun a b => a.offset < b.offset) :
    (remove XsmBlock.offset o l).Pairwise fun a b => a.offset < b.offset :=
  h.sublist List.filter_sublist

theorem xsmemAddBlock_perm {l : List XsmBlock} {b : XsmBlock}
    (h : ∀ c ∈ l, c.offset ≠ b.offset) : (xsmemAddBlock l b).Perm (b :: l) := by
  induction l with
  | nil => exact .refl _
  | cons c l ih =>
      have hc := h c (by simp)
      rw [xsmemAddBlock]
      split
      · exact ((ih fun d hd => h d (by simp [hd])).cons c).trans (List.Perm.swap _ _ _)
      · rw [if_pos (by omega)]

theorem xsmemAddBlock_sorted {l : List XsmBlock} {b : XsmBlock}
    (h : ∀ c ∈ l, c.offset ≠ b.offset) (hsort : l.Pairwise fun a b => a.offset < b.offset) :
    (xsmemAddBlock l b).Pairwise fun a b => a.offset < b.offset := by
  induction l with
  | nil => simp [xsmemAddBlock]
  | cons c l ih =>
      have hc := h c (by simp)
      obtain ⟨hcl, hl⟩ := List.pairwise_cons.mp hsort
      have hrest : ∀ d ∈ l, d.offset ≠ b.offset := fun d hd => h d (by simp [hd])
      rw [xsmemAddBlock]
      split
      · next hlt =>
          refine List.pairwise_cons.mpr ⟨?_, ih hrest hl⟩
          intro d hd
          rcases List.mem_cons.mp ((xsmemAddBlock_perm hrest).mem_iff.mp hd) with rfl | hd
          · exact hlt
          · exact hcl d hd
      · rw [if_pos (by omega)]
        refine List.pairwise_cons.mpr ⟨?_, hsort⟩
        intro d hd
        rcases List.mem_cons.mp hd with rfl | hd
        · omega
        · have := hcl d hd
          omega

theorem mem_of_xsmemFindBlock {xp : XsmPool σ} {o : ℕ} {b : XsmBlock}
    (h : xsmemFindBlock xp o = some b) : b ∈ xp.blockRoot :=
  List.mem_of_find?_eq_some h

theorem xsmemNsBlkidAlloc_some {blockid : ℕ → Bool} {id : ℕ}
    (h : xsmemNsBlkidAlloc blockid = some id) :
    blockid id = false ∧ id < XSMEM_BLOCK_MAX_NUM := by
  have hfree := List.find?_some h
  have hmem := List.mem_of_find?_eq_some h
  rw [List.mem_range'_1] at hmem
  simp only [Bool.not_eq_true'] at hfree
  exact ⟨hfree, by omega⟩

/-- An id that is taken and put back leaves the bitmap as it was. -/
theorem xsmemBlockidPut_update {blockid : ℕ → Bool} {id : ℕ} (hfree : blockid id = false)
    (hlt : id < XSMEM_BLOCK_MAX_NUM) :
    xsmemBlockidPut (Function.update blockid id true) id = blockid := by
  rw [xsmemBlockidPut, if_pos hlt, Function.update_idem, ← hfree, Function.update_eq_self]

/-! ## Focus on the acting node and one block -/

/-- The pool with the node `n` and the block `b` split off. -/
structure Focused (xp : XsmPool σ) (n : TaskPoolNode) (N : List TaskPoolNode) (b : XsmBlock)
    (R : List XsmBlock) : Prop where
  node : Focus TaskPoolNode.task xp.nodeListHead n N
  block : Focus XsmBlock.offset xp.blockRoot b R

/-- `xp'` is made from `xp` by writes to nodes and blocks that keep the keys. -/
structure Written (xp xp' : XsmPool σ) : Prop where
  ident : xp'.ident = xp.ident
  members : xp'.members = xp.members
  offsets : xp'.blockRoot.map XsmBlock.offset = xp.blockRoot.map XsmBlock.offset
  same : xp'.priv = xp.priv ∧ xp'.allocSize = xp.allocSize ∧ xp'.realAllocSize = xp.realAllocSize

theorem Written.refl (xp : XsmPool σ) : Written xp xp := ⟨rfl, rfl, rfl, rfl, rfl, rfl⟩

theorem Written.trans {xp xp' xp'' : XsmPool σ} (h : Written xp xp') (h' : Written xp' xp'') :
    Written xp xp'' :=
  ⟨h'.ident.trans h.ident, h'.members.trans h.members, h'.offsets.trans h.offsets,
    h'.same.1.trans h.same.1, h'.same.2.1.trans h.same.2.1, h'.same.2.2.trans h.same.2.2⟩

theorem Written.sorted {xp xp' : XsmPool σ} (h : Written xp xp')
    (hsort : xp.blockRoot.Pairwise fun a b => a.offset < b.offset) :
    xp'.blockRoot.Pairwise fun a b => a.offset < b.offset := by
  rw [← List.pairwise_map (R := (· < ·)), h.offsets]
  exact List.pairwise_map.mpr hsort

theorem written_modifyBlock (xp : XsmPool σ) (o : ℕ) {f : XsmBlock → XsmBlock}
    (hf : ∀ b, (f b).offset = b.offset) : Written xp (xp.modifyBlock o f) :=
  ⟨rfl, rfl, map_modify hf, rfl, rfl, rfl⟩

theorem written_modifyNode (xp : XsmPool σ) (uid : ℕ) {f : TaskPoolNode → TaskPoolNode}
    (hf : ∀ n, ((f n).task, (f n).pid, (f n).attr) = (n.task, n.pid, n.attr)) :
    Written xp (xp.modifyNode uid f) :=
  ⟨rfl, map_modify hf, rfl, rfl, rfl, rfl⟩

theorem written_blkRefcntAdd (xp : XsmPool σ) (o : ℕ) (d : ℤ) :
    Written xp (blkRefcntAdd xp o d) :=
  written_modifyBlock xp o fun _ => rfl

theorem written_setTaskBlockRefcnt (xp : XsmPool σ) (uid o : ℕ) (c : ℤ) :
    Written xp (setTaskBlockRefcnt xp uid o c) :=
  written_modifyBlock xp o fun _ => rfl

theorem written_xsmemTaskLinkBlk (xp : XsmPool σ) (uid o : ℕ) (c : ℤ) :
    Written xp (xsmemTaskLinkBlk xp uid o c) :=
  (written_modifyNode xp uid (by exact fun _ => rfl)).trans
    (written_modifyBlock _ o (by exact fun _ => rfl))

theorem written_xsmemTaskUnlinkBlk (xp : XsmPool σ) (uid o : ℕ) :
    Written xp (xsmemTaskUnlinkBlk xp uid o) :=
  (written_modifyNode xp uid (by exact fun _ => rfl)).trans
    (written_modifyBlock _ o (by exact fun _ => rfl))

theorem written_nodeStatSub (xp : XsmPool σ) (uid : ℕ) (b : XsmBlock) :
    Written xp (nodeStatSub xp uid b) :=
  written_modifyNode xp uid fun _ => rfl

section Focused

variable {xp : XsmPool σ} {n : TaskPoolNode} {N : List TaskPoolNode} {b : XsmBlock}
  {R : List XsmBlock} (h : Focused xp n N b R)

include h

theorem Focused.modifyBlock {f : XsmBlock → XsmBlock} (hf : (f b).offset = b.offset) :
    Focused (xp.modifyBlock b.offset f) n N (f b) R :=
  ⟨h.node, h.block.modify hf⟩

theorem Focused.modifyNode {f : TaskPoolNode → TaskPoolNode} (hf : (f n).task = n.task) :
    Focused (xp.modifyNode n.task f) (f n) N b R :=
  ⟨h.node.modify hf, h.block⟩

theorem Focused.edit {xp' : XsmPool σ} {n' : TaskPoolNode} {b' : XsmBlock}
    (h' : Focused xp' n' N b' R) (hw : Written xp xp')
    (hsort : xp.blockRoot.Pairwise fun a b => a.offset < b.offset)
    (hsame : n'.task = n.task ∧ n'.pid = n.pid) : Edit xp xp' n n' [b] [b'] :=
  ⟨hw.ident, hw.members, hsame, ⟨N, h.node, h'.node⟩, ⟨R, h.block.perm, h'.block.perm⟩,
    hw.sorted hsort⟩

end Focused

/-! ## Dropping a hold -/

/-- The pool after the acting node unlinked from the block; a free also takes
the block out of the totals of the node. -/
def dropHold (exit : Bool) (xp : XsmPool σ) (n : TaskPoolNode) (b : XsmBlock)
    (t : TaskBlockNode) : XsmPool σ :=
  let xp := if exit = false ∧ b.pid = n.pid then nodeStatSub xp n.task b else xp
  blkRefcntAdd (xsmemTaskUnlinkBlk xp n.task b.offset) b.offset (-t.refcnt)

def nodeDropped (exit : Bool) (n : TaskPoolNode) (b : XsmBlock) : TaskPoolNode :=
  let stat := if exit = false then statDropped n b else n.stat
  { n with
    allocSize := stat.1, realAllocSize := stat.2, taskBlkHead := n.taskBlkHead.erase b.offset }

def blockDropped (b : XsmBlock) (t : TaskBlockNode) : XsmBlock :=
  { b with
    refcnt := b.refcnt + -t.refcnt
    taskBlkHead := remove TaskBlockNode.node t.node b.taskBlkHead }

section Drop

variable {xp : XsmPool σ} {n : TaskPoolNode} {N : List TaskPoolNode} {b : XsmBlock}
  {R : List XsmBlock} {t : TaskBlockNode}

theorem Focused.unlink (h : Focused xp n N b R) (ht : t.node = n.task) :
    Focused (blkRefcntAdd (xsmemTaskUnlinkBlk xp n.task b.offset) b.offset (-t.refcnt))
      { n with taskBlkHead := n.taskBlkHead.erase b.offset } N (blockDropped b t) R := by
  rw [blockDropped, ht]
  exact ((h.modifyNode rfl).modifyBlock rfl).modifyBlock rfl

theorem Focused.dropHold (h : Focused xp n N b R) (ht : t.node = n.task) (exit : Bool) :
    Focused (dropHold exit xp n b t) (nodeDropped exit n b) N (blockDropped b t) R := by
  unfold OpiaiKernel.Xsmem.dropHold nodeDropped
  by_cases hstat : exit = false ∧ b.pid = n.pid
  · simp only [hstat, and_self, if_true, statDropped]
    have hsub : Focused (nodeStatSub xp n.task b) _ N b R := h.modifyNode rfl
    exact hsub.unlink ht
  · simp only [hstat, if_false]
    have hsame : (if exit = false then statDropped n b else n.stat) = n.stat := by
      split
      · next hexit => rw [statDropped, if_neg fun hpid => hstat ⟨hexit, hpid⟩, TaskPoolNode.stat]
      · rfl
    rw [hsame]
    exact h.unlink ht

theorem written_dropHold (exit : Bool) (xp : XsmPool σ) (n : TaskPoolNode) (b : XsmBlock)
    (t : TaskBlockNode) : Written xp (dropHold exit xp n b t) := by
  unfold dropHold
  dsimp only
  split
  · exact (written_nodeStatSub xp n.task b).trans
      ((written_xsmemTaskUnlinkBlk _ _ _).trans (written_blkRefcntAdd _ _ _))
  · exact (written_xsmemTaskUnlinkBlk _ _ _).trans (written_blkRefcntAdd _ _ _)

theorem nodeDropped_blks {exit : Bool} (hnodup : n.taskBlkHead.Nodup) (o : ℕ) :
    o ∈ (nodeDropped exit n b).taskBlkHead ↔ o ∈ n.taskBlkHead ∧ o ≠ b.offset := by
  rw [nodeDropped, hnodup.mem_erase_iff, and_comm]

variable {v : PoolView σ} (h : PoolInv A v) (hn : n ∈ v.xp.nodeListHead)
  (hb : b ∈ v.xp.blockRoot) (ht : t ∈ b.taskBlkHead) (htask : t.node = n.task)

include h hn hb

theorem PoolInv.focused :
    Focused v.xp n (remove TaskPoolNode.task n.task v.xp.nodeListHead) b
      (remove XsmBlock.offset b.offset v.xp.blockRoot) :=
  ⟨h.linked.nodes_uniq.focus hn, h.uniq.focus hb⟩

include ht htask

/-- The hold on the block is dropped and the block stays. -/
theorem dropHold_rehold {exit : Bool}
    (hkeep : 0 < b.refcnt - t.refcnt ∨ exit = true ∧ ¬ xsmemIsBlkNeedAutoRecycle b) :
    Effect A exit v { v with xp := dropHold exit v.xp n b t } n (nodeDropped exit n b)
      (.rehold b (blockDropped b t) (some t) none) := by
  have hfoc := h.focused hn hb
  have hok := h.linked.block_ok b hb
  have hH := hok.holders.focus ht
  have hwritten := written_dropHold exit v.xp n b t
  obtain ⟨hpriv, halloc, hreal⟩ := hwritten.same
  refine
    { edit := hfoc.edit (hfoc.dropHold htask exit) hwritten h.sorted ⟨rfl, rfl⟩
      rehold := ⟨rfl, ⟨_, hH.perm, .refl _, ?_⟩, ?_, by simp, ?_⟩
      same := ⟨hpriv, rfl, halloc, hreal⟩
      kept := ?_
      nodup := (h.linked.blks_nodup n hn).erase _
      blks := ?_
      stat := ?_ }
  · exact fun x hx => htask ▸ hH.apart x hx
  · simpa using htask
  · simp only [blockDropped, Option.toList_some, Option.toList_none, List.map_cons, List.map_nil,
      List.sum_cons, List.sum_nil]
    omega
  · refine hkeep.imp_left fun hpos hfree => ?_
    have hsum := (hH.perm.map TaskBlockNode.refcnt).sum_eq
    have hrefcnt := hok.refcnt_eq
    simp only [XsmBlock.held] at hrefcnt
    simp only [blockDropped] at hfree
    simp only [hfree, List.map_cons, List.map_nil, List.sum_cons, List.sum_nil] at hsum
    omega
  · intro o
    rw [nodeDropped_blks (h.linked.blks_nodup n hn)]
    simp
  · simp [nodeDropped, TaskPoolNode.stat]

/-- The last hold on the block is dropped and the block is given back. -/
theorem dropHold_recycle {exit : Bool} {env : ε} (hlast : b.refcnt - t.refcnt ≤ 0)
    (hauto : exit = true → xsmemIsBlkNeedAutoRecycle b) (hone : exit = false → t.refcnt = 1) :
    Effect A exit v (recycleBlock A env { v with xp := dropHold exit v.xp n b t } b) n
      (nodeDropped exit n b) (.recycle b t) := by
  have hfoc := h.focused hn hb
  have hfoc' := hfoc.dropHold htask exit
  have hok := h.linked.block_ok b hb
  have hH := hok.holders.focus ht
  have hwritten := written_dropHold exit v.xp n b t
  obtain ⟨hpriv, halloc, hreal⟩ := hwritten.same
  have hperm : (remove XsmBlock.offset b.offset
      (dropHold exit v.xp n b t).blockRoot).Perm
      (remove XsmBlock.offset b.offset v.xp.blockRoot) :=
    hfoc'.block.remove
  refine
    { edit := ⟨hwritten.ident, hwritten.members, ⟨rfl, rfl⟩, ⟨_, hfoc.node, hfoc'.node⟩,
        ⟨_, hfoc.block.perm, hperm⟩, sorted_remove (hwritten.sorted h.sorted)⟩
      hold := ⟨?_, htask⟩
      live := ?_
      auto := hauto
      last := hone
      blockid := rfl
      blks := rfl
      stat := ?_
      total := ⟨?_, ?_⟩ }
  · -- every other holder has a positive count, and nothing is left for it
    have hsum := (hH.perm.map TaskBlockNode.refcnt).sum_eq
    have hrefcnt := hok.refcnt_eq
    simp only [XsmBlock.held] at hrefcnt
    simp only [List.map_cons, List.sum_cons] at hsum
    cases hrest : remove TaskBlockNode.node t.node b.taskBlkHead with
    | nil => exact List.perm_singleton.mp (hrest ▸ hH.perm)
    | cons x H =>
        have hpos : ∀ y ∈ x :: H, 0 < y.refcnt := fun y hy =>
          hok.pos y (mem_remove.mp (hrest ▸ hy)).1
        have hx := hpos x (by simp)
        have hHsum : 0 ≤ (H.map TaskBlockNode.refcnt).sum :=
          List.sum_nonneg (by simpa using fun y hy => (hpos y (by simp [hy])).le)
        simp only [hrest, List.map_cons, List.sum_cons] at hsum
        omega
  · have hspan := hfoc.block.perm.map XsmBlock.span
    have hfree := A.live_free (e := env) (A.live_perm h.live hspan)
    have hlive : (recycleBlock A env { v with xp := dropHold exit v.xp n b t } b).xp.priv =
        A.xsmBlockFree env v.xp.priv b.offset b.realSize := by
      rw [← hpriv]
      rfl
    rw [hlive]
    exact A.live_perm hfree (hperm.map XsmBlock.span).symm
  · simp [nodeDropped, TaskPoolNode.stat]
  · exact congrArg (Word.sub 64 · b.allocSize) halloc
  · exact congrArg (Word.sub 64 · b.realSize) hreal

end Drop

/-! ## Changing and taking a hold -/

/-- The count of the task `uid` on the block is set to `c`, and `d` is added to
the count of the block. -/
def blockRecounted (b : XsmBlock) (uid : ℕ) (c d : ℤ) : XsmBlock :=
  { b with
    refcnt := b.refcnt + d
    taskBlkHead := modify TaskBlockNode.node uid (fun t => { t with refcnt := c }) b.taskBlkHead }

/-- A new node of the task `uid` is linked to the block, with the count 1. -/
def blockGot (b : XsmBlock) (uid : ℕ) : XsmBlock :=
  blockRecounted { b with taskBlkHead := b.taskBlkHead ++ [⟨uid, 0⟩] } uid 1 1

/-- The pool after the task `uid` linked to the block at `o`. -/
def linkGot (xp : XsmPool σ) (uid o : ℕ) : XsmPool σ :=
  setTaskBlockRefcnt (blkRefcntAdd (xsmemTaskLinkBlk xp uid o 0) o 1) uid o 1

def nodeLinked (n : TaskPoolNode) (o : ℕ) : TaskPoolNode :=
  { n with taskBlkHead := n.taskBlkHead ++ [o] }

section Hold

variable {v : PoolView σ} {n : TaskPoolNode} {b : XsmBlock} {t : TaskBlockNode}
  (h : PoolInv A v) (hn : n ∈ v.xp.nodeListHead) (hb : b ∈ v.xp.blockRoot)

include h hn hb

theorem recount_effect (ht : t ∈ b.taskBlkHead) (htask : t.node = n.task) {xp' : XsmPool σ}
    {c d : ℤ} (hw : Written v.xp xp')
    (hfoc' : Focused xp' n (remove TaskPoolNode.task n.task v.xp.nodeListHead)
      (blockRecounted b n.task c d) (remove XsmBlock.offset b.offset v.xp.blockRoot))
    (hc : c = t.refcnt + d) (hpos : 0 < c) (exit : Bool) :
    Effect A exit v { v with xp := xp' } n n
      (.rehold b (blockRecounted b n.task c d) (some t) (some ⟨n.task, c⟩)) := by
  have hH := (h.linked.block_ok b hb).holders.focus ht
  have hH' : Focus TaskBlockNode.node (blockRecounted b n.task c d).taskBlkHead ⟨n.task, c⟩
      (remove TaskBlockNode.node t.node b.taskBlkHead) := by
    have hmod := hH.modify (f := fun t => { t with refcnt := c }) rfl
    rwa [htask] at hmod ⊢
  have hheld : b.offset ∈ n.taskBlkHead :=
    (h.linked.link n hn _).mpr ⟨b, hb, rfl, t, ht, htask⟩
  refine
    { edit := (h.focused hn hb).edit hfoc' hw h.sorted ⟨rfl, rfl⟩
      rehold := ⟨rfl, ⟨_, hH.perm, hH'.perm, ?_⟩, ?_, ?_, ?_⟩
      same := ⟨hw.same.1, rfl, hw.same.2⟩
      kept := .inl (List.ne_nil_of_mem hH'.mem)
      nodup := h.linked.blks_nodup n hn
      blks := ?_
      stat := by simp }
  · exact fun x hx => htask ▸ hH.apart x hx
  · simpa using htask
  · simpa using hpos
  · simp only [blockRecounted, Option.toList_some, List.map_cons, List.map_nil, List.sum_cons,
      List.sum_nil]
    omega
  · intro o
    by_cases ho : o = b.offset
    · simp [ho, hheld]
    · simp [ho]

theorem not_mem_of_not_held (ht : xsmemFindTaskBlockNode n.task b = none) :
    (∀ x ∈ b.taskBlkHead, x.node ≠ n.task) ∧ b.offset ∉ n.taskBlkHead := by
  have hnone := get_eq_none.mp ht
  refine ⟨hnone, fun hmem => ?_⟩
  obtain ⟨c, hc, hco, x, hx, hxn⟩ := (h.linked.link n hn _).mp hmem
  obtain rfl := h.uniq.eq_of_key hc hb hco
  exact hnone x hx hxn

theorem get_effect (ht : xsmemFindTaskBlockNode n.task b = none) (exit : Bool) :
    Effect A exit v { v with xp := linkGot v.xp n.task b.offset } n (nodeLinked n b.offset)
      (.rehold b (blockGot b n.task) none (some ⟨n.task, 1⟩)) := by
  obtain ⟨hnone, hnot⟩ := not_mem_of_not_held h hn hb ht
  have hfoc := h.focused hn hb
  have hfoc' : Focused (linkGot v.xp n.task b.offset) (nodeLinked n b.offset)
      (remove TaskPoolNode.task n.task v.xp.nodeListHead) (blockGot b n.task)
      (remove XsmBlock.offset b.offset v.xp.blockRoot) :=
    (((hfoc.modifyNode rfl).modifyBlock rfl).modifyBlock rfl).modifyBlock rfl
  have hH' : Focus TaskBlockNode.node (blockGot b n.task).taskBlkHead ⟨n.task, 1⟩
      b.taskBlkHead := by
    have hsnoc : Focus TaskBlockNode.node (b.taskBlkHead ++ [⟨n.task, 0⟩]) ⟨n.task, 0⟩
        b.taskBlkHead := Focus.snoc hnone
    exact hsnoc.modify (f := fun t : TaskBlockNode => { t with refcnt := 1 }) rfl
  have hw : Written v.xp (linkGot v.xp n.task b.offset) :=
    (written_xsmemTaskLinkBlk _ _ _ _).trans
      ((written_blkRefcntAdd _ _ _).trans (written_setTaskBlockRefcnt _ _ _ _))
  refine
    { edit := hfoc.edit hfoc' hw h.sorted ⟨rfl, rfl⟩
      rehold := ⟨rfl, ⟨_, .refl _, hH'.perm, hnone⟩, by simp, by simp, ?_⟩
      same := ⟨hw.same.1, rfl, hw.same.2⟩
      kept := .inl (List.ne_nil_of_mem hH'.mem)
      nodup := ?_
      blks := ?_
      stat := by simp [nodeLinked, TaskPoolNode.stat] }
  · simp only [blockGot, blockRecounted, Option.toList_some, Option.toList_none, List.map_cons,
      List.map_nil, List.sum_cons, List.sum_nil]
    omega
  · refine (h.linked.blks_nodup n hn).append (List.nodup_singleton _) ?_
    intro o ho hob
    exact hnot (List.mem_singleton.mp hob ▸ ho)
  · intro o
    have hne : o ∈ n.taskBlkHead → o ≠ b.offset := fun ho hob => hnot (hob ▸ ho)
    simp only [nodeLinked, List.mem_append, List.mem_singleton, Option.isSome_some]
    tauto

end Hold

/-! ## The operations -/

variable {v v' : PoolView σ} {n : TaskPoolNode}

theorem xsmemFindTaskBlockNode_some {uid : ℕ} {b : XsmBlock} {t : TaskBlockNode}
    (h : xsmemFindTaskBlockNode uid b = some t) : t ∈ b.taskBlkHead ∧ t.node = uid :=
  ⟨mem_of_get h, key_of_get h⟩

theorem BlockOk.refcnt_le {b : XsmBlock} (h : BlockOk b) {t : TaskBlockNode}
    (ht : t ∈ b.taskBlkHead) : t.refcnt ≤ b.refcnt := by
  rw [h.refcnt_eq, XsmBlock.held]
  refine List.single_le_sum ?_ _ (List.mem_map_of_mem ht)
  simpa using fun x hx => (h.pos x hx).le

/-- The acting node held the block before. -/
def BlockEvent.Held : BlockEvent → Prop
  | .alloc _ => False
  | .rehold _ _ t _ => t.isSome
  | .recycle _ _ => True

/-- A free fails and changes nothing, or drops one reference of the node. -/
theorem ioctlXsmemBlockFree_effect (h : PoolInv A v) (hn : n ∈ v.xp.nodeListHead) {env : ε}
    {o : ℕ} {r : Except Errno Unit} (hop : ioctlXsmemBlockFree A env v n o = (r, v')) :
    v' = v ∨ ∃ ev n', ev.Held ∧ Effect A false v v' n n' ev := by
  unfold ioctlXsmemBlockFree at hop
  cases hfind : xsmemFindBlock v.xp o with
  | none =>
      simp only [hfind, Prod.mk.injEq] at hop
      exact .inl hop.2.symm
  | some b =>
      cases htbn : xsmemFindTaskBlockNode n.task b with
      | none =>
          simp only [hfind, htbn, Prod.mk.injEq] at hop
          exact .inl hop.2.symm
      | some t =>
          right
          obtain ⟨ht, htask⟩ := xsmemFindTaskBlockNode_some htbn
          have hb := mem_of_xsmemFindBlock hfind
          have hok := h.linked.block_ok b hb
          have hpos := hok.pos t ht
          have hle := hok.refcnt_le ht
          simp only [hfind, htbn] at hop
          by_cases hlast : t.refcnt - 1 ≤ 0
          · have hone : t.refcnt = 1 := by omega
            have hdrop : (blkRefcntAdd (xsmemTaskUnlinkBlk
                (if b.pid = n.pid then nodeStatSub v.xp n.task b else v.xp)
                n.task b.offset) b.offset (-1)) = dropHold false v.xp n b t := by
              simp [dropHold, hone]
            simp only [hlast, if_true, hdrop] at hop
            split at hop
            · next hzero =>
                simp only [Prod.mk.injEq] at hop
                obtain ⟨-, rfl⟩ := hop
                exact ⟨.recycle b t, _, trivial, dropHold_recycle h hn hb ht htask (by omega) (by simp)
                  fun _ => hone⟩
            · next hmore =>
                simp only [Prod.mk.injEq] at hop
                obtain ⟨-, rfl⟩ := hop
                exact ⟨.rehold b _ (some t) _, _, rfl, dropHold_rehold h hn hb ht htask (.inl (by omega))⟩
          · simp only [hlast, if_false, if_neg (show ¬ b.refcnt - 1 ≤ 0 by omega),
              Prod.mk.injEq] at hop
            obtain ⟨-, rfl⟩ := hop
            exact ⟨.rehold b _ (some t) _, _, rfl, recount_effect h hn hb ht htask
              ((written_setTaskBlockRefcnt _ _ _ _).trans (written_blkRefcntAdd _ _ _))
              (((h.focused hn hb).modifyBlock rfl).modifyBlock rfl) rfl (by omega) false⟩

/-- A get fails and changes nothing, adds a reference to a hold of the node, or
links the node to the block. -/
theorem xsmemPoolBlockGet_effect (h : PoolInv A v) (hn : n ∈ v.xp.nodeListHead) {kmalloc : Bool}
    {o : ℕ} {r : Except Errno (ℕ × ℕ × ℕ)} {xp' : XsmPool σ}
    (hop : xsmemPoolBlockGet kmalloc v.xp n o = (r, xp')) :
    xp' = v.xp ∨ ∃ b, xsmemFindBlock v.xp o = some b ∧
      ((∃ t, xsmemFindTaskBlockNode n.task b = some t ∧
        Effect A false v { v with xp := xp' } n n (.rehold b
          (blockRecounted b n.task (t.refcnt + 1) 1) (some t) (some ⟨n.task, t.refcnt + 1⟩))) ∨
      xsmemFindTaskBlockNode n.task b = none ∧
        Effect A false v { v with xp := xp' } n (nodeLinked n b.offset)
          (.rehold b (blockGot b n.task) none (some ⟨n.task, 1⟩))) := by
  unfold xsmemPoolBlockGet at hop
  cases hfind : xsmemFindBlock v.xp o with
  | none =>
      simp only [hfind, Prod.mk.injEq] at hop
      exact .inl hop.2.symm
  | some b =>
      have hb := mem_of_xsmemFindBlock hfind
      cases htbn : xsmemFindTaskBlockNode n.task b with
      | none =>
          simp only [hfind, htbn] at hop
          split at hop
          · exact .inl (Prod.mk.inj hop).2.symm
          · obtain rfl := (Prod.mk.inj hop).2
            exact .inr ⟨b, rfl, .inr ⟨htbn, get_effect h hn hb htbn false⟩⟩
      | some t =>
          obtain ⟨ht, htask⟩ := xsmemFindTaskBlockNode_some htbn
          have hpos := (h.linked.block_ok b hb).pos t ht
          simp only [hfind, htbn] at hop
          split at hop
          · exact .inl (Prod.mk.inj hop).2.symm
          · obtain rfl := (Prod.mk.inj hop).2
            exact .inr ⟨b, rfl, .inl ⟨t, htbn, recount_effect h hn hb ht htask
              ((written_blkRefcntAdd _ _ _).trans (written_setTaskBlockRefcnt _ _ _ _))
              (((h.focused hn hb).modifyBlock rfl).modifyBlock rfl) rfl (by omega) false⟩⟩

/-- Only the private data of the algorithm may change. -/
structure Idle (A : PoolAlgo σ ε) (v v' : PoolView σ) : Prop where
  xp : v'.xp = { v.xp with priv := v'.xp.priv }
  blockid : v'.blockid = v.blockid
  live : A.Live v'.xp.priv (v.xp.blockRoot.map XsmBlock.span)

theorem PoolInv.idle (h : PoolInv A v) : Idle A v v := ⟨rfl, rfl, h.live⟩

theorem Idle.inv (e : Idle A v v') (h : PoolInv A v) : PoolInv A v' := by
  obtain ⟨xp', blockid'⟩ := v'
  obtain ⟨hxp, hblockid, hlive⟩ := e
  dsimp only at hxp hblockid hlive
  rw [hxp, hblockid]
  exact ⟨h.sorted, hlive, h.linked, h.taken, h.alloc_eq, h.real_eq⟩

def nodeAlloced (n : TaskPoolNode) (b : XsmBlock) : TaskPoolNode :=
  { n with
    taskBlkHead := n.taskBlkHead ++ [b.offset]
    allocSize := Word.add 64 n.allocSize b.allocSize
    realAllocSize := Word.add 64 n.realAllocSize b.realSize }

/-- The tests of an allocation pass, and the algorithm finds room. -/
structure AllocPasses (A : PoolAlgo σ ε) (env : ε) (kmalloc : Bool) (v : PoolView σ)
    (n : TaskPoolNode) (size flag : ℕ) : Prop where
  attr : n.attr.alloc = true
  memory : kmalloc = true
  id : ∃ id, xsmemNsBlkidAlloc v.blockid = some id
  room : ∃ r priv, A.xsmBlockAlloc env v.xp.priv size flag = (.ok r, priv)

/-- An allocation fails and leaves the blocks as they are, or hands one out. -/
theorem ioctlXsmemBlockAlloc_effect (h : PoolInv A v) (hn : n ∈ v.xp.nodeListHead) {env : ε}
    {kmalloc : Bool} {tgid size flag : ℕ} {r : Except Errno (ℕ × ℕ)}
    (hop : ioctlXsmemBlockAlloc A env kmalloc tgid v n size flag = (r, v')) :
    Idle A v v' ∨ ∃ b n', b.pid = tgid ∧ AllocPasses A env kmalloc v n size flag ∧
      Effect A false v v' n n' (.alloc b) := by
  unfold ioctlXsmemBlockAlloc at hop
  by_cases hattr : n.attr.alloc = false
  · rw [if_pos hattr] at hop
    exact .inl ((Prod.mk.inj hop).2 ▸ h.idle)
  rw [if_neg hattr] at hop
  by_cases hmemory : kmalloc = false
  · rw [if_pos hmemory] at hop
    exact .inl ((Prod.mk.inj hop).2 ▸ h.idle)
  rw [if_neg hmemory] at hop
  cases hid : xsmemNsBlkidAlloc v.blockid with
  | none =>
      simp only [hid] at hop
      exact .inl ((Prod.mk.inj hop).2 ▸ h.idle)
  | some blkid =>
      obtain ⟨hfree, hlt⟩ := xsmemNsBlkidAlloc_some hid
      simp only [hid] at hop
      rcases halloc : A.xsmBlockAlloc env v.xp.priv size flag with ⟨e | ⟨offset, realSize⟩, priv⟩
      · simp only [halloc, xsmemBlockidPut_update hfree hlt] at hop
        obtain rfl := (Prod.mk.inj hop).2
        exact .inl ⟨rfl, rfl, A.live_alloc_error h.live halloc⟩
      · obtain ⟨hlive, hpos, hle⟩ := A.live_alloc h.live halloc
        simp only [halloc] at hop
        obtain rfl := (Prod.mk.inj hop).2
        let b₀ : XsmBlock :=
          { refcnt := 1, pid := tgid, id := blkid, offset, flag, allocSize := size, realSize
            taskBlkHead := [] }
        let b : XsmBlock := { b₀ with taskBlkHead := [⟨n.task, 1⟩] }
        let xp₀ : XsmPool σ := { v.xp with priv, blockRoot := xsmemAddBlock v.xp.blockRoot b₀ }
        have hoff : ∀ c ∈ v.xp.blockRoot, c.offset ≠ offset :=
          h.offset_ne_of_live (b := b₀) hlive (hpos.trans_le hle)
        have hperm : (xsmemAddBlock v.xp.blockRoot b₀).Perm (b₀ :: v.xp.blockRoot) :=
          xsmemAddBlock_perm hoff
        have hsort := xsmemAddBlock_sorted (b := b₀) hoff h.sorted
        have hnode := h.linked.nodes_uniq.focus hn
        have hfoc : Focused xp₀ n (remove TaskPoolNode.task n.task v.xp.nodeListHead) b₀
            v.xp.blockRoot := ⟨hnode, hperm, hoff⟩
        have hfoc' : Focused (nodeStatAdd (xsmemTaskLinkBlk xp₀ n.task offset 1) n.task b₀)
            (nodeAlloced n b₀) (remove TaskPoolNode.task n.task v.xp.nodeListHead) b
            v.xp.blockRoot :=
          ((hfoc.modifyNode (f := fun n => nodeLinked n offset) rfl).modifyBlock
            rfl).modifyNode rfl
        have hw : Written xp₀ (nodeStatAdd (xsmemTaskLinkBlk xp₀ n.task offset 1) n.task b₀) :=
          (written_xsmemTaskLinkBlk _ _ _ _).trans (written_modifyNode _ _ fun _ => rfl)
        have hpass : AllocPasses A env kmalloc v n size flag :=
          ⟨by simpa using hattr, by simpa using hmemory, ⟨_, hid⟩, ⟨_, _, halloc⟩⟩
        refine .inr ⟨b, nodeAlloced n b₀, rfl, hpass, ?_⟩
        exact
          { edit := ⟨hw.ident, hw.members, ⟨rfl, rfl⟩, ⟨_, hnode, hfoc'.node⟩,
              ⟨v.xp.blockRoot, .refl _, hfoc'.block.perm⟩, hw.sorted hsort⟩
            hold := ⟨rfl, rfl⟩
            size := ⟨hpos, hle⟩
            live := hlive
            id := ⟨hfree, hlt⟩
            blockid := rfl
            blks := rfl
            stat := rfl
            total := ⟨rfl, rfl⟩ }

/-! ## A task leaves the pool -/

/-- The acting node drops holds, one after the other, because its task leaves. -/
inductive Leaves (A : PoolAlgo σ ε) : PoolView σ → TaskPoolNode → PoolView σ → TaskPoolNode → Prop
  | nil (v : PoolView σ) (n : TaskPoolNode) : Leaves A v n v n
  | cons {v v' v'' : PoolView σ} {n n' n'' : TaskPoolNode} {ev : BlockEvent}
      (e : Effect A true v v' n n' ev) (drop : ∀ b, ev ≠ .alloc b)
      (rest : Leaves A v' n' v'' n'') : Leaves A v n v'' n''

theorem taskClearBlockRound_effect (h : PoolInv A v) (hn : n ∈ v.xp.nodeListHead)
    (env : ℕ → ε) {o : ℕ} (ho : o ∈ n.taskBlkHead) :
    ∃ ev, (∀ b, ev ≠ .alloc b) ∧ ∃ b : XsmBlock, b.offset = o ∧
      Effect A true v (taskClearBlockRound A env n.task v o) n (nodeDropped true n b) ev := by
  obtain ⟨b, hb, rfl, t, ht, htask⟩ := (h.linked.link n hn o).mp ho
  have hget : get XsmBlock.offset b.offset v.xp.blockRoot = some b := (h.uniq.focus hb).get
  have htbn : xsmemFindTaskBlockNode n.task b = some t := by
    rw [← htask]
    exact ((h.linked.block_ok b hb).holders.focus ht).get
  have hdrop : blkRefcntAdd (xsmemTaskUnlinkBlk v.xp n.task b.offset) b.offset (-t.refcnt) =
      dropHold true v.xp n b t := by
    simp [dropHold]
  simp only [taskClearBlockRound, hget, htbn, hdrop]
  split
  · next hlast =>
      exact ⟨_, by simp, b, rfl, dropHold_recycle h hn hb ht htask hlast.1 (fun _ => hlast.2)
        (by simp)⟩
  · next hkeep =>
      refine ⟨_, ?_, b, rfl, dropHold_rehold h hn hb ht htask ?_⟩
      · simp
      · rw [not_and_or] at hkeep
        exact hkeep.imp (by omega) fun hauto => ⟨rfl, hauto⟩

theorem Effect.mem {exit : Bool} {n' : TaskPoolNode} {ev : BlockEvent}
    (e : Effect A exit v v' n n' ev) : n' ∈ v'.xp.nodeListHead := by
  cases ev with
  | alloc b => exact e.edit.nodes.choose_spec.2.mem
  | rehold b b' t t' => exact e.edit.nodes.choose_spec.2.mem
  | recycle b t => exact e.edit.nodes.choose_spec.2.mem

theorem taskClearBlockRounds_leaves {env : ℕ → ε} (h : PoolInv A v)
    (hn : n ∈ v.xp.nodeListHead) :
    ∃ n', Leaves A v n (n.taskBlkHead.foldl (taskClearBlockRound A env n.task) v) n' ∧
      n'.taskBlkHead = [] := by
  generalize hl : n.taskBlkHead = l
  induction l generalizing v n with
  | nil => exact ⟨n, .nil v n, hl⟩
  | cons o l ih =>
      obtain ⟨ev, hdrop, b, rfl, e⟩ := taskClearBlockRound_effect h hn env
        (o := o) (by simp [hl])
      have hlist : (nodeDropped true n b).taskBlkHead = l := by
        simp [nodeDropped, hl]
      obtain ⟨n', hleaves, hempty⟩ := ih (e.inv h) e.mem hlist
      exact ⟨n', .cons e hdrop hleaves, hempty⟩

/-- When a task leaves, its node drops every hold. -/
theorem xsmemTaskClearBlock_leaves (h : PoolInv A v) (hn : n ∈ v.xp.nodeListHead)
    (env : ℕ → ε) :
    ∃ n', Leaves A v n (xsmemTaskClearBlock A env v n.task) n' ∧ n'.taskBlkHead = [] := by
  have hget : get TaskPoolNode.task n.task v.xp.nodeListHead = some n :=
    (h.linked.nodes_uniq.focus hn).get
  simp only [xsmemTaskClearBlock, hget]
  exact taskClearBlockRounds_leaves h hn

end OpiaiKernel.Xsmem
