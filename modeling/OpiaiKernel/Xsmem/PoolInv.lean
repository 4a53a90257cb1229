import Mathlib.Algebra.Order.BigOperators.Group.List
import Mathlib.Algebra.Order.Group.Nat
import OpiaiKernel.Xsmem.Pool
import Mathlib.Algebra.Ring.Int.Defs

/-!
# The invariant of a pool

Between the operations on a pool, the blocks of the tree are the blocks the
algorithm has handed out, the links between blocks and nodes agree in both
directions, the count of a block is what its holders hold, and the totals of
the pool are the sums over the tree.
-/

namespace OpiaiKernel.Xsmem

open Keyed Span

variable {σ ε : Type} {A : PoolAlgo σ ε}

def XsmBlock.span (b : XsmBlock) : Span := ⟨b.offset, b.realSize⟩

/-- The task `uid` has a node on the block. -/
def XsmBlock.HeldBy (b : XsmBlock) (uid : ℕ) : Prop := ∃ t ∈ b.taskBlkHead, t.node = uid

instance (b : XsmBlock) (uid : ℕ) : Decidable (b.HeldBy uid) :=
  inferInstanceAs (Decidable (∃ t ∈ b.taskBlkHead, _))

/-- The number of references that the holders have. -/
def XsmBlock.held (b : XsmBlock) : ℤ := (b.taskBlkHead.map TaskBlockNode.refcnt).sum

structure BlockOk (b : XsmBlock) : Prop where
  holders : Uniq TaskBlockNode.node b.taskBlkHead
  pos : ∀ t ∈ b.taskBlkHead, 0 < t.refcnt
  refcnt_eq : b.refcnt = b.held
  size_pos : 0 < b.allocSize
  size_le : b.allocSize ≤ b.realSize
  id_lt : b.id < XSMEM_BLOCK_MAX_NUM

/-- What holds of the lists of blocks and nodes, in any order. -/
structure Linked (blocks : List XsmBlock) (nodes : List TaskPoolNode) : Prop where
  block_ok : ∀ b ∈ blocks, BlockOk b
  ids : Uniq XsmBlock.id blocks
  nodes_uniq : Uniq TaskPoolNode.task nodes
  blks_nodup : ∀ n ∈ nodes, n.taskBlkHead.Nodup
  link : ∀ n ∈ nodes, ∀ o, o ∈ n.taskBlkHead ↔ ∃ b ∈ blocks, b.offset = o ∧ b.HeldBy n.task
  owner : ∀ b ∈ blocks, ∀ t ∈ b.taskBlkHead, ∃ n ∈ nodes, n.task = t.node

structure PoolInv (A : PoolAlgo σ ε) (v : PoolView σ) : Prop where
  sorted : v.xp.blockRoot.Pairwise fun a b => a.offset < b.offset
  live : A.Live v.xp.priv (v.xp.blockRoot.map XsmBlock.span)
  linked : Linked v.xp.blockRoot v.xp.nodeListHead
  taken : ∀ b ∈ v.xp.blockRoot, v.blockid b.id = true
  alloc_eq : v.xp.allocSize = (v.xp.blockRoot.map XsmBlock.allocSize).sum
  real_eq : v.xp.realAllocSize = (v.xp.blockRoot.map XsmBlock.realSize).sum

/-- A block that nobody holds is left in the tree only when it is not to be
recycled automatically. -/
def Kept (xp : XsmPool σ) : Prop :=
  ∀ b ∈ xp.blockRoot, b.taskBlkHead = [] → ¬ xsmemIsBlkNeedAutoRecycle b

theorem Linked.perm {bs bs' : List XsmBlock} {ns ns' : List TaskPoolNode} (h : Linked bs ns)
    (hb : bs.Perm bs') (hn : ns.Perm ns') : Linked bs' ns' := by
  refine ⟨?_, h.ids.perm hb, h.nodes_uniq.perm hn, ?_, ?_, ?_⟩
  · exact fun b hmem => h.block_ok b (hb.mem_iff.mpr hmem)
  · exact fun n hmem => h.blks_nodup n (hn.mem_iff.mpr hmem)
  · intro n hmem o
    simpa only [hb.mem_iff] using h.link n (hn.mem_iff.mpr hmem) o
  · intro b hmem t ht
    simpa only [hn.mem_iff] using h.owner b (hb.mem_iff.mpr hmem) t ht

theorem PoolInv.uniq {v : PoolView σ} (h : PoolInv A v) :
    Uniq XsmBlock.offset v.xp.blockRoot :=
  List.pairwise_map.mpr (h.sorted.imp fun hab => hab.ne)

theorem PoolInv.total_lt {v : PoolView σ} (h : PoolInv A v) :
    (v.xp.blockRoot.map XsmBlock.realSize).sum < 2 ^ 64 := by
  have htotal := A.live_total h.live
  rwa [total, List.map_map] at htotal

theorem sum_allocSize_le {bs : List XsmBlock} (h : ∀ b ∈ bs, BlockOk b) :
    (bs.map XsmBlock.allocSize).sum ≤ (bs.map XsmBlock.realSize).sum :=
  List.sum_le_sum fun b hb => (h b hb).size_le

/-! ## What an operation on the blocks does -/

/-- The fields that the operations on the blocks leave alone. -/
def XsmPool.ident (xp : XsmPool σ) : ℕ × ℤ × ℕ × List AddingTask × ℕ × String :=
  (xp.poolId, xp.refcnt, xp.createPid, xp.addingTaskListHead, xp.mntNs, xp.key)

/-- The tasks of a pool with their pids and attributes. -/
def XsmPool.members (xp : XsmPool σ) : List (ℕ × ℕ × GroupShareAttr) :=
  xp.nodeListHead.map fun n => (n.task, n.pid, n.attr)

/-- The node `n` becomes `n'` and the blocks `bs` become `bs'`; the other nodes
and blocks stay as they are. -/
structure Edit (xp xp' : XsmPool σ) (n n' : TaskPoolNode) (bs bs' : List XsmBlock) : Prop where
  ident : xp'.ident = xp.ident
  members : xp'.members = xp.members
  same : n'.task = n.task ∧ n'.pid = n.pid
  nodes : ∃ N, Focus TaskPoolNode.task xp.nodeListHead n N ∧
    Focus TaskPoolNode.task xp'.nodeListHead n' N
  blocks : ∃ R, xp.blockRoot.Perm (bs ++ R) ∧ xp'.blockRoot.Perm (bs' ++ R)
  sorted : xp'.blockRoot.Pairwise fun a b => a.offset < b.offset

/-- Only the node `t` of the task `uid` on the block changes, to `t'`. -/
structure Rehold (uid : ℕ) (b b' : XsmBlock) (t t' : Option TaskBlockNode) : Prop where
  same : b' = { b with refcnt := b'.refcnt, taskBlkHead := b'.taskBlkHead }
  holders : ∃ H, b.taskBlkHead.Perm (t.toList ++ H) ∧ b'.taskBlkHead.Perm (t'.toList ++ H) ∧
    ∀ x ∈ H, x.node ≠ uid
  before : ∀ x ∈ t, x.node = uid
  after : ∀ x ∈ t', x.node = uid ∧ 0 < x.refcnt
  refcnt : b'.refcnt - b.refcnt =
    (t'.toList.map TaskBlockNode.refcnt).sum - (t.toList.map TaskBlockNode.refcnt).sum

/-- What happens to a block: it is handed out, the acting node's hold on it
changes, or it is given back with the last hold. -/
inductive BlockEvent
  | alloc (b : XsmBlock)
  | rehold (b b' : XsmBlock) (t t' : Option TaskBlockNode)
  | recycle (b : XsmBlock) (t : TaskBlockNode)

/-- The totals of a node that drops its hold on a block by a free. -/
def statDropped (n : TaskPoolNode) (b : XsmBlock) : ℕ × ℕ :=
  if b.pid = n.pid then
    (Word.sub 64 n.allocSize b.allocSize, Word.sub 64 n.realAllocSize b.realSize)
  else (n.allocSize, n.realAllocSize)

def TaskPoolNode.stat (n : TaskPoolNode) : ℕ × ℕ := (n.allocSize, n.realAllocSize)

/-- The event takes the pool from `v` to `v'` and the acting node from `n` to
`n'`; `exit` tells that the task leaves the pool. -/
structure AllocEffect (A : PoolAlgo σ ε) (v v' : PoolView σ) (n n' : TaskPoolNode)
    (b : XsmBlock) : Prop where
  edit : Edit v.xp v'.xp n n' [] [b]
  hold : b.taskBlkHead = [⟨n.task, 1⟩] ∧ b.refcnt = 1
  size : 0 < b.allocSize ∧ b.allocSize ≤ b.realSize
  live : A.Live v'.xp.priv (b.span :: v.xp.blockRoot.map XsmBlock.span)
  id : v.blockid b.id = false ∧ b.id < XSMEM_BLOCK_MAX_NUM
  blockid : v'.blockid = Function.update v.blockid b.id true
  blks : n'.taskBlkHead = n.taskBlkHead ++ [b.offset]
  stat : n'.stat = (Word.add 64 n.allocSize b.allocSize, Word.add 64 n.realAllocSize b.realSize)
  total : v'.xp.allocSize = Word.add 64 v.xp.allocSize b.allocSize ∧
    v'.xp.realAllocSize = Word.add 64 v.xp.realAllocSize b.realSize

structure ReholdEffect (exit : Bool) (v v' : PoolView σ) (n n' : TaskPoolNode)
    (b b' : XsmBlock) (t t' : Option TaskBlockNode) : Prop where
  edit : Edit v.xp v'.xp n n' [b] [b']
  rehold : Rehold n.task b b' t t'
  same : v'.xp.priv = v.xp.priv ∧ v'.blockid = v.blockid ∧
    v'.xp.allocSize = v.xp.allocSize ∧ v'.xp.realAllocSize = v.xp.realAllocSize
  kept : b'.taskBlkHead ≠ [] ∨ exit = true ∧ ¬ xsmemIsBlkNeedAutoRecycle b
  nodup : n'.taskBlkHead.Nodup
  blks : ∀ o, o ∈ n'.taskBlkHead ↔ o ∈ n.taskBlkHead ∧ o ≠ b.offset ∨ o = b.offset ∧ t'.isSome
  stat : n'.stat = if exit = false ∧ t' = none then statDropped n b else n.stat

structure RecycleEffect (A : PoolAlgo σ ε) (exit : Bool) (v v' : PoolView σ)
    (n n' : TaskPoolNode) (b : XsmBlock) (t : TaskBlockNode) : Prop where
  edit : Edit v.xp v'.xp n n' [b] []
  hold : b.taskBlkHead = [t] ∧ t.node = n.task
  live : A.Live v'.xp.priv (v'.xp.blockRoot.map XsmBlock.span)
  auto : exit = true → xsmemIsBlkNeedAutoRecycle b
  last : exit = false → t.refcnt = 1
  blockid : v'.blockid = xsmemBlockidPut v.blockid b.id
  blks : n'.taskBlkHead = n.taskBlkHead.erase b.offset
  stat : n'.stat = if exit = false then statDropped n b else n.stat
  total : v'.xp.allocSize = Word.sub 64 v.xp.allocSize b.allocSize ∧
    v'.xp.realAllocSize = Word.sub 64 v.xp.realAllocSize b.realSize

def Effect (A : PoolAlgo σ ε) (exit : Bool) (v v' : PoolView σ) (n n' : TaskPoolNode) :
    BlockEvent → Prop
  | .alloc b => AllocEffect A v v' n n' b
  | .rehold b b' t t' => ReholdEffect exit v v' n n' b b' t t'
  | .recycle b t => RecycleEffect A exit v v' n n' b t

/-! ## The events keep the invariant -/

theorem Rehold.heldBy {uid u : ℕ} {b b' : XsmBlock} {t t' : Option TaskBlockNode}
    (h : Rehold uid b b' t t') (hu : u ≠ uid) : b'.HeldBy u ↔ b.HeldBy u := by
  obtain ⟨H, hb, hb', -⟩ := h.holders
  have hmem : ∀ x : TaskBlockNode, x.node = u → (x ∈ b'.taskBlkHead ↔ x ∈ b.taskBlkHead) := by
    intro x hx
    have ht : x ∉ t.toList := by
      intro hxt
      exact hu (hx ▸ h.before x (by simpa using hxt))
    have ht' : x ∉ t'.toList := by
      intro hxt
      exact hu (hx ▸ (h.after x (by simpa using hxt)).1)
    rw [hb.mem_iff, hb'.mem_iff]
    simp [ht, ht']
  constructor
  · rintro ⟨x, hx, hxu⟩
    exact ⟨x, (hmem x hxu).mp hx, hxu⟩
  · rintro ⟨x, hx, hxu⟩
    exact ⟨x, (hmem x hxu).mpr hx, hxu⟩

theorem Rehold.heldBy_self {uid : ℕ} {b b' : XsmBlock} {t t' : Option TaskBlockNode}
    (h : Rehold uid b b' t t') : b'.HeldBy uid ↔ t'.isSome := by
  obtain ⟨H, -, hb', hH⟩ := h.holders
  constructor
  · rintro ⟨x, hx, hxu⟩
    rcases List.mem_append.mp (hb'.mem_iff.mp hx) with hx | hx
    · cases t' with
      | none => simp at hx
      | some _ => rfl
    · exact absurd hxu (hH x hx)
  · intro ht'
    obtain ⟨x, rfl⟩ := Option.isSome_iff_exists.mp ht'
    exact ⟨x, hb'.mem_iff.mpr (by simp), (h.after x rfl).1⟩

theorem Rehold.blockOk {uid : ℕ} {b b' : XsmBlock} {t t' : Option TaskBlockNode}
    (h : Rehold uid b b' t t') (hb : BlockOk b) : BlockOk b' := by
  obtain ⟨H, hperm, hperm', hH⟩ := h.holders
  have huniq : Uniq TaskBlockNode.node H :=
    (hb.holders.perm hperm).sublist ((List.sublist_append_right _ _).map _)
  have hpos : ∀ x ∈ H, 0 < x.refcnt := fun x hx => hb.pos x (hperm.mem_iff.mpr (by simp [hx]))
  refine ⟨?_, ?_, ?_, ?_, ?_, ?_⟩
  · refine Uniq.perm ?_ hperm'.symm
    cases ht' : t' with
    | none => exact huniq
    | some x => exact huniq.cons fun y hy => (h.after x ht').1 ▸ hH y hy
  · intro x hx
    rcases List.mem_append.mp (hperm'.mem_iff.mp hx) with hx | hx
    · exact (h.after x (by simpa using hx)).2
    · exact hpos x hx
  · have hrefcnt := h.refcnt
    have hold := hb.refcnt_eq
    have hsum := (hperm.map TaskBlockNode.refcnt).sum_eq
    have hsum' := (hperm'.map TaskBlockNode.refcnt).sum_eq
    simp only [XsmBlock.held, List.map_append, List.sum_append] at hold hsum hsum' ⊢
    omega
  · rw [h.same]
    exact hb.size_pos
  · rw [h.same]
    exact hb.size_le
  · rw [h.same]
    exact hb.id_lt

section Linked

variable {R : List XsmBlock} {N ns : List TaskPoolNode} {b b' : XsmBlock} {n n' : TaskPoolNode}
  {t t' : Option TaskBlockNode}

theorem Linked.add (h : Linked R ns) (hb : BlockOk b) (hfree : b.taskBlkHead = [])
    (hid : ∀ c ∈ R, c.id ≠ b.id) : Linked (b :: R) ns := by
  refine ⟨?_, h.ids.cons hid, h.nodes_uniq, h.blks_nodup, ?_, ?_⟩
  · exact List.forall_mem_cons.mpr ⟨hb, h.block_ok⟩
  · intro n hn o
    rw [h.link n hn o]
    simp [XsmBlock.HeldBy, hfree]
  · intro c hc x hx
    rcases List.mem_cons.mp hc with rfl | hc
    · simp [hfree] at hx
    · exact h.owner c hc x hx

theorem Linked.drop (h : Linked (b :: R) ns) (hfree : b.taskBlkHead = []) : Linked R ns := by
  refine ⟨?_, h.ids.tail, h.nodes_uniq, h.blks_nodup, ?_, ?_⟩
  · exact fun c hc => h.block_ok c (List.mem_cons_of_mem b hc)
  · intro n hn o
    rw [h.link n hn o]
    simp [XsmBlock.HeldBy, hfree]
  · exact fun c hc => h.owner c (List.mem_cons_of_mem b hc)

theorem Linked.rehold (h : Linked (b :: R) (n :: N)) (hoff : ∀ c ∈ R, c.offset ≠ b.offset)
    (hr : Rehold n.task b b' t t') (htask : n'.task = n.task) (hnodup : n'.taskBlkHead.Nodup)
    (hblks : ∀ o, o ∈ n'.taskBlkHead ↔
      o ∈ n.taskBlkHead ∧ o ≠ b.offset ∨ o = b.offset ∧ t'.isSome) :
    Linked (b' :: R) (n' :: N) := by
  have hoffset : b'.offset = b.offset := by rw [hr.same]
  have hid : b'.id = b.id := by rw [hr.same]
  refine ⟨?_, ?_, ?_, ?_, ?_, ?_⟩
  · exact List.forall_mem_cons.mpr ⟨hr.blockOk (h.block_ok b (by simp)),
      fun c hc => h.block_ok c (List.mem_cons_of_mem b hc)⟩
  · exact h.ids.tail.cons fun c hc => hid ▸ h.ids.ne_of_tail hc
  · exact h.nodes_uniq.tail.cons fun m hm => htask ▸ h.nodes_uniq.ne_of_tail hm
  · exact List.forall_mem_cons.mpr ⟨hnodup,
      fun m hm => h.blks_nodup m (List.mem_cons_of_mem n hm)⟩
  · intro m hm o
    rcases List.mem_cons.mp hm with rfl | hm
    · rw [hblks, h.link n (by simp), htask]
      constructor
      · rintro (⟨⟨c, hc, hco, hheld⟩, hne⟩ | ⟨rfl, ht'⟩)
        · rcases List.mem_cons.mp hc with rfl | hc
          · exact absurd hco.symm hne
          · exact ⟨c, List.mem_cons_of_mem b' hc, hco, hheld⟩
        · exact ⟨b', by simp, hoffset, hr.heldBy_self.mpr ht'⟩
      · rintro ⟨c, hc, rfl, hheld⟩
        rcases List.mem_cons.mp hc with rfl | hc
        · exact .inr ⟨hoffset, hr.heldBy_self.mp hheld⟩
        · exact .inl ⟨⟨c, List.mem_cons_of_mem b hc, rfl, hheld⟩, hoff c hc⟩
    · have hne : m.task ≠ n.task := h.nodes_uniq.ne_of_tail hm
      rw [h.link m (List.mem_cons_of_mem n hm)]
      simp only [List.exists_mem_cons_iff, hr.heldBy hne, hoffset]
  · intro c hc x hx
    have hown : ∃ m ∈ n :: N, m.task = x.node := by
      rcases List.mem_cons.mp hc with rfl | hc
      · by_cases hxn : x.node = n.task
        · exact ⟨n, by simp, hxn.symm⟩
        · obtain ⟨y, hy, hyx⟩ := (hr.heldBy hxn).mp ⟨x, hx, rfl⟩
          exact hyx ▸ h.owner b (by simp) y hy
      · exact h.owner c (List.mem_cons_of_mem b hc) x hx
    simpa only [List.exists_mem_cons_iff, htask] using hown

end Linked

theorem Rehold.of_drop {b : XsmBlock} {t : TaskBlockNode} {uid : ℕ} (hb : BlockOk b)
    (hold : b.taskBlkHead = [t]) (ht : t.node = uid) :
    Rehold uid b { b with refcnt := 0, taskBlkHead := [] } (some t) none := by
  refine ⟨rfl, ⟨[], ?_, ?_, ?_⟩, ?_, ?_, ?_⟩
  · simp [hold]
  · simp
  · simp
  · simpa using ht
  · simp
  · simp [hb.refcnt_eq, XsmBlock.held, hold]

theorem Rehold.of_new {b : XsmBlock} {uid : ℕ} (hold : b.taskBlkHead = [⟨uid, 1⟩])
    (hrefcnt : b.refcnt = 1) :
    Rehold uid { b with refcnt := 0, taskBlkHead := [] } b none (some ⟨uid, 1⟩) := by
  refine ⟨rfl, ⟨[], ?_, ?_, ?_⟩, ?_, ?_, ?_⟩
  · simp
  · simp [hold]
  · simp
  · simp
  · simp
  · simp [hrefcnt]

section Inv

variable {v v' : PoolView σ} {n n' : TaskPoolNode} {b b' : XsmBlock} (h : PoolInv A v)

include h

theorem PoolInv.offset_ne_of_live {priv : σ}
    (hlive : A.Live priv (b.span :: v.xp.blockRoot.map XsmBlock.span)) (hpos : 0 < b.realSize) :
    ∀ c ∈ v.xp.blockRoot, c.offset ≠ b.offset := by
  intro c hc heq
  have hapart := (List.pairwise_cons.mp (A.live_apart hlive)).1 c.span
    (List.mem_map_of_mem hc)
  have hcpos := (h.linked.block_ok c hc).size_pos
  have hcle := (h.linked.block_ok c hc).size_le
  simp only [Apart, stop, XsmBlock.span] at hapart
  omega

theorem AllocEffect.inv (e : AllocEffect A v v' n n' b) : PoolInv A v' := by
  obtain ⟨N, hn, hn'⟩ := e.edit.nodes
  obtain ⟨R, hR, hR'⟩ := e.edit.blocks
  simp only [List.nil_append] at hR
  have hperm : v'.xp.blockRoot.Perm (b :: v.xp.blockRoot) := hR'.trans (hR.symm.cons b)
  have hid : ∀ c ∈ v.xp.blockRoot, c.id ≠ b.id := by
    intro c hc heq
    have htaken := h.taken c hc
    rw [heq, e.id.1] at htaken
    simp at htaken
  have hoff := h.offset_ne_of_live e.live (by have := e.size; omega)
  have hlinked : Linked (b :: v.xp.blockRoot) (n' :: N) := by
    have hnew := Rehold.of_new e.hold.1 e.hold.2
    have hok : BlockOk { b with refcnt := 0, taskBlkHead := [] } :=
      ⟨by simp [Uniq], by simp, rfl, e.size.1, e.size.2, e.id.2⟩
    refine Linked.rehold (((h.linked.perm (.refl _) hn.perm).add hok rfl hid)) hoff hnew
      e.edit.same.1 ?_ ?_
    · rw [e.blks]
      refine (h.linked.blks_nodup n hn.mem).append (List.nodup_singleton _) ?_
      intro o ho hob
      obtain rfl := List.mem_singleton.mp hob
      obtain ⟨c, hc, hco, -⟩ := (h.linked.link n hn.mem _).mp ho
      exact hoff c hc hco
    · intro o
      have hne : o ∈ n.taskBlkHead → o ≠ b.offset := by
        rintro ho rfl
        obtain ⟨c, hc, hco, -⟩ := (h.linked.link n hn.mem _).mp ho
        exact hoff c hc hco
      simp only [e.blks, List.mem_append, List.mem_singleton, Option.isSome_some]
      tauto
  have hlive' : A.Live v'.xp.priv (v'.xp.blockRoot.map XsmBlock.span) :=
    A.live_perm e.live (hperm.map XsmBlock.span).symm
  have htotal := A.live_total e.live
  have hle := sum_allocSize_le h.linked.block_ok
  have hsize := e.size
  simp only [Span.total, List.map_cons, List.map_map, List.sum_cons, XsmBlock.span] at htotal
  change b.realSize + (v.xp.blockRoot.map XsmBlock.realSize).sum < _ at htotal
  refine ⟨e.edit.sorted, hlive', hlinked.perm hperm.symm hn'.perm.symm, ?_, ?_, ?_⟩
  · intro c hc
    rw [e.blockid]
    rcases List.mem_cons.mp (hperm.mem_iff.mp hc) with rfl | hc
    · simp
    · rw [Function.update_of_ne (hid c hc)]
      exact h.taken c hc
  · rw [e.total.1, (hperm.map XsmBlock.allocSize).sum_eq, h.alloc_eq, Word.add_of_lt (by omega)]
    simp [add_comm]
  · rw [e.total.2, (hperm.map XsmBlock.realSize).sum_eq, h.real_eq, Word.add_of_lt (by omega)]
    simp [add_comm]

theorem ReholdEffect.inv {exit : Bool} {t t' : Option TaskBlockNode}
    (e : ReholdEffect exit v v' n n' b b' t t') : PoolInv A v' := by
  obtain ⟨N, hn, hn'⟩ := e.edit.nodes
  obtain ⟨R, hR, hR'⟩ := e.edit.blocks
  rw [List.singleton_append] at hR hR'
  have hsame := e.rehold.same
  have hlinked : Linked (b' :: R) (n' :: N) := by
    have huniq := h.uniq.perm hR
    exact (h.linked.perm hR hn.perm).rehold (fun c hc => huniq.ne_of_tail hc) e.rehold
      e.edit.same.1 e.nodup e.blks
  have hspan : (v'.xp.blockRoot.map XsmBlock.span).Perm (v.xp.blockRoot.map XsmBlock.span) := by
    refine (hR'.map _).trans (List.Perm.trans (List.Perm.of_eq ?_) (hR.map _).symm)
    rw [hsame]
    rfl
  obtain ⟨hpriv, hblockid, halloc, hreal⟩ := e.same
  refine ⟨e.edit.sorted, ?_, hlinked.perm hR'.symm hn'.perm.symm, ?_, ?_, ?_⟩
  · rw [hpriv]
    exact A.live_perm h.live hspan.symm
  · intro c hc
    rw [hblockid]
    rcases List.mem_cons.mp (hR'.mem_iff.mp hc) with rfl | hc
    · have hid : c.id = b.id := by rw [hsame]
      exact hid ▸ h.taken b (hR.mem_iff.mpr (by simp))
    · exact h.taken c (hR.mem_iff.mpr (by simp [hc]))
  · rw [halloc, h.alloc_eq, (hR'.map _).sum_eq, (hR.map _).sum_eq, hsame]
    rfl
  · rw [hreal, h.real_eq, (hR'.map _).sum_eq, (hR.map _).sum_eq, hsame]
    rfl

theorem RecycleEffect.inv {exit : Bool} {t : TaskBlockNode}
    (e : RecycleEffect A exit v v' n n' b t) : PoolInv A v' := by
  obtain ⟨N, hn, hn'⟩ := e.edit.nodes
  obtain ⟨R, hR, hR'⟩ := e.edit.blocks
  simp only [List.nil_append] at hR'
  have hb : b ∈ v.xp.blockRoot := hR.mem_iff.mpr (by simp)
  have hok := h.linked.block_ok b hb
  have huniq := h.uniq.perm hR
  have hnodup := h.linked.blks_nodup n hn.mem
  have hlinked : Linked R (n' :: N) := by
    refine Linked.drop (Linked.rehold (h.linked.perm hR hn.perm)
      (fun c hc => huniq.ne_of_tail hc) (Rehold.of_drop hok e.hold.1 e.hold.2) e.edit.same.1
      ?_ ?_) rfl
    · rw [e.blks]
      exact hnodup.erase _
    · intro o
      rw [e.blks, hnodup.mem_erase_iff]
      simp [and_comm]
  have hids := (h.linked.ids.perm hR)
  have htotal := h.total_lt
  have hle := sum_allocSize_le h.linked.block_ok
  have hsize := hok.size_le
  have halloc := (hR.map XsmBlock.allocSize).sum_eq
  have hreal := (hR.map XsmBlock.realSize).sum_eq
  simp only [List.singleton_append, List.map_cons, List.sum_cons] at halloc hreal
  refine ⟨e.edit.sorted, e.live, hlinked.perm hR'.symm hn'.perm.symm, ?_, ?_, ?_⟩
  · intro c hc
    have hcR := hR'.mem_iff.mp hc
    have hne : c.id ≠ b.id := hids.ne_of_tail hcR
    rw [e.blockid, xsmemBlockidPut, if_pos hok.id_lt, Function.update_of_ne hne]
    exact h.taken c (hR.mem_iff.mpr (by simp [hcR]))
  · rw [e.total.1, (hR'.map XsmBlock.allocSize).sum_eq, h.alloc_eq,
      Word.sub_of_le (by omega) (by omega)]
    omega
  · rw [e.total.2, (hR'.map XsmBlock.realSize).sum_eq, h.real_eq,
      Word.sub_of_le (by omega) (by omega)]
    omega

theorem Effect.inv {exit : Bool} {ev : BlockEvent} (e : Effect A exit v v' n n' ev) :
    PoolInv A v' := by
  cases ev with
  | alloc b => exact AllocEffect.inv h e
  | rehold b b' t t' => exact ReholdEffect.inv h e
  | recycle b t => exact RecycleEffect.inv h e

end Inv

theorem Effect.preserves_kept {v v' : PoolView σ} {n n' : TaskPoolNode} {exit : Bool} {ev : BlockEvent}
    (e : Effect A exit v v' n n' ev) (h : Kept v.xp) : Kept v'.xp := by
  cases ev with
  | alloc b =>
      obtain ⟨R, hR, hR'⟩ := e.edit.blocks
      intro c hc hfree
      rcases List.mem_cons.mp (hR'.mem_iff.mp hc) with rfl | hc
      · simp [e.hold.1] at hfree
      · exact h c (hR.mem_iff.mpr hc) hfree
  | rehold b b' t t' =>
      obtain ⟨R, hR, hR'⟩ := e.edit.blocks
      rw [List.singleton_append] at hR hR'
      intro c hc hfree
      rcases List.mem_cons.mp (hR'.mem_iff.mp hc) with rfl | hc
      · rcases e.kept with hne | ⟨-, hnot⟩
        · exact absurd hfree hne
        · rw [e.rehold.same]
          exact hnot
      · exact h c (hR.mem_iff.mpr (by simp [hc])) hfree
  | recycle b t =>
      obtain ⟨R, hR, hR'⟩ := e.edit.blocks
      intro c hc hfree
      exact h c (hR.mem_iff.mpr (by simpa using .inr (hR'.mem_iff.mp hc))) hfree

end OpiaiKernel.Xsmem
