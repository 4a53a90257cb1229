import OpiaiKernel.Xsmem.PoolLifetime

/-!
# The references of blocks

In every state the count of a block is the sum of the counts of its holders,
and the lists of the nodes, the totals of the pool, the algorithm and the
bitmap agree with the tree of blocks.  A step leaves a block in the tree or
gives it back when its task alone holds it.
-/

namespace OpiaiKernel.Xsmem

open Keyed

variable {σ ε : Type} {A : PoolAlgo σ ε} {ext ext' : List ℕ} {s s' : XsmemState σ} {h u : ℕ}
  {P : Allow} {xp : XsmPool σ}

/-! ## What an act does to one pool -/

/-- An act of the task `u` takes the pool `xp` to the pool that is given. -/
inductive PoolStep (A : PoolAlgo σ ε) (u : ℕ) (P : Allow) (v : PoolView σ) :
    Option (XsmPool σ) → Prop
  | same {xp'} (hroot : xp'.blockRoot = v.xp.blockRoot)
      (hnodes : xp'.nodeListHead = v.xp.nodeListHead) : PoolStep A u P v (some xp')
  | join {xp'} (pid : ℕ) (attr : GroupShareAttr) (hroot : xp'.blockRoot = v.xp.blockRoot)
      (hnodes : xp'.nodeListHead = (poolNodeAdd v.xp u pid attr).nodeListHead)
      (hnew : ∀ n ∈ v.xp.nodeListHead, n.task ≠ u) : PoolStep A u P v (some xp')
  | event {v' n n' ev} (hn : n ∈ v.xp.nodeListHead) (hu : n.task = u)
      (e : Effect A false v v' n n' ev) (hP : P.event n ev) : PoolStep A u P v (some v'.xp)
  | leave {v' n n'} (hn : n ∈ v.xp.nodeListHead) (hu : n.task = u) (hleaves : Leaves A v n v' n')
      (hP : P.leave) : PoolStep A u P v (some (poolNodeDel v'.xp u))
  | delete (hnodes : v.xp.nodeListHead = []) : PoolStep A u P v none

theorem poolStep_self (hxp : s.pools h = some xp) : PoolStep A u P (s.view xp) (s.pools h) :=
  hxp ▸ .same rfl rfl

/-- The pool at `k` is written, and the others stay. -/
theorem poolStep_update {k : ℕ} {yp : XsmPool σ} {x : Option (XsmPool σ)}
    (hyp : s.pools k = some yp) (hstep : PoolStep A u P (s.view yp) x)
    (hxp : s.pools h = some xp) :
    PoolStep A u P (s.view xp) (Function.update s.pools k x h) := by
  by_cases hk : h = k
  · subst hk
    obtain rfl := Option.some.inj (hxp.symm.trans hyp)
    rwa [Function.update_self]
  · rw [Function.update_of_ne hk]
    exact poolStep_self hxp

theorem Act.poolStep (hinv : XsmemInv A ext s) (act : Act A u P (ext, s) (ext', s'))
    (hxp : s.pools h = some xp) : PoolStep A u P (s.view xp) (s'.pools h) := by
  have hrefs := hinv.refs
  cases act with
  | get hyp => exact poolStep_update hyp (.same rfl rfl) hxp
  | put hyp => exact poolStep_update hyp (.same rfl rfl) hxp
  | @delete _ _ k yp hyp hlast env =>
      refine poolStep_update hyp (.delete ?_) hxp
      have hnone : yp.members = [] := (hrefs.delete (facesOf_eq hyp) hlast).2.1
      exact List.map_eq_nil_iff.mp hnone
  | idle hyp e =>
      refine poolStep_update hyp (.same ?_ ?_) hxp
      · rw [e.xp]
      · rw [e.xp]
  | event hyp hn hu e hP => exact poolStep_update hyp (.event hn hu e hP) hxp
  | leave hyp ht hn hu hleaves hempty hP =>
      exact poolStep_update hyp (.leave hn hu hleaves hP) hxp
  | adding hyp l => exact poolStep_update hyp (.same rfl rfl) hxp
  | @join _ _ k yp task hyp ht hnew hlimit hP attr =>
      refine poolStep_update hyp (.join task.pid attr rfl rfl fun n hn hu => hnew ?_) hxp
      refine (hrefs.node_iff ht k).mpr ⟨_, facesOf_eq hyp, ?_⟩
      exact hu ▸ List.mem_map_of_mem (List.mem_map_of_mem hn)
  | register =>
      have hh : h ≠ s.nextXp := (hinv.names.face_lt (facesOf_eq hxp)).ne
      have hsame : PoolStep A u P (s.view xp) (s.pools h) := poolStep_self hxp
      simpa [registerPool, XsmemState.setTask, XsmemState.setPool, hh] using hsame
  | unregister => exact poolStep_self hxp
  | «open» => exact poolStep_self hxp
  | close => exact poolStep_self hxp
  | block => exact poolStep_self hxp
  | unblock => exact poolStep_self hxp
  | exitNotify pid =>
      obtain ⟨l, hl⟩ := xsmemPoolTaskDel_eq xp pid
      simp only [taskExitNotify, hxp, Option.map_some, hl]
      exact .same rfl rfl

/-- A pool that was not there is new and empty. -/
theorem Act.new_pool (hinv : XsmemInv A ext s) (act : Act A u P (ext, s) (ext', s'))
    (hdead : s.pools h = none) (hxp : s'.pools h = some xp) :
    xp.blockRoot = [] ∧ xp.nodeListHead = [] := by
  by_cases hlt : h < s.nextXp
  · have hdead' := act.dead.2 h hlt hdead
    simp [hdead'] at hxp
  · cases act with
    | register =>
        simp only [registerPool, XsmemState.setTask, XsmemState.setPool] at hxp
        by_cases hh : h = s.nextXp
        · subst hh
          rw [Function.update_self, Option.some.injEq] at hxp
          subst hxp
          exact ⟨rfl, rfl⟩
        · rw [Function.update_of_ne hh, hdead] at hxp
          simp at hxp
    | unregister => simp [XsmemState.setTask, hdead] at hxp
    | «open» => simp [XsmemState.setTask, hdead] at hxp
    | close => simp [hdead] at hxp
    | block => simp [hdead] at hxp
    | unblock => simp [hdead] at hxp
    | exitNotify => simp [taskExitNotify, hdead] at hxp
    | get hyp => simp [XsmemState.setPool, update_dead hyp _ hdead] at hxp
    | put hyp => simp [XsmemState.setPool, update_dead hyp _ hdead] at hxp
    | delete hyp => simp [xsmemPoolDelete, update_dead hyp _ hdead] at hxp
    | idle hyp => simp [XsmemState.setView, update_dead hyp _ hdead] at hxp
    | event hyp => simp [XsmemState.setView, update_dead hyp _ hdead] at hxp
    | leave hyp =>
        simp [XsmemState.setView, XsmemState.setTask, update_dead hyp _ hdead] at hxp
    | adding hyp => simp [XsmemState.setPool, update_dead hyp _ hdead] at hxp
    | join hyp => simp [XsmemState.setPool, XsmemState.setTask, update_dead hyp _ hdead] at hxp

/-! ## Quiet acts -/

/-- The pools keep their blocks, and one that is deleted has none that is held. -/
def Calm (s t : XsmemState σ) : Prop :=
  ∀ h xp, s.pools h = some xp →
    (t.pools h = none ∧ ∀ b ∈ xp.blockRoot, b.taskBlkHead = []) ∨
      ∃ xp', t.pools h = some xp' ∧ xp'.blockRoot = xp.blockRoot

theorem PoolInv.free_of_empty {v : PoolView σ} (hv : PoolInv A v) (hnodes : v.xp.nodeListHead = []) :
    ∀ b ∈ v.xp.blockRoot, b.taskBlkHead = [] := by
  intro b hb
  rw [List.eq_nil_iff_forall_not_mem]
  intro x hx
  obtain ⟨n, hn, -⟩ := hv.linked.owner b hb x hx
  simp [hnodes] at hn

theorem PoolStep.calm {v : PoolView σ} {x : Option (XsmPool σ)} (hv : PoolInv A v)
    (hstep : PoolStep A u P.quiet v x) :
    (x = none ∧ ∀ b ∈ v.xp.blockRoot, b.taskBlkHead = []) ∨
      ∃ xp', x = some xp' ∧ xp'.blockRoot = v.xp.blockRoot := by
  cases hstep with
  | same hroot hnodes => exact .inr ⟨_, rfl, hroot⟩
  | join pid attr hroot hnodes hnew => exact .inr ⟨_, rfl, hroot⟩
  | event hn hu e hP => exact hP.elim
  | leave hn hu hleaves hP => exact hP.elim
  | delete hnodes => exact .inl ⟨rfl, hv.free_of_empty hnodes⟩

theorem Acts.calm {x y : List ℕ × XsmemState σ} (hinv : XsmemInv A x.1 x.2)
    (acts : Acts A u P.quiet x y) : Calm x.2 y.2 := by
  induction acts with
  | refl => exact fun h xp hxp => .inr ⟨xp, hxp, rfl⟩
  | tail acts act ih =>
      intro h xp hxp
      have hinv₁ := Acts.inv hinv acts
      rcases ih h xp hxp with ⟨hdead, hfree⟩ | ⟨xp₁, hxp₁, hroot₁⟩
      · have hlt := (hinv.names.face_lt (facesOf_eq hxp)).trans_le (Acts.dead acts).1
        exact .inl ⟨act.dead.2 h hlt hdead, hfree⟩
      · have hstep := (act.poolStep hinv₁ hxp₁).calm (hinv₁.blocks.pool_inv hxp₁)
        rcases hstep with ⟨hdead, hfree⟩ | ⟨xp₂, hxp₂, hroot₂⟩
        · exact .inl ⟨hdead, hroot₁ ▸ hfree⟩
        · exact .inr ⟨xp₂, hxp₂, hroot₂.trans hroot₁⟩

/-! ## Fates in a step -/

/-- Every block of every pool goes with its pool, held at most by the task `u`,
or has its fate in the pool. -/
def BlocksFate (u : ℕ) (exit : Bool) (s t : XsmemState σ) : Prop :=
  ∀ h xp, s.pools h = some xp → ∀ b ∈ xp.blockRoot,
    (t.pools h = none ∧ ∀ x ∈ b.taskBlkHead, x.node = u) ∨
      ∃ xp', t.pools h = some xp' ∧ Fate u exit xp' b

theorem PoolStep.fate {v : PoolView σ} {x : Option (XsmPool σ)} {exit : Bool} (hv : PoolInv A v)
    (hstep : PoolStep A u P v x) (hevent : ∀ n ev, P.event n ev → exit = false)
    (hleave : P.leave → exit = true) {b : XsmBlock} (hb : b ∈ v.xp.blockRoot) :
    (x = none ∧ ∀ x ∈ b.taskBlkHead, x.node = u) ∨ ∃ xp', x = some xp' ∧ Fate u exit xp' b := by
  cases hstep with
  | same hroot hnodes => exact .inr ⟨_, rfl, fate_of_mem (hroot ▸ hb)⟩
  | join pid attr hroot hnodes hnew => exact .inr ⟨_, rfl, fate_of_mem (hroot ▸ hb)⟩
  | event hn hu e hP =>
      obtain rfl := hevent _ _ hP
      exact .inr ⟨_, rfl, hu ▸ e.fate hv b hb⟩
  | leave hn hu hleaves hP =>
      obtain rfl := hleave hP
      have hfate := hleaves.fate hv b hb
      rw [hu] at hfate
      exact .inr ⟨_, rfl, hfate.congr (by rfl)⟩
  | delete hnodes =>
      refine .inl ⟨rfl, fun y hy => ?_⟩
      simp [hv.free_of_empty hnodes b hb] at hy

theorem PoolStep.offsets {v : PoolView σ} {xp' : XsmPool σ}
    (hstep : PoolStep A u P v (some xp')) (hevent : ∀ n ev, ¬ P.event n ev) :
    ∀ c ∈ xp'.blockRoot, ∃ b ∈ v.xp.blockRoot, b.offset = c.offset := by
  intro c hc
  generalize hx : some xp' = x at hstep
  cases hstep with
  | same hroot hnodes =>
      obtain rfl := Option.some.inj hx
      exact ⟨c, hroot ▸ hc, rfl⟩
  | join pid attr hroot hnodes hnew =>
      obtain rfl := Option.some.inj hx
      exact ⟨c, hroot ▸ hc, rfl⟩
  | event hn hu e hP => exact absurd hP (hevent _ _)
  | leave hn hu hleaves hP =>
      obtain rfl := Option.some.inj hx
      exact hleaves.offsets c hc
  | delete hnodes => simp at hx

theorem ActsOnce.fate {x z : List ℕ × XsmemState σ} (hinv : XsmemInv A x.1 x.2)
    (hleave : ¬ P.leave) (once : ActsOnce A u P x z) : BlocksFate u false x.2 z.2 := by
  obtain ⟨y, y', hbefore, hact, hafter⟩ := once
  have hinv₁ := Acts.inv hinv hbefore
  have hmid : Acts A u P y y' := by
    rcases hact with rfl | hact
    · exact .refl
    · exact .single hact
  have hinv₂ := Acts.inv hinv₁ hmid
  have hdead : ∀ {h}, h < y.2.nextXp → y.2.pools h = none → z.2.pools h = none := by
    intro h hlt hnone
    have hmid' := hmid.dead
    exact hafter.dead.2 h (hlt.trans_le hmid'.1) (hmid'.2 h hlt hnone)
  intro h xp hxp b hb
  rcases hbefore.calm hinv h xp hxp with ⟨hnone, hfree⟩ | ⟨xp₁, hxp₁, hroot₁⟩
  · have hlt := (hinv.names.face_lt (facesOf_eq hxp)).trans_le hbefore.dead.1
    refine .inl ⟨hdead hlt hnone, fun t ht => ?_⟩
    simp [hfree b hb] at ht
  · have hb₁ : b ∈ xp₁.blockRoot := hroot₁ ▸ hb
    have hlt₁ := hinv₁.names.face_lt (facesOf_eq hxp₁)
    have hfate : (y'.2.pools h = none ∧ ∀ t ∈ b.taskBlkHead, t.node = u) ∨
        ∃ xp₂, y'.2.pools h = some xp₂ ∧ Fate u false xp₂ b := by
      rcases hact with rfl | hact
      · exact .inr ⟨xp₁, hxp₁, fate_of_mem hb₁⟩
      · exact (hact.poolStep hinv₁ hxp₁).fate (hinv₁.blocks.pool_inv hxp₁) (fun _ _ _ => rfl)
          (fun hP => absurd hP hleave) hb₁
    rcases hfate with ⟨hnone, hsole⟩ | ⟨xp₂, hxp₂, hfate⟩
    · exact .inl ⟨hafter.dead.2 h (hlt₁.trans_le hmid.dead.1) hnone, hsole⟩
    · rcases hafter.calm hinv₂ h xp₂ hxp₂ with ⟨hnone, hfree⟩ | ⟨xp₃, hxp₃, hroot₃⟩
      · refine .inl ⟨hnone, hfate.sole fun b' hb' t ht => ?_⟩
        simp [hfree b' hb'] at ht
      · exact .inr ⟨xp₃, hxp₃, hfate.congr hroot₃⟩

theorem Acts.fate {x y : List ℕ × XsmemState σ} (hinv : XsmemInv A x.1 x.2)
    (hevent : ∀ n ev, ¬ P.event n ev) (acts : Acts A u P x y) : BlocksFate u true x.2 y.2 := by
  induction acts with
  | refl => exact fun h xp hxp b hb => .inr ⟨xp, hxp, fate_of_mem hb⟩
  | @tail y z acts act ih =>
      intro h xp hxp b hb
      have hinv₁ := Acts.inv hinv acts
      rcases ih h xp hxp b hb with ⟨hdead, hsole⟩ | ⟨xp₁, hxp₁, hfate₁⟩
      · have hlt := (hinv.names.face_lt (facesOf_eq hxp)).trans_le (Acts.dead acts).1
        exact .inl ⟨act.dead.2 h hlt hdead, hsole⟩
      · have hstep := act.poolStep hinv₁ hxp₁
        have hnext : ∀ b' ∈ xp₁.blockRoot, (z.2.pools h = none ∧ ∀ t ∈ b'.taskBlkHead, t.node = u) ∨
            ∃ xp₂, z.2.pools h = some xp₂ ∧ Fate u true xp₂ b' := fun b' hb' =>
          hstep.fate (hinv₁.blocks.pool_inv hxp₁) (fun n ev hP => absurd hP (hevent n ev))
            (fun _ => rfl) hb'
        cases hz : z.2.pools h with
        | none =>
            refine .inl ⟨rfl, hfate₁.sole fun b' hb' => ?_⟩
            rcases hnext b' hb' with ⟨-, hsole⟩ | ⟨xp₂, hxp₂, -⟩
            · exact hsole
            · simp [hz] at hxp₂
        | some xp₂ =>
            rw [hz] at hstep
            refine .inr ⟨xp₂, rfl, hfate₁.trans (fun b' hb' => ?_) (hstep.offsets hevent)⟩
            rcases hnext b' hb' with ⟨hnone, -⟩ | ⟨xp₃, hxp₃, hfate⟩
            · simp [hz] at hnone
            · obtain rfl := Option.some.inj (hz.symm.trans hxp₃)
              exact hfate

/-- What a step does to the blocks. -/
theorem xsmemStep_fate (hinv : XsmemInv A [] s) {op : XsmemOp ε}
    (hstep : xsmemStep A s op = some s') : BlocksFate op.uid op.leaves s s' := by
  cases hleaves : op.leaves with
  | false =>
      refine ActsOnce.fate hinv ?_ (xsmemStep_once hinv hleaves hstep)
      simp [XsmemOp.allowed, hleaves]
  | true =>
      refine Acts.fate hinv ?_ (xsmemStep_acts hinv hstep)
      intro n ev hP
      cases op with
      | call uid call env => cases call <;> simp [XsmemOp.leaves, XsmemOp.allowed] at hleaves hP
      | _ => simp [XsmemOp.leaves] at hleaves

/-! ## Runs -/

/-- The counts and the lists of a state, and the fates of its blocks in a step. -/
structure BlockRefs (A : PoolAlgo σ ε) (s : XsmemState σ) : Prop where
  refcnt_eq : ∀ h xp, s.pools h = some xp → ∀ b ∈ xp.blockRoot,
    b.refcnt = (b.taskBlkHead.map TaskBlockNode.refcnt).sum
  holder_nodup : ∀ h xp, s.pools h = some xp → ∀ b ∈ xp.blockRoot,
    (b.taskBlkHead.map TaskBlockNode.node).Nodup
  holder_attached : ∀ h xp, s.pools h = some xp → ∀ b ∈ xp.blockRoot, ∀ t ∈ b.taskBlkHead,
    0 < t.refcnt ∧ ∃ n ∈ xp.nodeListHead, n.task = t.node
  lists : ∀ h xp, s.pools h = some xp → ∀ n ∈ xp.nodeListHead, n.taskBlkHead.Nodup ∧
    ∀ o, o ∈ n.taskBlkHead ↔ ∃ b ∈ xp.blockRoot, b.offset = o ∧ b.HeldBy n.task
  totals : ∀ h xp, s.pools h = some xp →
    xp.allocSize = (xp.blockRoot.map XsmBlock.allocSize).sum ∧
    xp.realAllocSize = (xp.blockRoot.map XsmBlock.realSize).sum
  live : ∀ h xp, s.pools h = some xp → A.Live xp.priv (xp.blockRoot.map XsmBlock.span)
  ids : ∀ ns i, s.blockid ns i = true ↔
    ∃ h xp, s.pools h = some xp ∧ xp.mntNs = ns ∧ i ∈ xp.blockRoot.map XsmBlock.id
  ids_nodup : ∀ h xp, s.pools h = some xp → (xp.blockRoot.map XsmBlock.id).Nodup
  ids_disjoint : ∀ h h' xp xp' i, s.pools h = some xp → s.pools h' = some xp' →
    xp.mntNs = xp'.mntNs → i ∈ xp.blockRoot.map XsmBlock.id → i ∈ xp'.blockRoot.map XsmBlock.id →
    h = h'
  zero : ∀ h xp, s.pools h = some xp → ∀ b ∈ xp.blockRoot, b.refcnt = 0 →
    ¬ xsmemIsBlkNeedAutoRecycle b
  step : ∀ op t, xsmemStep A s op = some t → BlocksFate op.uid op.leaves s t

theorem xsmem_block_refs (hs : (xsmemMachine A).Reach s) : BlockRefs A s := by
  have hinv := xsmem_inv hs
  have hblocks := hinv.blocks
  have hpool : ∀ {h xp}, s.pools h = some xp → PoolInv A (s.view xp) := hblocks.pool_inv
  constructor
  · exact fun h xp hxp b hb => ((hpool hxp).linked.block_ok b hb).refcnt_eq
  · exact fun h xp hxp b hb => ((hpool hxp).linked.block_ok b hb).holders
  · exact fun h xp hxp b hb t ht => ⟨((hpool hxp).linked.block_ok b hb).pos t ht,
      (hpool hxp).linked.owner b hb t ht⟩
  · exact fun h xp hxp n hn => ⟨(hpool hxp).linked.blks_nodup n hn, (hpool hxp).linked.link n hn⟩
  · exact fun h xp hxp => ⟨(hpool hxp).alloc_eq, (hpool hxp).real_eq⟩
  · exact fun h xp hxp => (hpool hxp).live
  · intro ns i
    constructor
    · exact hblocks.used
    · rintro ⟨h, xp, hxp, rfl, hi⟩
      exact (hpool hxp).taken_ids hi
  · exact fun h xp hxp => (hpool hxp).linked.ids
  · exact fun h h' xp xp' i hxp hxp' hns hi hi' => hblocks.disjoint hxp hxp' hns hi hi'
  · intro h xp hxp b hb hzero
    exact hblocks.kept hxp b hb (((hpool hxp).linked.block_ok b hb).refcnt_eq_zero.mp hzero)
  · exact fun op t hstep => xsmemStep_fate hinv hstep

/-- The process 10 allocates a block, the process 11 gets it, and 10 leaves. -/
theorem xsmem_block_refs_shared :
    BlockRefs (vmaAlgo page4K) ((xsmemMachine (vmaAlgo page4K)).final xsmemInit
      (shareOps ++ [.call 1 (.blockAlloc 10 0 4096 0 true []) fun _ _ => [],
        .call 2 (.blockGet 0 true) fun _ _ => [], .call 1 (.detach 0) fun _ _ => []])) :=
  xsmem_block_refs (Machine.Reach.final (s := xsmemInit) (.start rfl) (by decide +kernel))

/-- The only holder of a block that is not to be recycled automatically has
left. -/
def leftOps : List (XsmemOp AugTree.Rotations) :=
  [.open 10 true,
    .call 1 (.register 10 0 "a" 8192 true) fun _ _ => [],
    .call 1 (.taskAdd 0 (.ok 10) ⟨true, true, true, true, 0⟩ true) fun _ _ => [],
    .call 1 (.attach 10 0 0 (.ok ()) true) fun _ _ => [],
    .call 1 (.blockAlloc 10 0 4096 XSMEM_BLK_NOT_AUTO_RECYCLE true []) fun _ _ => [],
    .call 1 (.detach 0) fun _ _ => []]

def leftRun : XsmemState VmaCtrl := (xsmemMachine (vmaAlgo page4K)).final xsmemInit leftOps

/-- The count of the block is zero and the block is still in the tree; it is
given back when the pool is deleted. -/
theorem xsmem_block_outlives_count :
    (xsmemMachine (vmaAlgo page4K)).Reach leftRun ∧
      leftRun.pools 0 ≠ none ∧
      (∀ xp ∈ leftRun.pools 0, xp.blockRoot.map (fun b => (b.refcnt, b.id)) = [(0, 0)]) ∧
      leftRun.blockid 0 0 = true ∧
      ∃ t ∈ xsmemStep (vmaAlgo page4K) leftRun (.call 1 (.unregister 0) fun _ _ => []),
        t.pools 0 = none ∧ t.blockid 0 0 = false := by
  refine ⟨Machine.Reach.final (s := xsmemInit) (.start rfl) (by decide +kernel), ?_⟩
  decide +kernel

end OpiaiKernel.Xsmem
