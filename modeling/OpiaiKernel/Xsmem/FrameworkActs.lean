import Mathlib.Logic.Relation
import OpiaiKernel.Xsmem.FrameworkInv

/-!
# What a call does, act by act

Every step of the framework is a sequence of acts: a reference is taken or put,
a block changes hands, a node joins or leaves, a pool or a task comes or goes.
An act is taken by a task `u`, and a call holds the references of `ext` while
it runs.  The acts keep the invariant, and every property of the runs is
checked on the acts.
-/

namespace OpiaiKernel.Xsmem

open Keyed

variable {σ ε : Type}

/-- The task with a new pool on its list. -/
def taskRegistered (task : XsmTask) (h : ℕ) : XsmTask :=
  { task with
    poolNum := task.poolNum + 1
    registerXpListHead := task.registerXpListHead ++ [h] }

def taskUnregistered (task : XsmTask) (h : ℕ) : XsmTask :=
  { task with
    poolNum := task.poolNum - 1
    registerXpListHead := task.registerXpListHead.erase h }

def taskAttached (task : XsmTask) (h createPid : ℕ) : XsmTask :=
  { task with
    attachedPoolCount := task.attachedPoolCount + 1
    nodeListHead := task.nodeListHead ++ [h]
    poolNum := if createPid ≠ task.pid then task.poolNum + 1 else task.poolNum }

def taskOpened (tgid : ℕ) : XsmTask where
  pid := tgid
  attachedPoolCount := 0
  poolNum := 0
  nodeListHead := []
  registerXpListHead := []

/-- A pool as it is made, with the reference of its registration. -/
def poolRegistered (id : ℕ) (priv : σ) (tgid ns : ℕ) (key : String) : XsmPool σ where
  poolId := id
  refcnt := 1
  nodeListHead := []
  blockRoot := []
  priv := priv
  allocSize := 0
  realAllocSize := 0
  createPid := tgid
  addingTaskListHead := []
  mntNs := ns
  key := key

/-- The pool `h` is entered under the id and the key. -/
def registerPool (s : XsmemState σ) (xp : XsmPool σ) : XsmemState σ :=
  { s.setPool s.nextXp xp with
    nextXp := s.nextXp + 1
    xsmemIdr := Function.update s.xsmemIdr xp.poolId (some s.nextXp)
    nextXsmemId := (xp.poolId + 1) % XSMEM_MAX_ID
    xsmemKeyList := s.nextXp :: s.xsmemKeyList }

/-- The events that there may be, whether the task may leave pools, and the
pools with their `create_pid` that a task may be attached to. -/
structure Allow where
  event : TaskPoolNode → BlockEvent → Prop
  leave : Prop
  join : XsmTask → ℕ → ℕ → Prop

/-- An act of the task `u`. -/
inductive Act (A : PoolAlgo σ ε) (u : ℕ) (P : Allow) :
    List ℕ × XsmemState σ → List ℕ × XsmemState σ → Prop
  | get {ext s h xp} (hxp : s.pools h = some xp) :
      Act A u P (ext, s) (h :: ext, s.setPool h { xp with refcnt := xp.refcnt + 1 })
  | put {ext s h xp} (hxp : s.pools h = some xp) (hmore : xp.refcnt - 1 ≠ 0) :
      Act A u P (h :: ext, s) (ext, s.setPool h { xp with refcnt := xp.refcnt - 1 })
  | delete {ext s h xp} (hxp : s.pools h = some xp) (hlast : xp.refcnt - 1 = 0) (env : ℕ → ε) :
      Act A u P (h :: ext, s)
        (ext, xsmemPoolDelete A env s h { xp with refcnt := xp.refcnt - 1 })
  | idle {ext s h xp v} (hxp : s.pools h = some xp) (e : Idle A (s.view xp) v) :
      Act A u P (ext, s) (ext, s.setView h v)
  | event {ext s h xp n n' v ev} (hxp : s.pools h = some xp) (hn : n ∈ xp.nodeListHead)
      (hu : n.task = u) (e : Effect A false (s.view xp) v n n' ev) (hP : P.event n ev) :
      Act A u P (ext, s) (ext, s.setView h v)
  | leave {ext s h xp v n n' task} (hxp : s.pools h = some xp) (ht : s.tasks u = some task)
      (hn : n ∈ xp.nodeListHead) (hu : n.task = u) (hleaves : Leaves A (s.view xp) n v n')
      (hempty : n'.taskBlkHead = []) (hP : P.leave) :
      Act A u P (ext, s)
        (h :: ext, (s.setView h { v with xp := poolNodeDel v.xp u }).setTask u
          (taskDetached task h xp.createPid))
  | unregister {ext s h task} (ht : s.tasks u = some task) (hh : h ∈ task.registerXpListHead)
      (hleft : h ∉ task.nodeListHead) :
      Act A u P (ext, s) (h :: ext, s.setTask u (taskUnregistered task h))
  | adding {ext s h xp} (hxp : s.pools h = some xp) (l : List AddingTask) :
      Act A u P (ext, s) (ext, s.setPool h { xp with addingTaskListHead := l })
  | join {ext s h xp task} (hxp : s.pools h = some xp) (ht : s.tasks u = some task)
      (hnew : h ∉ task.nodeListHead)
      (hlimit : xp.createPid ≠ task.pid → task.poolNum + 1 ≤ MAX_XP_NUM_OF_TASK)
      (hP : P.join task h xp.createPid) (attr : GroupShareAttr) :
      Act A u P (ext, s)
        (ext, (s.setPool h { poolNodeAdd xp u task.pid attr with refcnt := xp.refcnt + 1 }).setTask
          u (taskAttached task h xp.createPid))
  | register {ext s task size priv id} (ht : s.tasks u = some task)
      (hlimit : task.poolNum + 1 ≤ MAX_XP_NUM_OF_TASK) (hid : s.xsmemIdr id = none)
      (tgid ns : ℕ) (key : String) (hkey : xsmemPoolHnodeFind s key = none)
      (hsize : size < 2 ^ 64) (hinit : A.xsmPoolInit size = some priv) :
      Act A u P (ext, s)
        (ext, (registerPool s (poolRegistered id priv tgid ns key)).setTask u
          (taskRegistered task s.nextXp))
  | open {ext s} (tgid : ℕ) (hnone : xsmTaskFind s tgid = none) :
      Act A u P (ext, s)
        (ext, { s.setTask (s.uniProcessId + 1) (taskOpened tgid) with
          uniProcessId := s.uniProcessId + 1
          taskTable := (s.uniProcessId + 1) :: s.taskTable })
  | close {ext s task} (ht : s.tasks u = some task) (hnodes : task.nodeListHead = [])
      (hregs : task.registerXpListHead = []) (hwait : ∀ w ∈ s.attaching, w.uid ≠ u) :
      Act A u P (ext, s)
        (ext, { s with
          tasks := Function.update s.tasks u none, taskTable := s.taskTable.erase u })
  | block {ext s w task} (ht : s.tasks w.uid = some task) :
      Act A u P (w.xp :: ext, s) (ext, { s with attaching := w :: s.attaching })
  | unblock {ext s w} (hw : w ∈ s.attaching) :
      Act A u P (ext, s) (w.xp :: ext, { s with attaching := s.attaching.erase w })
  | exitNotify {ext s} (pid : ℕ) : Act A u P (ext, s) (ext, taskExitNotify s pid)

/-! ## The acts keep the invariant -/

section Inv

variable {A : PoolAlgo σ ε} {ext ext' : List ℕ} {s s' : XsmemState σ} {h u : ℕ}
  {P : Allow} {xp xp' : XsmPool σ}

theorem PoolInv.same (hv : PoolInv A (s.view xp)) (hroot : xp'.blockRoot = xp.blockRoot)
    (hnodes : xp'.nodeListHead = xp.nodeListHead) (hpriv : xp'.priv = xp.priv)
    (halloc : xp'.allocSize = xp.allocSize) (hreal : xp'.realAllocSize = xp.realAllocSize)
    (hns : xp'.mntNs = xp.mntNs) : PoolInv A (s.view xp') := by
  obtain ⟨h₁, h₂, h₃, h₄, h₅, h₆⟩ := hv
  constructor <;> simp_all [XsmemState.view]

theorem XsmemInv.hnode_none (hinv : XsmemInv A ext s) {key : String}
    (hkey : xsmemPoolHnodeFind s key = none) {k : ℕ} {f : PoolFace}
    (hf : facesOf s.pools k = some f) : f.key ≠ key := by
  obtain ⟨xp, hxp, rfl⟩ := exists_of_facesOf hf
  have hmem := (hinv.names.key_iff k).mpr ⟨_, hf⟩
  have hnot := List.find?_eq_none.mp hkey k hmem
  simpa [hxp, XsmPool.face] using hnot

theorem XsmemInv.taskFind_none (hinv : XsmemInv A ext s) {pid : ℕ}
    (hpid : xsmTaskFind s pid = none) {k : ℕ} {t : XsmTask} (ht : s.tasks k = some t) :
    t.pid ≠ pid := by
  have hmem := (hinv.table.table_iff k).mpr ⟨_, ht⟩
  have hnot := List.find?_eq_none.mp hpid k hmem
  simpa [ht] using hnot

theorem xsmemPoolTaskDel_eq (xp : XsmPool σ) (pid : ℕ) :
    ∃ l, (xsmemPoolTaskDel xp pid).2 = { xp with addingTaskListHead := l } := by
  unfold xsmemPoolTaskDel
  split
  · exact ⟨xp.addingTaskListHead, rfl⟩
  · exact ⟨_, rfl⟩

theorem facesOf_exitNotify (s : XsmemState σ) (pid : ℕ) :
    facesOf (taskExitNotify s pid).pools = facesOf s.pools := by
  funext k
  simp only [facesOf, taskExitNotify, Option.map_map]
  congr 1
  funext xp
  obtain ⟨l, hl⟩ := xsmemPoolTaskDel_eq xp pid
  simp only [Function.comp_apply, hl]
  rfl

theorem XsmemInv.exitNotify (hinv : XsmemInv A ext s) (pid : ℕ) :
    XsmemInv A ext (taskExitNotify s pid) := by
  have hold : ∀ {k xp'}, (taskExitNotify s pid).pools k = some xp' →
      ∃ xp l, s.pools k = some xp ∧ xp' = { xp with addingTaskListHead := l } := by
    intro k xp' hxp'
    obtain ⟨xp, hxp, rfl⟩ := Option.map_eq_some_iff.mp hxp'
    obtain ⟨l, hl⟩ := xsmemPoolTaskDel_eq xp pid
    exact ⟨xp, l, hxp, hl⟩
  have hblocks := hinv.blocks
  refine ⟨?_, ?_, hinv.table, ?_, ?_, ?_, ?_⟩
  · rw [facesOf_exitNotify]
    exact hinv.refs
  · rw [facesOf_exitNotify]
    exact hinv.names
  · intro k xp' hxp'
    obtain ⟨xp, l, hxp, rfl⟩ := hold hxp'
    exact PoolInv.same (s := s) (hblocks.pool_inv hxp) rfl rfl rfl rfl rfl rfl
  · intro k xp' hxp'
    obtain ⟨xp, l, hxp, rfl⟩ := hold hxp'
    exact fun b hb => hblocks.kept hxp b hb
  · intro ns i hi
    obtain ⟨k, xp, hxp, hns, hmem⟩ := hblocks.used hi
    obtain ⟨l, hl⟩ := xsmemPoolTaskDel_eq xp pid
    refine ⟨k, (xsmemPoolTaskDel xp pid).2, ?_, ?_, ?_⟩
    · exact Option.map_eq_some_iff.mpr ⟨xp, hxp, rfl⟩
    · rw [hl]
      exact hns
    · rw [hl]
      exact hmem
  · intro k k' xp' xp'' i hk hk' hns hi hi'
    obtain ⟨xp, l, hxp, rfl⟩ := hold hk
    obtain ⟨yp, l', hyp, rfl⟩ := hold hk'
    exact hblocks.disjoint hxp hyp hns hi hi'

/-- A task that leaves a pool drops its blocks first. -/
theorem XsmemInv.leave (hinv : XsmemInv A ext s) {v : PoolView σ} {n n' : TaskPoolNode}
    {task : XsmTask} (hxp : s.pools h = some xp) (ht : s.tasks u = some task)
    (hn : n ∈ xp.nodeListHead) (hu : n.task = u) (hleaves : Leaves A (s.view xp) n v n')
    (hempty : n'.taskBlkHead = []) :
    XsmemInv A (h :: ext) ((s.setView h { v with xp := poolNodeDel v.xp u }).setTask u
      (taskDetached task h xp.createPid)) := by
  have hpool := hinv.blocks.pool_inv hxp
  have hdropped : XsmemInv A ext (s.setView h v) :=
    hinv.setView hxp hleaves.sameTasks (hleaves.inv hpool)
      (hleaves.preserves_kept (hinv.blocks.kept hxp)) (hleaves.idStep hpool)
  have hxp₁ : (s.setView h v).pools h = some v.xp := Function.update_self ..
  have hn' : n' ∈ v.xp.nodeListHead := hleaves.mem hn
  have hu' : n'.task = u := hleaves.task_eq.trans hu
  have hleft : XsmemInv A (h :: ext) (((s.setView h v).setPool h (poolNodeDel v.xp u)).setTask u
      (taskDetached task h xp.createPid)) := by
    subst hu
    refine hdropped.setPool hxp₁ (poolNodeDel v.xp n.task) ⟨rfl, rfl, rfl, rfl⟩ rfl
      (fun hv => ?_) ?_ (hdropped.table.write ht rfl)
    · exact hu' ▸ poolNodeDel_inv hv hn' hempty
    · refine hdropped.refs.detach (facesOf_eq hxp₁) ht ?_ rfl ?_ rfl rfl rfl
      · exact hu' ▸ List.mem_map_of_mem (List.mem_map_of_mem hn')
      · simp only [XsmPool.face, XsmPool.members, poolNodeDel, remove, List.filter_map]
        rfl
  have hstate : (s.setView h v).setPool h (poolNodeDel v.xp u) =
      s.setView h { v with xp := poolNodeDel v.xp u } := by
    simp [XsmemState.setView, XsmemState.setPool, poolNodeDel, Function.update_idem]
  rwa [hstate] at hleft

theorem Act.inv (hinv : XsmemInv A ext s) (act : Act A u P (ext, s) (ext', s')) :
    XsmemInv A ext' s' := by
  have htable := hinv.table
  have hrefs := hinv.refs
  cases act with
  | @get _ _ h xp hxp =>
      refine hinv.setPool hxp { xp with refcnt := xp.refcnt + 1 } ⟨rfl, rfl, rfl, rfl⟩ rfl
        (fun hv => hv.same rfl rfl rfl rfl rfl rfl) ?_ htable
      exact hrefs.get (facesOf_eq hxp) rfl rfl
  | @put _ _ h xp hxp hmore =>
      refine hinv.setPool hxp { xp with refcnt := xp.refcnt - 1 } ⟨rfl, rfl, rfl, rfl⟩ rfl
        (fun hv => hv.same rfl rfl rfl rfl rfl rfl) ?_ htable
      exact hrefs.put (facesOf_eq hxp) hmore rfl rfl
  | @delete _ _ h xp hxp hlast env =>
      have hface := facesOf_eq hxp
      have hpool := hinv.blocks.pool_inv hxp
      have hlast' : PoolInv A (s.view { xp with refcnt := xp.refcnt - 1 }) :=
        PoolInv.same hpool rfl rfl rfl rfl rfl rfl
      have hclear := (xsmemClearBlock_spec hlast' env).2
      refine ⟨?_, ?_, htable, hinv.blocks.delete hxp hclear⟩
      · simpa [xsmemPoolDelete, facesOf_update] using (hrefs.delete hface hlast).2.2.2.2
      · simpa [xsmemPoolDelete, facesOf_update] using hinv.names.delete hface
  | idle hxp e =>
      have hpool := hinv.blocks.pool_inv hxp
      have hkept := hinv.blocks.kept hxp
      refine hinv.setView hxp e.sameTasks (e.inv hpool) ?_ (e.idStep hpool)
      rw [Kept, e.xp]
      exact hkept
  | event hxp hn hu e hP =>
      have hpool := hinv.blocks.pool_inv hxp
      exact hinv.setView hxp e.sameTasks (e.inv hpool)
        (e.preserves_kept (hinv.blocks.kept hxp)) (e.idStep hpool)
  | leave hxp ht hn hu hleaves hempty hP => exact hinv.leave hxp ht hn hu hleaves hempty
  | unregister ht hh hleft =>
      exact ⟨hrefs.unregister ht hh rfl rfl rfl, hinv.names, htable.write ht rfl, hinv.blocks⟩
  | @adding _ _ h xp hxp l =>
      refine hinv.setPool hxp { xp with addingTaskListHead := l } ⟨rfl, rfl, rfl, rfl⟩ rfl
        (fun hv => hv.same rfl rfl rfl rfl rfl rfl) ?_ htable
      exact hrefs.face (facesOf_eq hxp) rfl rfl
  | @join _ _ h xp task hxp ht hnew hlimit hP attr =>
      refine hinv.setPool hxp { poolNodeAdd xp u task.pid attr with refcnt := xp.refcnt + 1 }
        ⟨rfl, rfl, rfl, rfl⟩ rfl (fun hv => ?_) ?_ (htable.write ht rfl)
      · suffices hadded : PoolInv A (s.view (poolNodeAdd xp u task.pid attr)) from
          hadded.same rfl rfl rfl rfl rfl rfl
        refine poolNodeAdd_inv hv fun m hm hmu => hnew ?_
        refine (hrefs.node_iff ht h).mpr ⟨_, facesOf_eq hxp, ?_⟩
        exact hmu ▸ List.mem_map_of_mem (List.mem_map_of_mem hm)
      · have hmembers : { poolNodeAdd xp u task.pid attr with refcnt := xp.refcnt + 1 }.face.members =
            xp.face.members ++ [(u, task.pid, attr)] := by
          simp [XsmPool.face, XsmPool.members, poolNodeAdd]
        exact hrefs.attach (facesOf_eq hxp) ht hnew rfl hmembers rfl rfl rfl
  | @register _ _ task size priv id ht hlimit hid tgid ns key hkey hsize hinit =>
      have hfresh : s.pools s.nextXp = none := by
        cases hxp : s.pools s.nextXp with
        | none => rfl
        | some xp => exact absurd (hinv.names.face_lt (facesOf_eq hxp)) (lt_irrefl _)
      have hnone : facesOf s.pools s.nextXp = none := by simp [facesOf, hfresh]
      have hlive := A.live_init hsize hinit
      refine ⟨?_, ?_, htable.write ht rfl, ?_⟩
      · have hnew : RefInv ext (Function.update s.tasks u (some (taskRegistered task s.nextXp)))
            (Function.update (facesOf s.pools) s.nextXp
              (some (poolRegistered id priv tgid ns key).face)) s.attaching :=
          hrefs.register hnone ht rfl rfl rfl rfl rfl
        simpa [registerPool, XsmemState.setTask, XsmemState.setPool, facesOf_update] using hnew
      · have hnew := hinv.names.create (f := (poolRegistered id priv tgid ns key).face) hid
          fun hf => hinv.hnode_none hkey hf
        simpa [registerPool, XsmemState.setTask, XsmemState.setPool, facesOf_update] using hnew
      · exact hinv.blocks.create hfresh rfl rfl hlive rfl rfl
  | «open» tgid hnone =>
      have hfresh : s.tasks (s.uniProcessId + 1) = none := by
        cases ht : s.tasks (s.uniProcessId + 1) with
        | none => rfl
        | some t => exact absurd (htable.task_le ht) (by omega)
      exact ⟨hrefs.open hfresh rfl rfl, hinv.names,
        htable.open fun ht => hinv.taskFind_none hnone ht, hinv.blocks⟩
  | close ht hnodes hregs hwait =>
      exact ⟨hrefs.close ht hnodes hregs hwait, hinv.names, htable.close, hinv.blocks⟩
  | block ht => exact ⟨hrefs.block ht, hinv.names, htable, hinv.blocks⟩
  | unblock hw => exact ⟨hrefs.unblock hw, hinv.names, htable, hinv.blocks⟩
  | exitNotify pid => exact hinv.exitNotify pid

/-- The acts of one call. -/
abbrev Acts (A : PoolAlgo σ ε) (u : ℕ) (P : Allow) :
    List ℕ × XsmemState σ → List ℕ × XsmemState σ → Prop :=
  Relation.ReflTransGen (Act A u P)

theorem Acts.inv {x y : List ℕ × XsmemState σ} (hinv : XsmemInv A x.1 x.2)
    (acts : Acts A u P x y) : XsmemInv A y.1 y.2 := by
  induction acts with
  | refl => exact hinv
  | tail _ act ih => exact act.inv ih

end Inv

/-! ## Calls with one event -/

/-- The acts that neither change a block nor leave a pool. -/
def Allow.quiet (P : Allow) : Allow where
  event _ _ := False
  leave := False
  join := P.join

theorem Act.mono {A : PoolAlgo σ ε} {u : ℕ} {P Q : Allow} {x y : List ℕ × XsmemState σ}
    (hevent : ∀ n ev, P.event n ev → Q.event n ev) (hleave : P.leave → Q.leave)
    (hjoin : ∀ t h createPid, P.join t h createPid → Q.join t h createPid)
    (act : Act A u P x y) : Act A u Q x y := by
  cases act with
  | get hxp => exact .get hxp
  | put hxp hmore => exact .put hxp hmore
  | delete hxp hlast env => exact .delete hxp hlast env
  | idle hxp e => exact .idle hxp e
  | event hxp hn hu e hP => exact .event hxp hn hu e (hevent _ _ hP)
  | leave hxp ht hn hu hleaves hempty hP =>
      exact .leave hxp ht hn hu hleaves hempty (hleave hP)
  | unregister ht hh hleft => exact .unregister ht hh hleft
  | adding hxp l => exact .adding hxp l
  | join hxp ht hnew hlimit hP attr => exact .join hxp ht hnew hlimit (hjoin _ _ _ hP) attr
  | register ht hlimit hid tgid ns key hkey hsize hinit =>
      exact .register ht hlimit hid tgid ns key hkey hsize hinit
  | «open» tgid hnone => exact .open tgid hnone
  | close ht hnodes hregs hwait => exact .close ht hnodes hregs hwait
  | block ht => exact .block ht
  | unblock hw => exact .unblock hw
  | exitNotify pid => exact .exitNotify pid

/-- At most one of the acts changes a block. -/
def ActsOnce (A : PoolAlgo σ ε) (u : ℕ) (P : Allow) (x z : List ℕ × XsmemState σ) : Prop :=
  ∃ y y', Acts A u P.quiet x y ∧ (y' = y ∨ Act A u P y y') ∧ Acts A u P.quiet y' z

section Once

variable {A : PoolAlgo σ ε} {u : ℕ} {P : Allow} {x y z : List ℕ × XsmemState σ}

theorem ActsOnce.of_quiet (acts : Acts A u P.quiet x z) : ActsOnce A u P x z :=
  ⟨z, z, acts, .inl rfl, .refl⟩

theorem ActsOnce.single (act : Act A u P x z) : ActsOnce A u P x z :=
  ⟨x, z, .refl, .inr act, .refl⟩

theorem Acts.of_quiet (acts : Acts A u P.quiet x z) : Acts A u P x z := by
  induction acts with
  | refl => exact .refl
  | tail _ act ih =>
      apply ih.tail
      exact Act.mono (P := P.quiet) (fun _ _ hP => hP.elim) (fun hP => hP.elim)
        (fun _ _ _ hP => hP) act

theorem ActsOnce.acts (once : ActsOnce A u P x z) : Acts A u P x z := by
  obtain ⟨y, y', hbefore, hact, hafter⟩ := once
  have hmid : Acts A u P y y' := by
    rcases hact with rfl | hact
    · exact .refl
    · exact .single hact
  exact (Acts.of_quiet hbefore).trans (hmid.trans (Acts.of_quiet hafter))

end Once

end OpiaiKernel.Xsmem
