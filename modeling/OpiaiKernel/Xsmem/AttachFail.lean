import OpiaiKernel.Xsmem.PoolLifetime

/-!
# Attaches that fail

A process attaches to a pool after it has been added to it: the entry of the
process in the pool is taken, its permission is granted to the memory of the
pool, and the pool and the task are linked.  A failure behind the entry leaves
it taken.

The steps are those of the framework, with what they return: the grant of
`xsm_pool_perm_add`, which a pool may do without, and the write of the result to
the caller.
-/

namespace OpiaiKernel.Xsmem

variable {σ ε : Type}

/-- What `xsm_pool_perm_add` has granted: to which pool, to which process, and
whether it may write. -/
structure Grant where
  xp : ℕ
  pid : ℕ
  write : Bool
  deriving DecidableEq

/-- What an attach is given by its surroundings. -/
structure AttachAnswers (ε : Type) where
  hasPermAdd : Bool
  permAdd : Except Errno Unit
  kmalloc : Bool
  putUser : Bool
  env : ℕ → ℕ → ε

/-- An attach comes back: without having waited, with an entry after a wait, or
from a wait that has timed out or was interrupted. -/
inductive AttachReturn
  | call (uid tgid poolId timeout : ℕ)
  | wake (w : AttachWait)
  | giveUp (w : AttachWait) (e : Errno)

namespace AttachAnswers

variable (ans : AttachAnswers ε)

def perm : Except Errno Unit := if ans.hasPermAdd = true then ans.permAdd else .ok ()

/-- The permission is granted. -/
def grants : Bool := ans.hasPermAdd && (match ans.permAdd with | .ok () => true | .error _ => false)

/-- The grant of `xsmem_pool_task_attr_get`. -/
def grant (h : ℕ) (addingTask : AddingTask) : Option Grant :=
  if ans.grants = true then
    some ⟨h, addingTask.pid, addingTask.attr.alloc || addingTask.attr.write⟩
  else none

/-- The end of `ioctl_xsmem_pool_attach`. -/
def putRet (ret : Except Errno Unit) : Except Errno Unit :=
  match ret with
  | .error e => .error e
  | .ok () => if ans.putUser = true then .ok () else .error .EFAULT

end AttachAnswers

/-- The entry that an attach which does not wait takes. -/
def attachAdmission (s : XsmemState σ) (task : XsmTask) (tgid poolId : ℕ) :
    Option (ℕ × AddingTask) :=
  match s.xsmemIdr poolId with
  | none => none
  | some h =>
      if h ∈ task.nodeListHead then none
      else (s.pools h).bind fun xp => (xsmemPoolAddingTaskFind xp tgid).map fun a => (h, a)

/-- What an attach returns, the state behind it and what it has been granted;
nothing when it waits. -/
def attachReturn (A : PoolAlgo σ ε) (ans : AttachAnswers ε) (s : XsmemState σ) :
    AttachReturn → Option (Except Errno Unit × XsmemState σ × Option Grant)
  | .call uid tgid poolId timeout =>
      (s.tasks uid).bind fun task =>
        let (ret, t) :=
          ioctlXsmemPoolAttach A ans.env s uid tgid task poolId timeout ans.perm ans.kmalloc
        if t.attaching ≠ s.attaching then none
        else
          some (ans.putRet ret, t,
            (attachAdmission s task tgid poolId).bind fun found => ans.grant found.1 found.2)
  | .wake w =>
      if w ∈ s.attaching then
        match s.tasks w.uid, s.pools w.xp with
        | some task, some xp =>
            (xsmemPoolAddingTaskFind xp w.tgid).map fun addingTask =>
              let (ret, t) := xsmemPoolAttachFound { s with attaching := s.attaching.erase w } w.uid
                w.xp task xp addingTask ans.perm ans.kmalloc
              (ans.putRet ret, xsmemPoolPut A ans.env t w.xp, ans.grant w.xp addingTask)
        | _, _ => none
      else none
  | .giveUp w e =>
      if w ∈ s.attaching then some (.error e, attachGiveUp A ans.env s w, none) else none

/-- The state without the attach: one that has waited has put its reference. -/
def withoutAttach (A : PoolAlgo σ ε) (env : ℕ → ℕ → ε) (s : XsmemState σ) :
    AttachReturn → XsmemState σ
  | .call .. => s
  | .wake w => attachGiveUp A env s w
  | .giveUp w _ => attachGiveUp A env s w

/-! ## The claim -/

/-- The count, the nodes and the entries of a pool. -/
def XsmPool.lists (xp : XsmPool σ) : ℤ × List TaskPoolNode × List AddingTask :=
  (xp.refcnt, xp.nodeListHead, xp.addingTaskListHead)

/-- The nodes of a task and its `pool_num`. -/
def XsmTask.lists (task : XsmTask) : List ℕ × ℤ := (task.nodeListHead, task.poolNum)

/-- The pools and the tasks are as in `s`, and nothing is granted. -/
structure AttachUndone (s t : XsmemState σ) (grant : Option Grant) : Prop where
  pools : ∀ h, (t.pools h).map XsmPool.lists = (s.pools h).map XsmPool.lists
  tasks : ∀ uid, (t.tasks uid).map XsmTask.lists = (s.tasks uid).map XsmTask.lists
  grant : grant = none

/-- The attach takes an entry.  One that has waited may hold the last reference of
the pool, so that the entry goes with the pool; it counts when something is
granted or the attach passes. -/
def TakesAdmission (ans : AttachAnswers ε) (s : XsmemState σ) : AttachReturn → Prop
  | .call uid tgid poolId _ =>
      ∃ task found, s.tasks uid = some task ∧ attachAdmission s task tgid poolId = some found
  | .wake w =>
      ∃ task xp, s.tasks w.uid = some task ∧ s.pools w.xp = some xp ∧
        (xp.refcnt ≠ 1 ∨ ans.grants = true ∨
          AttachPasses w.xp task xp.createPid ans.perm ans.kmalloc)
  | .giveUp .. => False

/-! ## References -/

variable {A : PoolAlgo σ ε} {ans : AttachAnswers ε} {s t : XsmemState σ} {h uid : ℕ}
  {xp : XsmPool σ} {task : XsmTask} {addingTask : AddingTask}

theorem setPool_setPool (s : XsmemState σ) (h : ℕ) (xp xp' : XsmPool σ) :
    (s.setPool h xp).setPool h xp' = s.setPool h xp' := by
  simp only [XsmemState.setPool, Function.update_idem]

theorem setPool_self (hxp : s.pools h = some xp) : s.setPool h xp = s := by
  rw [XsmemState.setPool, ← hxp, Function.update_eq_self]

theorem xsmemPoolPut_more (env : ℕ → ℕ → ε) (hxp : s.pools h = some xp)
    (hmore : xp.refcnt - 1 ≠ 0) :
    xsmemPoolPut A env s h = s.setPool h { xp with refcnt := xp.refcnt - 1 } := by
  rw [xsmemPoolPut, hxp]
  exact if_pos hmore

theorem xsmemPoolPut_last (env : ℕ → ℕ → ε) (hxp : s.pools h = some xp)
    (hlast : xp.refcnt - 1 = 0) :
    (xsmemPoolPut A env s h).pools = Function.update s.pools h none := by
  rw [xsmemPoolPut, hxp]
  dsimp only
  rw [if_neg (not_not.mpr hlast)]
  rfl

/-- An attach that neither finds an entry nor waits puts the reference back that
it has got. -/
theorem xsmemPoolPut_get (env : ℕ → ℕ → ε) (hxp : s.pools h = some xp) (hpos : 0 < xp.refcnt) :
    xsmemPoolPut A env (s.setPool h { xp with refcnt := xp.refcnt + 1 }) h = s := by
  rw [xsmemPoolPut_more env (XsmemState.setPool_pools ..) (by dsimp only; omega), setPool_setPool]
  simp only [add_sub_cancel_right]
  exact setPool_self hxp

/-! ## The entry -/

/-- The entry that is found is taken, and the attach fails or passes. -/
theorem xsmemPoolAttachFound_cases (s : XsmemState σ) (uid h : ℕ) (task : XsmTask) (xp : XsmPool σ)
    (addingTask : AddingTask) (permAdd : Except Errno Unit) (kmalloc : Bool) :
    (∃ e, xsmemPoolAttachFound s uid h task xp addingTask permAdd kmalloc =
        (.error e, s.setPool h (xsmemPoolAddingTaskDel xp addingTask)) ∧
      ¬ AttachPasses h task xp.createPid permAdd kmalloc) ∨
    (AttachPasses h task xp.createPid permAdd kmalloc ∧
      ∃ xp' task', xsmemPoolAttachFound s uid h task xp addingTask permAdd kmalloc =
          (.ok (), (s.setPool h xp').setTask uid task') ∧
        xp'.refcnt = xp.refcnt + 1 ∧
        xp'.addingTaskListHead = xp.addingTaskListHead.erase addingTask) := by
  unfold xsmemPoolAttachFound
  cases permAdd with
  | error e => exact .inl ⟨e, rfl, fun hpass => by cases hpass.perm⟩
  | ok _ =>
      dsimp only
      split
      next hlimit =>
        refine .inl ⟨_, rfl, fun hpass => ?_⟩
        exact absurd (hpass.limit hlimit.1) (not_le.mpr hlimit.2)
      next hlimit =>
        split
        next hnew => exact .inl ⟨_, rfl, fun hpass => hpass.new hnew⟩
        next hnew =>
          split
          next hnode =>
            exact .inl ⟨_, rfl, fun hpass => Bool.false_ne_true (hnode.symm.trans hpass.node)⟩
          next hnode =>
            refine .inr ⟨⟨rfl, fun hpid => ?_, hnew, Bool.of_not_eq_false hnode⟩, ?_⟩
            · by_contra hover
              exact hlimit ⟨hpid, not_le.mp hover⟩
            · exact ⟨_, _, rfl, rfl, rfl⟩

theorem erase_ne {addingTask : AddingTask} {l : List AddingTask} (hmem : addingTask ∈ l) :
    l.erase addingTask ≠ l := by
  intro heq
  have hlen := List.length_erase_add_one hmem
  rw [heq] at hlen
  omega

theorem grant_eq_none_iff (ans : AttachAnswers ε) (h : ℕ) (addingTask : AddingTask) :
    ans.grant h addingTask = none ↔ ¬ ans.grants = true := by
  unfold AttachAnswers.grant
  split
  next hgrants => simp [hgrants]
  next hgrants => simp [hgrants]

/-- The loss of an entry does not show when the pool goes with the reference of the
attach. -/
theorem entryDel_undone_iff (ans : AttachAnswers ε) (env : ℕ → ℕ → ε)
    (hxp : s.pools h = some xp) (hmem : addingTask ∈ xp.addingTaskListHead) :
    AttachUndone (xsmemPoolPut A env s h)
        (xsmemPoolPut A env (s.setPool h (xsmemPoolAddingTaskDel xp addingTask)) h)
        (ans.grant h addingTask) ↔
      xp.refcnt = 1 ∧ ¬ ans.grants = true := by
  have hxp' : (s.setPool h (xsmemPoolAddingTaskDel xp addingTask)).pools h =
      some (xsmemPoolAddingTaskDel xp addingTask) := XsmemState.setPool_pools ..
  by_cases hlast : xp.refcnt = 1
  · have hzero : xp.refcnt - 1 = 0 := by omega
    have hsame : (xsmemPoolPut A env (s.setPool h (xsmemPoolAddingTaskDel xp addingTask)) h).pools =
        (xsmemPoolPut A env s h).pools := by
      rw [xsmemPoolPut_last env hxp' hzero, xsmemPoolPut_last env hxp hzero, XsmemState.setPool,
        Function.update_idem]
    constructor
    · intro hundone
      exact ⟨hlast, (grant_eq_none_iff ans h addingTask).mp hundone.grant⟩
    · rintro ⟨-, hgrants⟩
      refine ⟨fun k => ?_, fun u => ?_, (grant_eq_none_iff ans h addingTask).mpr hgrants⟩
      · rw [hsame]
      · rw [xsmemPoolPut_tasks, xsmemPoolPut_tasks]
        rfl
  · refine iff_of_false (fun hundone => ?_) (fun hnone => hlast hnone.1)
    have hmore : xp.refcnt - 1 ≠ 0 := by omega
    have hpool := hundone.pools h
    rw [xsmemPoolPut_more env hxp hmore, xsmemPoolPut_more env hxp' hmore,
      XsmemState.setPool_pools, XsmemState.setPool_pools] at hpool
    simp only [Option.map_some, XsmPool.lists, xsmemPoolAddingTaskDel, Option.some.injEq,
      Prod.mk.injEq] at hpool
    exact erase_ne hmem hpool.2.2

/-- A pool with a node more is not the one before. -/
theorem attached_not_undone (env : ℕ → ℕ → ε) (hxp : s.pools h = some xp) (hpos : 0 < xp.refcnt)
    (hmem : addingTask ∈ xp.addingTaskListHead) {xp' : XsmPool σ} (task' : XsmTask)
    (hrefcnt : xp'.refcnt = xp.refcnt + 1)
    (hadding : xp'.addingTaskListHead = xp.addingTaskListHead.erase addingTask)
    (grant : Option Grant) :
    ¬ AttachUndone (xsmemPoolPut A env s h)
        (xsmemPoolPut A env ((s.setPool h xp').setTask uid task') h) grant := by
  intro hundone
  have hxp' : ((s.setPool h xp').setTask uid task').pools h = some xp' :=
    XsmemState.setPool_pools ..
  have hmore' : xp'.refcnt - 1 ≠ 0 := by omega
  have hpool := hundone.pools h
  rw [xsmemPoolPut_more env hxp' hmore', XsmemState.setPool_pools] at hpool
  by_cases hlast : xp.refcnt - 1 = 0
  · rw [xsmemPoolPut_last env hxp hlast, Function.update_self] at hpool
    cases hpool
  · rw [xsmemPoolPut_more env hxp hlast, XsmemState.setPool_pools] at hpool
    simp only [Option.map_some, XsmPool.lists, hadding, Option.some.injEq, Prod.mk.injEq] at hpool
    exact erase_ne hmem hpool.2.2

/-- An attach that finds an entry is undone only when it fails, the pool goes with the
reference of the attach, and nothing is granted. -/
theorem found_undone_iff (ans : AttachAnswers ε) (env : ℕ → ℕ → ε)
    (hxp : s.pools h = some xp) (hpos : 0 < xp.refcnt) (task : XsmTask)
    (hmem : addingTask ∈ xp.addingTaskListHead) (uid : ℕ) :
    AttachUndone (xsmemPoolPut A env s h)
        (xsmemPoolPut A env
          (xsmemPoolAttachFound s uid h task xp addingTask ans.perm ans.kmalloc).2 h)
        (ans.grant h addingTask) ↔
      ¬ (xp.refcnt ≠ 1 ∨ ans.grants = true ∨
        AttachPasses h task xp.createPid ans.perm ans.kmalloc) := by
  rcases xsmemPoolAttachFound_cases s uid h task xp addingTask ans.perm ans.kmalloc with
    ⟨e, hfound, hfails⟩ | ⟨hpass, xp', task', hfound, hrefcnt, hadding⟩
  · rw [hfound, entryDel_undone_iff ans env hxp hmem, not_or, not_or, not_not]
    exact and_congr_right fun _ => (and_iff_left hfails).symm
  · rw [hfound]
    refine iff_of_false ?_ (fun hnone => hnone (.inr (.inr hpass)))
    exact attached_not_undone env hxp hpos hmem task' hrefcnt hadding _

/-! ## The attach -/

theorem mem_of_addingTaskFind {pid : ℕ} (hfind : xsmemPoolAddingTaskFind xp pid = some addingTask) :
    addingTask ∈ xp.addingTaskListHead :=
  Keyed.mem_of_get hfind

theorem attachUndone_refl (s : XsmemState σ) : AttachUndone s s none :=
  ⟨fun _ => rfl, fun _ => rfl, rfl⟩

theorem attachAdmission_none {task : XsmTask} {tgid poolId : ℕ}
    (hget : xsmemPoolGet s poolId = none) : attachAdmission s task tgid poolId = none := by
  rw [attachAdmission]
  cases hid : s.xsmemIdr poolId with
  | none => rfl
  | some h =>
      rw [xsmemPoolGet, hid] at hget
      cases hxp : s.pools h with
      | none => simp only [hxp, Option.bind_none, ite_self]
      | some xp =>
          simp only [hxp] at hget
          cases hget

/-- What an attach that does not wait comes to: nothing, a wait, or an entry. -/
theorem ioctlXsmemPoolAttach_cases (env : ℕ → ℕ → ε)
    (hpos : ∀ {h xp}, s.pools h = some xp → 0 < xp.refcnt) (uid tgid : ℕ) (task : XsmTask)
    (poolId timeout : ℕ) (permAdd : Except Errno Unit) (kmalloc : Bool) :
    let r := ioctlXsmemPoolAttach A env s uid tgid task poolId timeout permAdd kmalloc
    (attachAdmission s task tgid poolId = none ∧ (r.2 = s ∨ r.2.attaching ≠ s.attaching)) ∨
    ∃ h xp addingTask, attachAdmission s task tgid poolId = some (h, addingTask) ∧
      s.pools h = some xp ∧ xsmemPoolAddingTaskFind xp tgid = some addingTask ∧
      r.2 = xsmemPoolPut A env
        (xsmemPoolAttachFound (s.setPool h { xp with refcnt := xp.refcnt + 1 }) uid h task
          { xp with refcnt := xp.refcnt + 1 } addingTask permAdd kmalloc).2 h := by
  intro r
  have hr : r = ioctlXsmemPoolAttach A env s uid tgid task poolId timeout permAdd kmalloc := rfl
  unfold ioctlXsmemPoolAttach at hr
  cases hget : xsmemPoolGet s poolId with
  | none =>
      simp only [hget] at hr
      exact .inl ⟨attachAdmission_none hget, .inl (by rw [hr])⟩
  | some found =>
      obtain ⟨h, s₁⟩ := found
      have hid := xsmemPoolGet_id hget
      obtain ⟨xp, hxp, rfl⟩ := xsmemPoolGet_some hget
      have hput := xsmemPoolPut_get (A := A) env hxp (hpos hxp)
      simp only [hget, XsmemState.setPool_pools] at hr
      simp only [attachAdmission, hid, hxp, Option.bind_some]
      by_cases hnew : h ∈ task.nodeListHead
      · rw [if_pos hnew] at hr ⊢
        exact .inl ⟨rfl, .inl (by rw [hr, hput])⟩
      · rw [if_neg hnew] at hr ⊢
        have hfind : xsmemPoolAddingTaskFind { xp with refcnt := xp.refcnt + 1 } tgid =
            xsmemPoolAddingTaskFind xp tgid := rfl
        rw [hfind] at hr
        cases hentry : xsmemPoolAddingTaskFind xp tgid with
        | none =>
            simp only [hentry] at hr
            refine .inl ⟨rfl, ?_⟩
            split at hr
            · exact .inl (by rw [hr, hput])
            · refine .inr fun heq => ?_
              rw [hr] at heq
              exact absurd (congrArg List.length heq) (by simp [XsmemState.setPool])
        | some addingTask =>
            simp only [hentry] at hr
            exact .inr ⟨h, xp, addingTask, rfl, hxp, hentry, by rw [hr]⟩

/-- An attach that fails leaves the pools, the tasks and the grants as they are
without it exactly when it takes no entry. -/
theorem attach_undone_iff (A : PoolAlgo σ ε) (ans : AttachAnswers ε) (s : XsmemState σ)
    (hs : (xsmemMachine A).Reach s) (r : AttachReturn) (e : Errno) (t : XsmemState σ)
    (grant : Option Grant) (hret : attachReturn A ans s r = some (.error e, t, grant)) :
    AttachUndone (withoutAttach A ans.env s r) t grant ↔ ¬ TakesAdmission ans s r := by
  have hpos : ∀ {h xp}, s.pools h = some xp → 0 < xp.refcnt := by
    intro h xp hxp
    exact (xsmem_inv hs).refs.refcnt_pos (facesOf_eq hxp)
  cases r with
  | call uid tgid poolId timeout =>
      obtain ⟨task, htask, hcall⟩ := Option.bind_eq_some_iff.mp hret
      have hcases := ioctlXsmemPoolAttach_cases (A := A) ans.env hpos uid tgid task poolId timeout
        ans.perm ans.kmalloc
      dsimp only at hcall hcases
      split_ifs at hcall with hwaits
      simp only [Option.some.injEq, Prod.mk.injEq] at hcall
      obtain ⟨-, rfl, rfl⟩ := hcall
      rcases hcases with ⟨hnone, hsame | hwait⟩ | ⟨h, xp, addingTask, hsome, hxp, hentry, hstate⟩
      · rw [hsame, hnone]
        refine iff_of_true (attachUndone_refl s) ?_
        rintro ⟨task', found, htask', hfound⟩
        obtain rfl := Option.some.inj (htask.symm.trans htask')
        rw [hnone] at hfound
        cases hfound
      · exact absurd hwait hwaits
      · refine iff_of_false ?_ (fun hnot => hnot ⟨task, (h, addingTask), htask, hsome⟩)
        rw [hsome, hstate]
        have hxp₁ : (s.setPool h { xp with refcnt := xp.refcnt + 1 }).pools h = _ :=
          XsmemState.setPool_pools ..
        have hpos₁ := hpos hxp
        have hundone := found_undone_iff (A := A) ans ans.env hxp₁ (by dsimp only; omega)
          task (mem_of_addingTaskFind hentry) uid
        rw [xsmemPoolPut_get ans.env hxp hpos₁] at hundone
        intro hdone
        exact hundone.mp hdone (.inl (by dsimp only; omega))
  | wake w =>
      dsimp only [attachReturn] at hret
      split_ifs at hret with hw
      split at hret
      next task xp htask hxp =>
        obtain ⟨addingTask, hentry, heq⟩ := Option.map_eq_some_iff.mp hret
        simp only [Prod.mk.injEq] at heq
        obtain ⟨-, rfl, rfl⟩ := heq
        have hundone := found_undone_iff (A := A) ans
          (s := { s with attaching := s.attaching.erase w }) ans.env hxp (hpos hxp) task
          (mem_of_addingTaskFind hentry) w.uid
        refine hundone.trans (not_congr ⟨fun htakes => ⟨task, xp, htask, hxp, htakes⟩, ?_⟩)
        rintro ⟨task', xp', htask', hxp', htakes⟩
        obtain rfl := Option.some.inj (htask.symm.trans htask')
        obtain rfl := Option.some.inj (hxp.symm.trans hxp')
        exact htakes
      next => cases hret
  | giveUp w e' =>
      dsimp only [attachReturn] at hret
      split_ifs at hret with hw
      obtain ⟨-, rfl, rfl⟩ := hret
      exact iff_of_true (attachUndone_refl _) not_false

/-- The process 10 has the pool 0 registered and has added the process 11. -/
def addedOps : List (XsmemOp AugTree.Rotations) :=
  [.open 10 true, .open 11 true,
    .call 1 (.register 10 0 "a" 8192 true) fun _ _ => [],
    .call 1 (.taskAdd 0 (.ok 11) ⟨true, true, true, true, 0⟩ true) fun _ _ => []]

def addedRun : XsmemState VmaCtrl := (xsmemMachine (vmaAlgo page4K)).final xsmemInit addedOps

theorem addedRun_reach : (xsmemMachine (vmaAlgo page4K)).Reach addedRun :=
  Machine.Reach.final (s := xsmemInit) (.start rfl) (by decide +kernel)

def noMemory : AttachAnswers AugTree.Rotations where
  hasPermAdd := false
  permAdd := .ok ()
  kmalloc := false
  putUser := true
  env := fun _ _ => []

/-- The process 10 has not been added itself. -/
theorem attach_undone_stranger :
    ∃ t, attachReturn (vmaAlgo page4K) noMemory addedRun (.call 1 10 0 0) =
        some (.error .EINVAL, t, none) ∧ AttachUndone addedRun t none := by
  have hcall : (attachReturn (vmaAlgo page4K) noMemory addedRun (.call 1 10 0 0)).map
      (fun x => (x.1, x.2.2)) = some (.error .EINVAL, none) := by
    decide +kernel
  obtain ⟨⟨ret, t, grant⟩, hret, heq⟩ := Option.map_eq_some_iff.mp hcall
  simp only [Prod.mk.injEq] at heq
  obtain ⟨rfl, rfl⟩ := heq
  refine ⟨t, hret, (attach_undone_iff (vmaAlgo page4K) noMemory addedRun addedRun_reach
    (.call 1 10 0 0) .EINVAL t none hret).mpr ?_⟩
  rintro ⟨task, found, htask, hfound⟩
  have hnone : (addedRun.tasks 1).bind (attachAdmission addedRun · 10 0) = none := by
    decide +kernel
  rw [htask, Option.bind_some, hfound] at hnone
  cases hnone

/-- The process 11 fails for want of memory, and a second attach finds no entry. -/
theorem attach_fails_for_good :
    (xsmemMachine (vmaAlgo page4K)).Reach addedRun ∧
      ∃ t, attachReturn (vmaAlgo page4K) noMemory addedRun (.call 2 11 0 0) =
          some (.error .ENOMEM, t, none) ∧ ¬ AttachUndone addedRun t none ∧
        (attachReturn (vmaAlgo page4K) { noMemory with kmalloc := true } t (.call 2 11 0 0)).map
          Prod.fst = some (.error .EINVAL) := by
  have hcall : (attachReturn (vmaAlgo page4K) noMemory addedRun (.call 2 11 0 0)).map
      (fun x => (x.1, x.2.2)) = some (.error .ENOMEM, none) := by
    decide +kernel
  have hlists : (attachReturn (vmaAlgo page4K) noMemory addedRun (.call 2 11 0 0)).map
      (fun x => (x.2.1.pools 0).map XsmPool.lists) ≠
        some ((addedRun.pools 0).map XsmPool.lists) := by
    decide +kernel
  have hretry : (attachReturn (vmaAlgo page4K) noMemory addedRun (.call 2 11 0 0)).bind
      (fun x => (attachReturn (vmaAlgo page4K) { noMemory with kmalloc := true } x.2.1
        (.call 2 11 0 0)).map Prod.fst) = some (.error .EINVAL) := by
    decide +kernel
  obtain ⟨⟨ret, t, grant⟩, hret, heq⟩ := Option.map_eq_some_iff.mp hcall
  simp only [Prod.mk.injEq] at heq
  obtain ⟨rfl, rfl⟩ := heq
  rw [hret] at hlists hretry
  exact ⟨addedRun_reach, t, hret, fun hundone => hlists (congrArg some (hundone.pools 0)), hretry⟩

end OpiaiKernel.Xsmem
