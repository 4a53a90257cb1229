import OpiaiKernel.Xsmem.FrameworkActs

/-!
# The steps as acts

Each function of the framework is a sequence of acts when the invariant holds.
-/

namespace OpiaiKernel.Xsmem

open Keyed

variable {σ ε : Type} {A : PoolAlgo σ ε} {ext : List ℕ} {s s' : XsmemState σ} {h u : ℕ}
  {P : Allow} {xp : XsmPool σ} {task : XsmTask}

/-! ## References -/

theorem xsmemPoolGet_some {id : ℕ} (hget : xsmemPoolGet s id = some (h, s')) :
    ∃ xp, s.pools h = some xp ∧ s' = s.setPool h { xp with refcnt := xp.refcnt + 1 } := by
  unfold xsmemPoolGet at hget
  cases hid : s.xsmemIdr id with
  | none => simp [hid] at hget
  | some k =>
      cases hxp : s.pools k with
      | none => simp [hid, hxp] at hget
      | some xp =>
          simp only [hid, hxp, Option.some.injEq, Prod.mk.injEq] at hget
          obtain ⟨rfl, rfl⟩ := hget
          exact ⟨xp, hxp, rfl⟩

theorem xsmemPoolGet_id {id : ℕ} (hget : xsmemPoolGet s id = some (h, s')) :
    s.xsmemIdr id = some h := by
  unfold xsmemPoolGet at hget
  split at hget
  · simp at hget
  · next k hid =>
      split at hget
      · simp at hget
      · simp only [Option.some.injEq, Prod.mk.injEq] at hget
        exact hget.1 ▸ hid

theorem xsmemPoolGet_act {id : ℕ} (hget : xsmemPoolGet s id = some (h, s')) :
    Act A u P (ext, s) (h :: ext, s') := by
  obtain ⟨xp, hxp, rfl⟩ := xsmemPoolGet_some hget
  exact .get hxp

theorem xsmemPoolGet_tasks {id : ℕ} (hget : xsmemPoolGet s id = some (h, s')) :
    s'.tasks = s.tasks := by
  obtain ⟨xp, -, rfl⟩ := xsmemPoolGet_some hget
  rfl

theorem xsmemPoolPut_act (hinv : XsmemInv A (h :: ext) s) (env : ℕ → ℕ → ε) :
    Act A u P (h :: ext, s) (ext, xsmemPoolPut A env s h) := by
  obtain ⟨f, hf⟩ := hinv.refs.ext_live h (by simp)
  obtain ⟨xp, hxp, rfl⟩ := exists_of_facesOf hf
  simp only [xsmemPoolPut, hxp]
  by_cases hlast : xp.refcnt - 1 = 0
  · rw [if_neg (not_not.mpr hlast)]
    exact .delete hxp hlast (env h)
  · rw [if_pos hlast]
    exact .put hxp hlast

theorem xsmemPoolPut_acts (hinv : XsmemInv A (h :: ext) s) (env : ℕ → ℕ → ε) :
    Acts A u P (h :: ext, s) (ext, xsmemPoolPut A env s h) :=
  .single (xsmemPoolPut_act hinv env)

/-- A call ends by putting its reference. -/
theorem acts_put {x : List ℕ × XsmemState σ} (acts : Acts A u P x (h :: ext, s))
    (hinv : XsmemInv A x.1 x.2) (env : ℕ → ℕ → ε) :
    Acts A u P x (ext, xsmemPoolPut A env s h) :=
  acts.tail (xsmemPoolPut_act (acts.inv hinv) env)

/-! ## Leaving -/

theorem taskPoolNodeFind_some {n : TaskPoolNode} (hfind : taskPoolNodeFind s u h = some n) :
    ∃ task xp, s.tasks u = some task ∧ s.pools h = some xp ∧ h ∈ task.nodeListHead ∧
      n ∈ xp.nodeListHead ∧ n.task = u := by
  unfold taskPoolNodeFind at hfind
  split at hfind
  · next task xp ht hxp =>
      split at hfind
      · next hmem => exact ⟨task, xp, ht, hxp, hmem, mem_of_get hfind, key_of_get hfind⟩
      · simp at hfind
  · simp at hfind

theorem xsmemPoolTaskDetach_acts (hinv : XsmemInv A ext s) {n : TaskPoolNode}
    (ht : s.tasks u = some task) (hxp : s.pools h = some xp) (hn : n ∈ xp.nodeListHead)
    (hu : n.task = u) (hP : P.leave) (env : ℕ → ℕ → ε) :
    Acts A u P (ext, s) (ext, xsmemPoolTaskDetach A env s u h) := by
  subst hu
  have hpool : PoolInv A (s.view xp) := hinv.blocks.pool_inv hxp
  obtain ⟨n', hleaves, hempty⟩ := xsmemTaskClearBlock_leaves hpool hn (env h)
  have hleave : Act A n.task P (ext, s) (h :: ext, _) := .leave hxp ht hn rfl hleaves hempty hP
  simp only [xsmemPoolTaskDetach, ht, hxp]
  exact acts_put (.single hleave) hinv env

theorem xsmemPoolDetach_acts (hinv : XsmemInv A ext s) (hP : P.leave) (env : ℕ → ℕ → ε) :
    Acts A u P (ext, s) (ext, (xsmemPoolDetach A env s u h).2) := by
  unfold xsmemPoolDetach
  cases hfind : taskPoolNodeFind s u h with
  | none => exact .refl
  | some n =>
      obtain ⟨task, xp, ht, hxp, -, hn, hu⟩ := taskPoolNodeFind_some hfind
      exact xsmemPoolTaskDetach_acts hinv ht hxp hn hu hP env

theorem xsmemTaskUnregisterPool_acts (hinv : XsmemInv A ext s) (ht : s.tasks u = some task)
    (hh : h ∈ task.registerXpListHead) (hleft : h ∉ task.nodeListHead) (env : ℕ → ℕ → ε) :
    Acts A u P (ext, s) (ext, xsmemTaskUnregisterPool A env s u h) := by
  have hact : Act A u P (ext, s) (h :: ext, s.setTask u (taskUnregistered task h)) :=
    .unregister ht hh hleft
  simp only [xsmemTaskUnregisterPool, ht]
  exact acts_put (.single hact) hinv env

@[simp] theorem xsmemPoolPut_tasks (A : PoolAlgo σ ε) (env : ℕ → ℕ → ε) (s : XsmemState σ)
    (h : ℕ) : (xsmemPoolPut A env s h).tasks = s.tasks := by
  unfold xsmemPoolPut
  split
  · rfl
  · split <;> rfl

theorem xsmemPoolTaskDetach_task (A : PoolAlgo σ ε) (env : ℕ → ℕ → ε)
    (ht : s.tasks u = some task) (h : ℕ) :
    ∃ task', (xsmemPoolTaskDetach A env s u h).tasks u = some task' ∧
      task'.registerXpListHead = task.registerXpListHead ∧
      (s.pools h ≠ none → task'.nodeListHead = task.nodeListHead.erase h) := by
  unfold xsmemPoolTaskDetach
  cases hxp : s.pools h with
  | none => exact ⟨task, by simp [ht], rfl, by simp⟩
  | some xp =>
      simp only [ht]
      exact ⟨taskDetached task h xp.createPid, by simp [XsmemState.setTask], rfl, fun _ => rfl⟩

theorem taskPoolNodeFind_isSome (hinv : XsmemInv A ext s) (ht : s.tasks u = some task)
    (hmem : h ∈ task.nodeListHead) : ∃ xp n, s.pools h = some xp ∧ n ∈ xp.nodeListHead ∧
      n.task = u ∧ taskPoolNodeFind s u h = some n := by
  obtain ⟨f, hf, hu⟩ := (hinv.refs.node_iff ht h).mp hmem
  obtain ⟨xp, hxp, rfl⟩ := exists_of_facesOf hf
  obtain ⟨n, hn, hnu⟩ : ∃ n ∈ xp.nodeListHead, n.task = u := by
    simpa [PoolFace.uids, XsmPool.face, XsmPool.members] using hu
  refine ⟨xp, n, hxp, hn, hnu, ?_⟩
  have hget := ((hinv.blocks.pool_inv hxp).linked.nodes_uniq.focus hn).get
  simp only [taskPoolNodeFind, ht, hxp, if_pos hmem]
  exact hnu ▸ hget

/-- After a detach the pool is not on the list of the task. -/
theorem xsmemPoolDetach_task (hinv : XsmemInv A ext s) (ht : s.tasks u = some task)
    (env : ℕ → ℕ → ε) :
    ∃ task', (xsmemPoolDetach A env s u h).2.tasks u = some task' ∧
      task'.registerXpListHead = task.registerXpListHead ∧ h ∉ task'.nodeListHead := by
  unfold xsmemPoolDetach
  by_cases hmem : h ∈ task.nodeListHead
  · obtain ⟨xp, n, hxp, -, -, hfind⟩ := taskPoolNodeFind_isSome hinv ht hmem
    obtain ⟨task', ht', hreg, hlist⟩ := xsmemPoolTaskDetach_task A env ht h
    simp only [hfind]
    refine ⟨task', ht', hreg, ?_⟩
    rw [hlist (by simp [hxp])]
    exact (hinv.refs.node_nodup ht).not_mem_erase
  · have hfind : taskPoolNodeFind s u h = none := by
      cases hfind : taskPoolNodeFind s u h with
      | none => rfl
      | some n =>
          obtain ⟨task', -, ht', -, hmem', -, -⟩ := taskPoolNodeFind_some hfind
          obtain rfl := Option.some.inj (ht.symm.trans ht')
          exact absurd hmem' hmem
    simp only [hfind]
    exact ⟨task, ht, rfl, hmem⟩

theorem ioctlXsmemPoolUnregister_acts (hinv : XsmemInv A ext s) (ht : s.tasks u = some task)
    (hP : P.leave) (env : ℕ → ℕ → ε) (poolId : ℕ) :
    Acts A u P (ext, s) (ext, (ioctlXsmemPoolUnregister A env s u task poolId).2) := by
  unfold ioctlXsmemPoolUnregister
  split
  · exact .refl
  · next h hfind =>
      have hmem := List.mem_of_find?_eq_some hfind
      have hdetach : Acts A u P (ext, s) (ext, (xsmemPoolDetach A env s u h).2) :=
        xsmemPoolDetach_acts hinv hP env
      obtain ⟨task', ht', hreg, hleft⟩ := xsmemPoolDetach_task hinv ht env (h := h)
      exact hdetach.trans
        (xsmemTaskUnregisterPool_acts (hdetach.inv hinv) ht' (hreg ▸ hmem) hleft env)

theorem ioctlXsmemPoolDetach_acts (hinv : XsmemInv A ext s) (hP : P.leave) (env : ℕ → ℕ → ε)
    (poolId : ℕ) :
    Acts A u P (ext, s) (ext, (ioctlXsmemPoolDetach A env s u poolId).2) := by
  unfold ioctlXsmemPoolDetach
  split
  · exact .refl
  · next h s₁ hget =>
      have hact : Act A u P (ext, s) (h :: ext, s₁) := xsmemPoolGet_act hget
      have hdetach : Acts A u P (h :: ext, s₁)
          (h :: ext, (xsmemPoolDetach A env s₁ u h).2) :=
        xsmemPoolDetach_acts (hact.inv hinv) hP env
      exact acts_put (.head hact hdetach) hinv env

/-! ## Release -/

theorem detachRounds_acts (hinv : XsmemInv A ext s) (ht : s.tasks u = some task)
    (hP : P.leave) (env : ℕ → ℕ → ε) :
    let s' := task.nodeListHead.foldl (fun s h => xsmemPoolTaskDetach A env s u h) s
    Acts A u P (ext, s) (ext, s') ∧ ∃ task', s'.tasks u = some task' ∧
      task'.nodeListHead = [] ∧ task'.registerXpListHead = task.registerXpListHead := by
  generalize hl : task.nodeListHead = l
  induction l generalizing s task with
  | nil => exact ⟨.refl, task, ht, hl, rfl⟩
  | cons h l ih =>
      obtain ⟨xp, n, hxp, hn, hnu, -⟩ := taskPoolNodeFind_isSome hinv ht (h := h) (by simp [hl])
      have hacts : Acts A u P (ext, s) (ext, xsmemPoolTaskDetach A env s u h) :=
        xsmemPoolTaskDetach_acts hinv ht hxp hn hnu hP env
      obtain ⟨task₁, ht₁, hreg₁, hlist⟩ := xsmemPoolTaskDetach_task A env ht h
      have hlist₁ : task₁.nodeListHead = l := by
        rw [hlist (by simp [hxp]), hl, List.erase_cons_head]
      obtain ⟨hrest, task', ht', hnil, hreg⟩ := ih (hacts.inv hinv) ht₁ hlist₁
      exact ⟨hacts.trans hrest, task', ht', hnil, hreg.trans hreg₁⟩

theorem unregisterRounds_acts (hinv : XsmemInv A ext s) (ht : s.tasks u = some task)
    (hleft : task.nodeListHead = []) (env : ℕ → ℕ → ε) :
    let s' := task.registerXpListHead.foldl (fun s h => xsmemTaskUnregisterPool A env s u h) s
    Acts A u P (ext, s) (ext, s') ∧ ∃ task', s'.tasks u = some task' ∧
      task'.registerXpListHead = [] ∧ task'.nodeListHead = [] := by
  generalize hl : task.registerXpListHead = l
  induction l generalizing s task with
  | nil => exact ⟨.refl, task, ht, hl, hleft⟩
  | cons h l ih =>
      have hacts : Acts A u P (ext, s) (ext, xsmemTaskUnregisterPool A env s u h) :=
        xsmemTaskUnregisterPool_acts hinv ht (by simp [hl]) (by simp [hleft]) env
      have ht₁ : (xsmemTaskUnregisterPool A env s u h).tasks u =
          some (taskUnregistered task h) := by
        simp [xsmemTaskUnregisterPool, ht, XsmemState.setTask, taskUnregistered]
      have hlist₁ : (taskUnregistered task h).registerXpListHead = l := by
        simp [taskUnregistered, hl]
      obtain ⟨hrest, task', ht', hnil, hnode⟩ := ih (hacts.inv hinv) ht₁ hleft hlist₁
      exact ⟨hacts.trans hrest, task', ht', hnil, hnode⟩

/-- The acts leave the blocked attaches of a call without one alone. -/
theorem xsmemPoolPut_attaching (A : PoolAlgo σ ε) (env : ℕ → ℕ → ε) (s : XsmemState σ) (h : ℕ) :
    (xsmemPoolPut A env s h).attaching = s.attaching := by
  unfold xsmemPoolPut
  split
  · rfl
  · split <;> rfl

theorem detachRounds_attaching (A : PoolAlgo σ ε) (env : ℕ → ℕ → ε) (u : ℕ) (l : List ℕ)
    (s : XsmemState σ) :
    (l.foldl (fun s h => xsmemPoolTaskDetach A env s u h) s).attaching = s.attaching := by
  induction l generalizing s with
  | nil => rfl
  | cons h l ih =>
      rw [List.foldl_cons, ih]
      unfold xsmemPoolTaskDetach
      split
      · rw [xsmemPoolPut_attaching]
        rfl
      · rfl

theorem unregisterRounds_attaching (A : PoolAlgo σ ε) (env : ℕ → ℕ → ε) (u : ℕ) (l : List ℕ)
    (s : XsmemState σ) :
    (l.foldl (fun s h => xsmemTaskUnregisterPool A env s u h) s).attaching = s.attaching := by
  induction l generalizing s with
  | nil => rfl
  | cons h l ih =>
      rw [List.foldl_cons, ih]
      unfold xsmemTaskUnregisterPool
      split
      · rfl
      · rw [xsmemPoolPut_attaching]
        rfl

theorem xsmemRelease_acts (hinv : XsmemInv A ext s) (ht : s.tasks u = some task)
    (hwait : ∀ w ∈ s.attaching, w.uid ≠ u) (hP : P.leave) (env : ℕ → ℕ → ε) :
    Acts A u P (ext, s) (ext, xsmemRelease A env s u task) := by
  obtain ⟨hdetach, task₁, ht₁, hnodes₁, hregs₁⟩ := detachRounds_acts hinv ht hP env
  have hinv₁ := hdetach.inv hinv
  obtain ⟨hunreg, task₂, ht₂, hregs₂, hnodes₂⟩ := unregisterRounds_acts hinv₁ ht₁ hnodes₁ env
  rw [hregs₁] at hunreg ht₂
  refine (hdetach.trans hunreg).tail (.close ht₂ hnodes₂ hregs₂ ?_)
  rw [unregisterRounds_attaching, detachRounds_attaching]
  exact hwait

/-! ## Adding and attaching -/

theorem ioctlXsmemPoolTaskCommon_acts (hinv : XsmemInv A ext s) (env : ℕ → ℕ → ε) (poolId : ℕ)
    (vpid : Except Errno ℕ) {op : XsmPool σ → ℕ → Except Errno Unit × XsmPool σ}
    (hop : ∀ xp pid, ∃ l, (op xp pid).2 = { xp with addingTaskListHead := l }) :
    Acts A u P (ext, s) (ext, (ioctlXsmemPoolTaskCommon A env s u task poolId vpid op).2) := by
  unfold ioctlXsmemPoolTaskCommon
  split
  · exact .refl
  · next h s₁ hget =>
      have hact : Act A u P (ext, s) (h :: ext, s₁) := xsmemPoolGet_act hget
      obtain ⟨xp, hxp, hs₁⟩ := xsmemPoolGet_some hget
      have hxp₁ : s₁.pools h = some { xp with refcnt := xp.refcnt + 1 } := by
        rw [hs₁, XsmemState.setPool_pools]
      simp only [hxp₁]
      by_cases hadmin : xsmemIsTaskHasAdmin s₁ u task h { xp with refcnt := xp.refcnt + 1 } = false
      · rw [if_pos hadmin]
        exact acts_put (.single hact) hinv env
      · rw [if_neg hadmin]
        cases vpid with
        | error e => exact acts_put (.single hact) hinv env
        | ok pid =>
            obtain ⟨l, hl⟩ := hop { xp with refcnt := xp.refcnt + 1 } pid
            have hadding : Act A u P (h :: ext, s₁)
                (h :: ext, s₁.setPool h (op { xp with refcnt := xp.refcnt + 1 } pid).2) := by
              rw [hl]
              exact .adding hxp₁ l
            exact acts_put (.tail (.single hact) hadding) hinv env

theorem xsmemPoolTaskAdd_eq (kmalloc : Bool) (xp : XsmPool σ) (pid : ℕ) (attr : GroupShareAttr) :
    ∃ l, (xsmemPoolTaskAdd kmalloc xp pid attr).2 = { xp with addingTaskListHead := l } := by
  unfold xsmemPoolTaskAdd
  split
  · exact ⟨xp.addingTaskListHead, rfl⟩
  · split
    · exact ⟨xp.addingTaskListHead, rfl⟩
    · split
      · exact ⟨xp.addingTaskListHead, rfl⟩
      · exact ⟨_, rfl⟩

/-- The tests of an attach that found its task pass. -/
structure AttachPasses (h : ℕ) (task : XsmTask) (createPid : ℕ) (permAdd : Except Errno Unit)
    (kmalloc : Bool) : Prop where
  perm : permAdd = .ok ()
  limit : createPid ≠ task.pid → task.poolNum + 1 ≤ MAX_XP_NUM_OF_TASK
  new : h ∉ task.nodeListHead
  node : kmalloc = true

theorem xsmemPoolAttachFound_acts (hxp : s.pools h = some xp) (ht : s.tasks u = some task)
    (addingTask : AddingTask) {permAdd : Except Errno Unit} {kmalloc : Bool}
    (hP : AttachPasses h task xp.createPid permAdd kmalloc → P.join task h xp.createPid) :
    Acts A u P (ext, s)
      (ext, (xsmemPoolAttachFound s u h task xp addingTask permAdd kmalloc).2) := by
  have hadding : Act A u P (ext, s)
      (ext, s.setPool h (xsmemPoolAddingTaskDel xp addingTask)) := .adding hxp _
  unfold xsmemPoolAttachFound
  cases permAdd with
  | error e => exact .single hadding
  | ok _ =>
      dsimp only
      by_cases hlimit : (xsmemPoolAddingTaskDel xp addingTask).createPid ≠ task.pid ∧
          MAX_XP_NUM_OF_TASK < task.poolNum + 1
      · rw [if_pos hlimit]
        exact .single hadding
      · rw [if_neg hlimit]
        by_cases hnew : h ∈ task.nodeListHead
        · rw [if_pos hnew]
          exact .single hadding
        · rw [if_neg hnew]
          cases kmalloc with
          | false => exact .single hadding
          | true =>
              have hlimit' : (xsmemPoolAddingTaskDel xp addingTask).createPid ≠ task.pid →
                  task.poolNum + 1 ≤ MAX_XP_NUM_OF_TASK := by
                intro hpid
                by_contra hover
                exact hlimit ⟨hpid, not_le.mp hover⟩
              have hxp₁ : (s.setPool h (xsmemPoolAddingTaskDel xp addingTask)).pools h =
                  some (xsmemPoolAddingTaskDel xp addingTask) := Function.update_self ..
              have ht₁ : (s.setPool h (xsmemPoolAddingTaskDel xp addingTask)).tasks u =
                  some task := ht
              have hjoin : Act A u P
                  (ext, s.setPool h (xsmemPoolAddingTaskDel xp addingTask)) _ :=
                .join hxp₁ ht₁ hnew hlimit' (hP ⟨rfl, hlimit', hnew, rfl⟩) addingTask.attr
              have hstate : ∀ xp', (s.setPool h (xsmemPoolAddingTaskDel xp addingTask)).setPool h
                  xp' = s.setPool h xp' := by
                intro xp'
                simp [XsmemState.setPool, Function.update_idem]
              rw [hstate] at hjoin
              exact .tail (.single hadding) hjoin

/-- The attach of the task `uid` by the process `tgid` finds its task at the
pool and passes. -/
def AttachJoins (s : XsmemState σ) (uid tgid : ℕ) (permAdd : Except Errno Unit) (kmalloc : Bool)
    (task : XsmTask) (h createPid : ℕ) : Prop :=
  ∃ xp, s.tasks uid = some task ∧ s.pools h = some xp ∧ xp.createPid = createPid ∧
    (xsmemPoolAddingTaskFind xp tgid).isSome ∧ AttachPasses h task createPid permAdd kmalloc

theorem ioctlXsmemPoolAttach_acts (hinv : XsmemInv A ext s) (ht : s.tasks u = some task)
    (env : ℕ → ℕ → ε) {tgid poolId : ℕ} (timeout : ℕ) {permAdd : Except Errno Unit} {kmalloc : Bool}
    (hP : ∀ h createPid, s.xsmemIdr poolId = some h →
      AttachJoins s u tgid permAdd kmalloc task h createPid → P.join task h createPid) :
    Acts A u P (ext, s)
      (ext, (ioctlXsmemPoolAttach A env s u tgid task poolId timeout permAdd kmalloc).2) := by
  unfold ioctlXsmemPoolAttach
  split
  · exact .refl
  · next h s₁ hget =>
      have hact : Act A u P (ext, s) (h :: ext, s₁) := xsmemPoolGet_act hget
      have ht₁ : s₁.tasks u = some task := by rw [xsmemPoolGet_tasks hget, ht]
      obtain ⟨xp, hxp, hs₁⟩ := xsmemPoolGet_some hget
      have hxp₁ : s₁.pools h = some { xp with refcnt := xp.refcnt + 1 } := by
        rw [hs₁, XsmemState.setPool_pools]
      split
      · exact acts_put (.single hact) hinv env
      · simp only [hxp₁]
        split
        · next addingTask hfind =>
            have hfound : Acts A u P (h :: ext, s₁) (h :: ext, (xsmemPoolAttachFound s₁ u h
                task { xp with refcnt := xp.refcnt + 1 } addingTask permAdd kmalloc).2) :=
              xsmemPoolAttachFound_acts hxp₁ ht₁ addingTask fun hpass =>
                hP h xp.createPid (xsmemPoolGet_id hget)
                  ⟨xp, ht, hxp, rfl, Option.isSome_of_eq_some hfind, hpass⟩
            exact acts_put (.head hact hfound) hinv env
        · split
          · exact acts_put (.single hact) hinv env
          · have hblock : Act A u P (h :: ext, s₁)
                (ext, { s₁ with attaching := ⟨u, h, tgid⟩ :: s₁.attaching }) :=
              .block (w := ⟨u, h, tgid⟩) ht₁
            exact .tail (.single hact) hblock

theorem attachWake_acts (hinv : XsmemInv A ext s) {w : AttachWait} (hw : w ∈ s.attaching)
    {permAdd : Except Errno Unit} {kmalloc : Bool} {env : ℕ → ℕ → ε}
    (hwake : attachWake A env s w permAdd kmalloc = some s')
    (hP : ∀ task createPid, AttachJoins s w.uid w.tgid permAdd kmalloc task w.xp createPid →
      P.join task w.xp createPid) :
    Acts A w.uid P (ext, s) (ext, s') := by
  have hact : Act A w.uid P (ext, s)
      (w.xp :: ext, { s with attaching := s.attaching.erase w }) := .unblock hw
  unfold attachWake at hwake
  split at hwake
  · next task xp ht hxp =>
      obtain ⟨addingTask, hfind, rfl⟩ := Option.map_eq_some_iff.mp hwake
      have hfound : Acts A w.uid P (w.xp :: ext, { s with attaching := s.attaching.erase w })
          (w.xp :: ext, (xsmemPoolAttachFound { s with attaching := s.attaching.erase w } w.uid w.xp
            task xp addingTask permAdd kmalloc).2) :=
        xsmemPoolAttachFound_acts (s := { s with attaching := s.attaching.erase w }) hxp ht
          addingTask fun hpass => hP task xp.createPid
            ⟨xp, ht, hxp, rfl, Option.isSome_of_eq_some hfind, hpass⟩
      exact acts_put (.head hact hfound) hinv env
  · simp at hwake

theorem attachGiveUp_acts (hinv : XsmemInv A ext s) {w : AttachWait} (hw : w ∈ s.attaching)
    (env : ℕ → ℕ → ε) : Acts A w.uid P (ext, s) (ext, attachGiveUp A env s w) :=
  acts_put (.single (.unblock hw)) hinv env

/-! ## Blocks -/

/-- The operation sees the pool with the reference that the call holds. -/
theorem ioctlXsmemBlockCommon_once {α : Type} (hinv : XsmemInv A ext s)
    (ht : s.tasks u = some task) (env : ℕ → ℕ → ε) {poolId : ℕ}
    {op : ℕ → PoolView σ → TaskPoolNode → Except Errno α × PoolView σ}
    (hop : ∀ {h xp n v}, s.xsmemIdr poolId = some h → s.pools h = some xp →
      v = s.view { xp with refcnt := xp.refcnt + 1 } → PoolInv A v → n ∈ xp.nodeListHead →
      n.task = u → n.pid = task.pid →
      Idle A v (op h v n).2 ∨ ∃ ev n', P.event n ev ∧ Effect A false v (op h v n).2 n n' ev) :
    ActsOnce A u P (ext, s) (ext, (ioctlXsmemBlockCommon A env s u poolId op).2) := by
  unfold ioctlXsmemBlockCommon
  split
  · exact .of_quiet .refl
  · next h s₁ hget =>
      have hact : Act A u P.quiet (ext, s) (h :: ext, s₁) := xsmemPoolGet_act hget
      have hinv₁ := hact.inv hinv
      obtain ⟨xp, hxp, hs₁⟩ := xsmemPoolGet_some hget
      split
      · next xp₁ node hxp₁ hfind =>
          obtain ⟨task', xp', -, hxp', -, hn, hu⟩ := taskPoolNodeFind_some hfind
          obtain rfl := Option.some.inj (hxp₁.symm.trans hxp')
          have hpool : PoolInv A (s₁.view xp₁) := hinv₁.blocks.pool_inv hxp₁
          have hview : xp₁ = { xp with refcnt := xp.refcnt + 1 } := by
            rw [hs₁, XsmemState.setPool_pools] at hxp₁
            exact (Option.some.inj hxp₁).symm
          have hn₀ : node ∈ xp.nodeListHead := by
            rw [hview] at hn
            exact hn
          have hpid : node.pid = task.pid := by
            obtain ⟨t, ht', htpid⟩ := hinv₁.refs.member_task (facesOf_eq hxp₁) _
              (List.mem_map_of_mem hn)
            rw [hu, xsmemPoolGet_tasks hget] at ht'
            obtain rfl := Option.some.inj (ht.symm.trans ht')
            exact htpid.symm
          have hop' : Act A u P (h :: ext, s₁)
              (h :: ext, s₁.setView h (op h (s₁.view xp₁) node).2) := by
            have hv : s₁.view xp₁ = s.view { xp with refcnt := xp.refcnt + 1 } := by
              rw [hview, hs₁]
              rfl
            rcases hop (xsmemPoolGet_id hget) hxp hv hpool hn₀ hu hpid with
              hidle | ⟨ev, n', hP, heff⟩
            · exact .idle hxp₁ hidle
            · exact .event hxp₁ hn hu heff hP
          exact ⟨_, _, .single hact, .inr hop', xsmemPoolPut_acts (hop'.inv hinv₁) env⟩
      · exact .of_quiet (acts_put (.single hact) hinv env)

/-- The loop of a get stops at a block that its task allocated and does not
hold. -/
def GetsAnew (s : XsmemState σ) (uid offset : ℕ) (kmalloc : Bool) : List ℕ → Prop
  | [] => False
  | h :: hs =>
      match s.pools h, taskPoolNodeFind s uid h with
      | some xp, some node =>
          match xsmemFindBlock xp offset with
          | none => GetsAnew s uid offset kmalloc hs
          | some blk =>
              match xsmemFindTaskBlockNode uid blk with
              | none =>
                  if kmalloc = true then blk.pid = node.pid
                  else GetsAnew s uid offset kmalloc hs
              | some taskBlkNode =>
                  TASK_BLK_MAX_GET_NUM ≤ taskBlkNode.refcnt ∧ GetsAnew s uid offset kmalloc hs
      | _, _ => GetsAnew s uid offset kmalloc hs

/-- A get counts the hold of its task up, from none only on a block for which
`anew` holds. -/
def Gets (anew : Prop) (n : TaskPoolNode) (ev : BlockEvent) : Prop :=
  ∃ b b' t t', ev = .rehold b b' t (some t') ∧ (t = none → b.pid = n.pid → anew)

theorem xsmemPoolBlockGet_once (hinv : XsmemInv A ext s) {n : TaskPoolNode}
    (hxp : s.pools h = some xp) (hn : n ∈ xp.nodeListHead) (hu : n.task = u) {kmalloc : Bool}
    {offset : ℕ} {r : Except Errno (ℕ × ℕ × ℕ)} {xp' : XsmPool σ}
    (hget : xsmemPoolBlockGet kmalloc xp n offset = (r, xp')) {anew : Prop}
    (hanew : ∀ b, xsmemFindBlock xp offset = some b → xsmemFindTaskBlockNode u b = none →
      b.pid = n.pid → anew) (hP : ∀ n ev, Gets anew n ev → P.event n ev) :
    ActsOnce A u P (ext, s) (ext, s.setPool h xp') := by
  have hpool : PoolInv A (s.view xp) := hinv.blocks.pool_inv hxp
  have hstate : ∀ {n' ev}, Effect A false (s.view xp) { s.view xp with xp := xp' } n n' ev →
      s.setPool h xp' = s.setView h { s.view xp with xp := xp' } := by
    intro n' ev e
    have hns : xp'.mntNs = xp.mntNs := e.sameTasks.mntNs
    rw [XsmemState.setPool_eq_setView, XsmemState.view, hns]
    rfl
  rcases xsmemPoolBlockGet_effect hpool hn hget with hsame | ⟨b, hb, ⟨t, ht, e⟩ | ⟨hnone, e⟩⟩
  · have hself : s.setPool h xp' = s := by
      rw [XsmemState.setPool, hsame, XsmemState.view, ← hxp, Function.update_eq_self]
    rw [hself]
    exact .of_quiet .refl
  · rw [hstate e]
    exact .single (.event hxp hn hu e (hP n _ ⟨b, _, some t, _, rfl, by simp⟩))
  · rw [hstate e]
    have hgets : Gets anew n (.rehold b (blockGot b n.task) none (some ⟨n.task, 1⟩)) :=
      ⟨b, _, none, _, rfl, fun _ => hanew b hb (hu ▸ hnone)⟩
    exact .single (.event hxp hn hu e (hP n _ hgets))

theorem ioctlXsmemBlockGet_once (hinv : XsmemInv A ext s) (offset : ℕ) (kmalloc : Bool)
    (hs : List ℕ) {anew : Prop} (hanew : GetsAnew s u offset kmalloc hs → anew)
    (hP : ∀ n ev, Gets anew n ev → P.event n ev) :
    ActsOnce A u P (ext, s) (ext, (ioctlXsmemBlockGet s u offset kmalloc hs).2) := by
  induction hs with
  | nil => exact .of_quiet .refl
  | cons h hs ih =>
      unfold ioctlXsmemBlockGet
      unfold GetsAnew at hanew
      cases hxp : s.pools h with
      | none =>
          simp only [hxp] at hanew ⊢
          exact ih hanew
      | some xp =>
          cases hfind : taskPoolNodeFind s u h with
          | none =>
              simp only [hxp, hfind] at hanew ⊢
              exact ih hanew
          | some node =>
              obtain ⟨task', xp', -, hxp', -, hn, hu⟩ := taskPoolNodeFind_some hfind
              obtain rfl := Option.some.inj (hxp.symm.trans hxp')
              simp only [hxp, hfind] at hanew ⊢
              cases hget : xsmemPoolBlockGet kmalloc xp node offset with
              | mk r xp' =>
                  have hacts := fun hanew =>
                    xsmemPoolBlockGet_once hinv hxp hn hu hget (P := P) hanew hP
                  subst hu
                  unfold xsmemPoolBlockGet at hget
                  cases hb : xsmemFindBlock xp offset with
                  | none =>
                      simp only [hb, Prod.mk.injEq] at hanew hget ⊢
                      obtain ⟨rfl, rfl⟩ := hget
                      exact ih hanew
                  | some b =>
                      cases ht : xsmemFindTaskBlockNode node.task b with
                      | none =>
                          cases kmalloc with
                          | false =>
                              simp [hb, ht] at hanew hget
                              obtain ⟨rfl, rfl⟩ := hget
                              exact ih hanew
                          | true =>
                              simp [hb, ht] at hanew hget hacts
                              obtain ⟨rfl, rfl⟩ := hget
                              exact hacts hanew
                      | some t =>
                          by_cases hmax : TASK_BLK_MAX_GET_NUM ≤ t.refcnt
                          · simp [hb, ht, hmax] at hanew hget
                            obtain ⟨rfl, rfl⟩ := hget
                            exact ih hanew
                          · simp [hb, ht, hmax] at hget hacts
                            obtain ⟨rfl, rfl⟩ := hget
                            exact hacts

/-! ## Register and open -/

theorem idrAlloc_none {idr : ℕ → Option ℕ} {start stop id : ℕ}
    (halloc : idrAlloc idr start stop = some id) : idr id = none := by
  have hfind := List.find?_some halloc
  simpa using hfind

theorem xsmemIdrAllocId_none {id : ℕ} (halloc : xsmemIdrAllocId s = some id) :
    s.xsmemIdr id = none := by
  unfold xsmemIdrAllocId at halloc
  split at halloc
  · next id' hnext =>
      obtain rfl := Option.some.inj halloc
      exact idrAlloc_none hnext
  · split at halloc
    · exact idrAlloc_none halloc
    · simp at halloc

/-- The pool is made and its first reference taken. -/
theorem xsmemPoolRegister_cases (A : PoolAlgo σ ε) (s : XsmemState σ) (tgid ns : ℕ)
    (key : String) (poolSize : ℕ) (kzalloc : Bool) :
    (∃ e, xsmemPoolRegister A s tgid ns key poolSize kzalloc = (.error e, s)) ∨
      ∃ id priv, s.xsmemIdr id = none ∧ xsmemPoolHnodeFind s key = none ∧
        A.xsmPoolInit poolSize = some priv ∧
        xsmemPoolRegister A s tgid ns key poolSize kzalloc =
          (.ok s.nextXp, registerPool s (poolRegistered id priv tgid ns key)) := by
  unfold xsmemPoolRegister
  cases hfind : xsmemPoolHnodeFind s key with
  | some k => exact .inl ⟨_, rfl⟩
  | none =>
      cases kzalloc with
      | false => exact .inl ⟨.ENOMEM, by simp [xsmemPoolCreate]⟩
      | true =>
          cases hinit : A.xsmPoolInit poolSize with
          | none => exact .inl ⟨.EINVAL, by simp [xsmemPoolCreate, hinit]⟩
          | some priv =>
              cases hid : xsmemIdrAllocId s with
              | none => exact .inl ⟨.ENOSPC, by simp [xsmemPoolCreate, hinit, hid]⟩
              | some id =>
                  refine .inr ⟨id, priv, xsmemIdrAllocId_none hid, rfl, rfl, ?_⟩
                  simp [xsmemPoolCreate, hinit, hid, registerPool, XsmemState.setPool,
                    poolRegistered]

theorem ioctlXsmemPoolRegister_acts (ht : s.tasks u = some task) (tgid ns : ℕ) (key : String)
    {poolSize : ℕ} (hsize : poolSize < 2 ^ 64) (kzalloc : Bool) :
    Acts A u P (ext, s)
      (ext, (ioctlXsmemPoolRegister A s u task tgid ns key poolSize kzalloc).2) := by
  unfold ioctlXsmemPoolRegister
  by_cases hlimit : MAX_XP_NUM_OF_TASK < task.poolNum + 1
  · rw [if_pos hlimit]
  · rw [if_neg hlimit]
    rcases xsmemPoolRegister_cases A s tgid ns (xsmemStrcatWithNs key ns) poolSize kzalloc with
      ⟨e, hreg⟩ | ⟨id, priv, hid, hkey, hinit, hreg⟩
    · rw [hreg]
    · rw [hreg]
      exact .single (.register ht (not_lt.mp hlimit) hid tgid ns _ hkey hsize hinit)

theorem xsmemOpen_acts (tgid : ℕ) (kmalloc : Bool) :
    Acts A u P (ext, s) (ext, (xsmemOpen s tgid kmalloc).2) := by
  unfold xsmemOpen
  cases hfind : xsmTaskFind s tgid with
  | some k => exact .refl
  | none =>
      cases kmalloc with
      | false => exact .refl
      | true => exact .single (.open tgid hfind)

/-! ## The steps -/

/-- The task whose call or whose blocked attach goes on. -/
def XsmemOp.uid : XsmemOp ε → ℕ
  | .open _ _ => 0
  | .call uid _ _ => uid
  | .attachWake w _ _ _ => w.uid
  | .attachGiveUp w _ => w.uid
  | .taskExit _ => 0

/-- The step is a get that stops at a block that its task allocated and does
not hold. -/
def XsmemOp.GetsAnew (s : XsmemState σ) : XsmemOp ε → Prop
  | .call uid (.blockGet offset kmalloc) _ =>
      ∃ task, s.tasks uid = some task ∧ Xsmem.GetsAnew s uid offset kmalloc task.nodeListHead
  | _ => False

/-- The step attaches the task to the pool at `h`. -/
def XsmemOp.Joins (s : XsmemState σ) (task : XsmTask) (h createPid : ℕ) : XsmemOp ε → Prop
  | .call uid (.attach tgid poolId _ permAdd kmalloc) _ =>
      s.xsmemIdr poolId = some h ∧ AttachJoins s uid tgid permAdd kmalloc task h createPid
  | .attachWake w permAdd kmalloc _ =>
      h = w.xp ∧ AttachJoins s w.uid w.tgid permAdd kmalloc task h createPid
  | _ => False

/-- The step takes its task out of pools. -/
def XsmemOp.leaves : XsmemOp ε → Bool
  | .call _ (.unregister _) _ => true
  | .call _ (.detach _) _ => true
  | .call _ .release _ => true
  | _ => false

/-- The step allocates a block for another process than that of its task. -/
def XsmemOp.AllocatesForeign (A : PoolAlgo σ ε) (s : XsmemState σ) : XsmemOp ε → Prop
  | .call uid (.blockAlloc tgid poolId size flag kmalloc e) _ =>
      ∃ h xp n, s.xsmemIdr poolId = some h ∧ s.pools h = some xp ∧ n ∈ xp.nodeListHead ∧
        n.task = uid ∧ tgid ≠ n.pid ∧ AllocPasses A e kmalloc (s.view xp) n size flag
  | _ => False

/-- What a step may do. -/
def XsmemOp.allowed (A : PoolAlgo σ ε) (s : XsmemState σ) (op : XsmemOp ε) : Allow where
  event n ev :=
    match op with
    | .call _ (.blockAlloc _ _ _ _ _ _) _ =>
        ∃ b, ev = .alloc b ∧ (b.pid ≠ n.pid → op.AllocatesForeign A s)
    | .call _ (.blockFree _ _) _ => ev.Held
    | .call _ (.blockGet _ _) _ => Gets (op.GetsAnew s) n ev
    | _ => False
  leave := op.leaves = true
  join task h createPid := op.Joins s task h createPid

/-- A step that leaves no pool changes one block at most. -/
theorem xsmemStep_once (hinv : XsmemInv A ext s) {op : XsmemOp ε} (hstay : op.leaves = false)
    (hstep : xsmemStep A s op = some s') :
    ActsOnce A op.uid (op.allowed A s) (ext, s) (ext, s') := by
  cases op with
  | «open» tgid kmalloc =>
      obtain rfl := Option.some.inj hstep
      exact .of_quiet (xsmemOpen_acts tgid kmalloc)
  | attachWake w permAdd kmalloc env =>
      simp only [xsmemStep] at hstep
      split at hstep
      · next hw => exact .of_quiet (attachWake_acts hinv hw hstep fun _ _ hjoin => ⟨rfl, hjoin⟩)
      · simp at hstep
  | attachGiveUp w env =>
      simp only [xsmemStep] at hstep
      split at hstep
      · next hw =>
          obtain rfl := Option.some.inj hstep
          exact .of_quiet (attachGiveUp_acts hinv hw env)
      · simp at hstep
  | taskExit pid =>
      obtain rfl := Option.some.inj hstep
      exact .single (.exitNotify pid)
  | call uid call env =>
      obtain ⟨task, ht, hcall⟩ := Option.bind_eq_some_iff.mp hstep
      cases call with
      | register tgid ns key poolSize kzalloc =>
          simp only [xsmemCall] at hcall
          split at hcall
          · next hsize =>
              obtain rfl := Option.some.inj hcall
              exact .of_quiet (ioctlXsmemPoolRegister_acts ht tgid ns key hsize kzalloc)
          · simp at hcall
      | taskAdd poolId vpid attr kmalloc =>
          obtain rfl := Option.some.inj hcall
          exact .of_quiet (ioctlXsmemPoolTaskCommon_acts hinv env poolId vpid
            fun xp pid => xsmemPoolTaskAdd_eq kmalloc xp pid attr)
      | taskDel poolId vpid =>
          obtain rfl := Option.some.inj hcall
          exact .of_quiet
            (ioctlXsmemPoolTaskCommon_acts hinv env poolId vpid xsmemPoolTaskDel_eq)
      | attach tgid poolId timeout permAdd kmalloc =>
          obtain rfl := Option.some.inj hcall
          exact .of_quiet
            (ioctlXsmemPoolAttach_acts hinv ht env timeout fun h _ hid hjoin => ⟨hid, hjoin⟩)
      | blockAlloc tgid poolId size flag kmalloc e =>
          obtain rfl := Option.some.inj hcall
          refine ioctlXsmemBlockCommon_once hinv ht env fun hid hxp hview hv hn hu _ => ?_
          subst hview
          refine (ioctlXsmemBlockAlloc_effect hv hn rfl).imp_right ?_
          rintro ⟨b, n', hpid, hpass, heff⟩
          refine ⟨.alloc b, n', ⟨b, rfl, fun hne => ?_⟩, heff⟩
          exact ⟨_, _, _, hid, hxp, hn, hu, hpid ▸ hne,
            ⟨hpass.attr, hpass.memory, hpass.id, hpass.room⟩⟩
      | blockFree poolId offset =>
          obtain rfl := Option.some.inj hcall
          refine ioctlXsmemBlockCommon_once hinv ht env fun {h xp n v} _ _ hview hv hn _ _ => ?_
          subst hview
          cases hfree : ioctlXsmemBlockFree A (env h offset)
              (s.view { xp with refcnt := xp.refcnt + 1 }) n offset with
          | mk r v' =>
              rcases ioctlXsmemBlockFree_effect hv hn hfree with rfl | ⟨ev, n', hheld, heff⟩
              · exact .inl hv.idle
              · exact .inr ⟨ev, n', hheld, heff⟩
      | blockGet offset kmalloc =>
          obtain rfl := Option.some.inj hcall
          exact ioctlXsmemBlockGet_once hinv offset kmalloc task.nodeListHead
            (fun hanew => ⟨task, ht, hanew⟩) fun _ _ hgets => hgets
      | unregister poolId => simp [XsmemOp.leaves] at hstay
      | detach poolId => simp [XsmemOp.leaves] at hstay
      | release => simp [XsmemOp.leaves] at hstay

theorem xsmemStep_acts (hinv : XsmemInv A ext s) {op : XsmemOp ε}
    (hstep : xsmemStep A s op = some s') :
    Acts A op.uid (op.allowed A s) (ext, s) (ext, s') := by
  by_cases hstay : op.leaves = false
  · exact (xsmemStep_once hinv hstay hstep).acts
  · cases op with
    | call uid call env =>
        obtain ⟨task, ht, hcall⟩ := Option.bind_eq_some_iff.mp hstep
        cases call with
        | unregister poolId =>
            obtain rfl := Option.some.inj hcall
            exact ioctlXsmemPoolUnregister_acts hinv ht rfl env poolId
        | detach poolId =>
            obtain rfl := Option.some.inj hcall
            exact ioctlXsmemPoolDetach_acts hinv rfl env poolId
        | release =>
            simp only [xsmemCall] at hcall
            split at hcall
            · next hwait =>
                obtain rfl := Option.some.inj hcall
                exact xsmemRelease_acts hinv ht hwait rfl env
            · simp at hcall
        | _ => simp [XsmemOp.leaves] at hstay
    | _ => simp [XsmemOp.leaves] at hstay

/-! ## Runs -/

theorem xsmemInit_inv : XsmemInv A [] (xsmemInit (σ := σ)) := by
  refine ⟨?_, ?_, ?_, ?_⟩ <;> constructor <;>
    simp [xsmemInit, facesOf]

/-- The invariant holds between the steps of every run. -/
theorem xsmem_inv (hs : (xsmemMachine A).Reach s) : XsmemInv A [] s := by
  refine hs.invariant ?_ ?_
  · rintro s rfl
    exact xsmemInit_inv
  · intro s op t hs _ hstep
    exact (xsmemStep_acts hs hstep).inv hs

end OpiaiKernel.Xsmem
