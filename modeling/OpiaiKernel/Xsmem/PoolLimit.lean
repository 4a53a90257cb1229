import Mathlib.Data.Finset.Card
import OpiaiKernel.Xsmem.PoolLifetime

/-!
# The number of pools of a task

The counter `pool_num` counts the pools that a task has registered and those
that it is attached to and that another process created.  This is the number of
its pools as long as a task is attached to a pool of its own process only while
it has that pool registered.
-/

namespace OpiaiKernel.Xsmem

variable {σ ε : Type} {A : PoolAlgo σ ε} {ext ext' : List ℕ} {s s' : XsmemState σ} {h u : ℕ}
  {P : Allow}

def XsmemState.creator (s : XsmemState σ) (h : ℕ) : Option ℕ := (s.pools h).map XsmPool.createPid

/-! ## Properties of the tasks -/

/-- A property of a task and the creators of the pools that it is attached to,
which every act keeps. -/
structure TaskRule (P : Allow) (Q : (ℕ → Option ℕ) → XsmTask → Prop) : Prop where
  congr : ∀ {c c' t}, (∀ h ∈ t.nodeListHead, c' h = c h) → Q c t → Q c' t
  leave : ∀ {c t h createPid}, c h = some createPid → h ∈ t.nodeListHead →
    t.nodeListHead.Nodup → Q c t → Q c (taskDetached t h createPid)
  unregister : ∀ {c t h}, h ∈ t.registerXpListHead → t.registerXpListHead.Nodup →
    h ∉ t.nodeListHead → Q c t → Q c (taskUnregistered t h)
  join : ∀ {c t h createPid}, c h = some createPid → h ∉ t.nodeListHead →
    (createPid ≠ t.pid → t.poolNum + 1 ≤ MAX_XP_NUM_OF_TASK) → P.join t h createPid →
    Q c t → Q c (taskAttached t h createPid)
  register : ∀ {c t h}, h ∉ t.nodeListHead → h ∉ t.registerXpListHead →
    t.poolNum + 1 ≤ MAX_XP_NUM_OF_TASK → Q c t → Q c (taskRegistered t h)
  «open» : ∀ c tgid, Q c (taskOpened tgid)

/-- The pools are written, and the creators of the attached ones stay. -/
theorem TaskRule.pools {Q : (ℕ → Option ℕ) → XsmTask → Prop} (rule : TaskRule P Q)
    (hQ : ∀ u t, s.tasks u = some t → Q s.creator t) (htasks : s'.tasks = s.tasks)
    (hsame : ∀ u t, s.tasks u = some t → ∀ h ∈ t.nodeListHead, s'.creator h = s.creator h) :
    ∀ u t, s'.tasks u = some t → Q s'.creator t := by
  intro u t ht
  rw [htasks] at ht
  exact rule.congr (hsame u t ht) (hQ u t ht)

/-- The task `u` is written. -/
theorem TaskRule.write {Q : (ℕ → Option ℕ) → XsmTask → Prop} {c : ℕ → Option ℕ}
    {tasks : ℕ → Option XsmTask} {t' : XsmTask} (hQ : ∀ u t, tasks u = some t → Q c t)
    (hnew : Q c t') : ∀ v t, Function.update tasks u (some t') v = some t → Q c t := by
  intro v t ht
  by_cases hv : v = u
  · subst hv
    rw [Function.update_self, Option.some.injEq] at ht
    exact ht ▸ hnew
  · rw [Function.update_of_ne hv] at ht
    exact hQ v t ht

theorem creator_setPool {xp : XsmPool σ} (hxp : s.pools h = some xp) (xp' : XsmPool σ)
    (hpid : xp'.createPid = xp.createPid) (k : ℕ) : (s.setPool h xp').creator k = s.creator k := by
  by_cases hk : k = h
  · subst hk
    simp [XsmemState.creator, XsmemState.setPool, hxp, hpid]
  · simp [XsmemState.creator, XsmemState.setPool, hk]

theorem creator_setView {xp : XsmPool σ} (hxp : s.pools h = some xp) (v : PoolView σ)
    (hpid : v.xp.createPid = xp.createPid) (k : ℕ) : (s.setView h v).creator k = s.creator k :=
  creator_setPool hxp v.xp hpid k

theorem SameTasks.createPid {xp xp' : XsmPool σ} (hs : SameTasks xp xp') :
    xp'.createPid = xp.createPid :=
  congrArg PoolFace.createPid hs.face

theorem Act.forall_task {Q : (ℕ → Option ℕ) → XsmTask → Prop} (rule : TaskRule P Q)
    (hinv : XsmemInv A ext s) (act : Act A u P (ext, s) (ext', s'))
    (hQ : ∀ u t, s.tasks u = some t → Q s.creator t) :
    ∀ u t, s'.tasks u = some t → Q s'.creator t := by
  have hrefs := hinv.refs
  have hlive : ∀ u t, s.tasks u = some t → ∀ h ∈ t.nodeListHead, ∃ xp, s.pools h = some xp := by
    intro u t ht h hmem
    obtain ⟨f, hf, -⟩ := (hrefs.node_iff ht h).mp hmem
    obtain ⟨xp, hxp, -⟩ := exists_of_facesOf hf
    exact ⟨xp, hxp⟩
  cases act with
  | get hxp => exact rule.pools hQ rfl fun _ _ _ k _ => creator_setPool hxp _ (by rfl) k
  | put hxp => exact rule.pools hQ rfl fun _ _ _ k _ => creator_setPool hxp _ (by rfl) k
  | @delete _ _ h xp hxp hlast env =>
      refine rule.pools hQ rfl fun v t ht k hk => ?_
      have hkh : k ≠ h := by
        rintro rfl
        obtain ⟨f, hf, hv⟩ := (hrefs.node_iff ht k).mp hk
        obtain rfl := Option.some.inj ((facesOf_eq hxp).symm.trans hf)
        have hnone := (hrefs.delete hf hlast).2.1
        simp [PoolFace.uids, hnone] at hv
      simp [XsmemState.creator, xsmemPoolDelete, hkh]
  | @idle _ _ _ _ v hxp e =>
      exact rule.pools hQ rfl fun _ _ _ k _ => creator_setView hxp v e.sameTasks.createPid k
  | @event _ _ _ _ _ _ v _ hxp hn hu e hP =>
      exact rule.pools hQ rfl fun _ _ _ k _ => creator_setView hxp v e.sameTasks.createPid k
  | @leave _ _ h xp v n n' task hxp ht hn hu hleaves hempty hP =>
      have hpools : ∀ w t, (s.setView h { v with xp := poolNodeDel v.xp u }).tasks w = some t →
          Q (s.setView h { v with xp := poolNodeDel v.xp u }).creator t :=
        rule.pools hQ rfl fun _ _ _ k _ => creator_setView hxp _ (by exact hleaves.sameTasks.createPid) k
      have hmem : h ∈ task.nodeListHead :=
        (hrefs.node_iff ht h).mpr ⟨_, facesOf_eq hxp, hu ▸
          List.mem_map_of_mem (List.mem_map_of_mem hn)⟩
      have hcreator : (s.setView h { v with xp := poolNodeDel v.xp u }).creator h =
          some xp.createPid := by
        have hpid : v.xp.createPid = xp.createPid := hleaves.sameTasks.createPid
        simpa [XsmemState.creator, XsmemState.setView, poolNodeDel] using hpid
      exact TaskRule.write hpools
        (rule.leave hcreator hmem (hrefs.node_nodup ht) (hpools u task ht))
  | unregister ht hh hleft =>
      exact TaskRule.write hQ (rule.unregister hh (hrefs.reg_nodup ht) hleft (hQ _ _ ht))
  | adding hxp l => exact rule.pools hQ rfl fun _ _ _ k _ => creator_setPool hxp _ (by rfl) k
  | @join _ _ h xp task hxp ht hnew hlimit hP attr =>
      have hpools : ∀ v t, (s.setPool h { poolNodeAdd xp u task.pid attr with
          refcnt := xp.refcnt + 1 }).tasks v = some t →
          Q (s.setPool h { poolNodeAdd xp u task.pid attr with refcnt := xp.refcnt + 1 }).creator t :=
        rule.pools hQ rfl fun _ _ _ k _ => creator_setPool hxp _ (by rfl) k
      have hcreator : (s.setPool h
          { poolNodeAdd xp u task.pid attr with refcnt := xp.refcnt + 1 }).creator h =
          some xp.createPid := by
        simp [XsmemState.creator, XsmemState.setPool, poolNodeAdd]
      exact TaskRule.write hpools (rule.join hcreator hnew hlimit hP (hpools u task ht))
  | @register _ _ task size priv id ht hlimit hid tgid ns key hkey hsize hinit =>
      have hfresh : ∀ v t, s.tasks v = some t → ∀ k ∈ t.nodeListHead, k ≠ s.nextXp := by
        intro v t ht k hk
        obtain ⟨xp, hxp⟩ := hlive v t ht k hk
        exact (hinv.names.face_lt (facesOf_eq hxp)).ne
      have hpools : ∀ v t, (registerPool s (poolRegistered id priv tgid ns key)).tasks v = some t →
          Q (registerPool s (poolRegistered id priv tgid ns key)).creator t := by
        refine rule.pools hQ rfl fun v t ht k hk => ?_
        simp [XsmemState.creator, registerPool, XsmemState.setPool, hfresh v t ht k hk]
      refine TaskRule.write hpools (rule.register ?_ ?_ hlimit (hpools u task ht))
      · exact fun hmem => hfresh u task ht _ hmem rfl
      · intro hmem
        obtain ⟨f, hf⟩ := hrefs.reg_live ht _ hmem
        exact (hinv.names.face_lt hf).false
  | «open» tgid hnone => exact TaskRule.write hQ (rule.open _ tgid)
  | @close _ _ task ht hnodes hregs hwait =>
      intro v t hv
      by_cases hvu : v = u
      · subst hvu
        simp at hv
      · exact hQ v t (by simpa [hvu] using hv)
  | block => exact hQ
  | unblock => exact hQ
  | exitNotify pid =>
      refine rule.pools hQ rfl fun _ _ _ k _ => ?_
      have hfaces := congrFun (facesOf_exitNotify s pid) k
      have hpid := congrArg (Option.map PoolFace.createPid) hfaces
      simp only [facesOf, Option.map_map] at hpid
      exact hpid

theorem Acts.forall_task {Q : (ℕ → Option ℕ) → XsmTask → Prop} (rule : TaskRule P Q)
    {x y : List ℕ × XsmemState σ} (hinv : XsmemInv A x.1 x.2) (acts : Acts A u P x y)
    (hQ : ∀ u t, x.2.tasks u = some t → Q x.2.creator t) :
    ∀ u t, y.2.tasks u = some t → Q y.2.creator t := by
  induction acts with
  | refl => exact hQ
  | tail acts act ih => exact act.forall_task rule (Acts.inv hinv acts) ih

/-! ## The counter -/

/-- How many of the pools other processes created. -/
def foreign (c : ℕ → Option ℕ) (pid : ℕ) (l : List ℕ) : ℕ := l.countP fun h => c h ≠ some pid

theorem foreign_congr {c c' : ℕ → Option ℕ} {pid : ℕ} {l : List ℕ}
    (hsame : ∀ h ∈ l, c' h = c h) : foreign c' pid l = foreign c pid l :=
  List.countP_congr fun h hh => by rw [hsame h hh]

theorem foreign_append (c : ℕ → Option ℕ) (pid : ℕ) (l : List ℕ) (h : ℕ) :
    foreign c pid (l ++ [h]) = foreign c pid l + if c h = some pid then 0 else 1 := by
  unfold foreign
  rw [List.countP_append, List.countP_singleton]
  by_cases hc : c h = some pid <;> simp [hc]

theorem foreign_erase (c : ℕ → Option ℕ) (pid : ℕ) {l : List ℕ} (hmem : h ∈ l) :
    foreign c pid (l.erase h) + (if c h = some pid then 0 else 1) = foreign c pid l := by
  unfold foreign
  rw [(List.perm_cons_erase hmem).countP_eq, List.countP_cons]
  by_cases hc : c h = some pid <;> simp [hc]

/-- What `pool_num` counts, and its limit. -/
structure PoolNumOk (c : ℕ → Option ℕ) (t : XsmTask) : Prop where
  num_eq : t.poolNum = t.registerXpListHead.length + foreign c t.pid t.nodeListHead
  num_le : t.poolNum ≤ MAX_XP_NUM_OF_TASK

/-- The attached pools of the task's own process are those it has registered. -/
def OwnRegistered (c : ℕ → Option ℕ) (t : XsmTask) : Prop :=
  ∀ h ∈ t.nodeListHead, c h = some t.pid ↔ h ∈ t.registerXpListHead

theorem poolNumOk_rule (P : Allow) : TaskRule P PoolNumOk := by
  constructor
  · rintro c c' t hsame ⟨hnum, hle⟩
    exact ⟨by rw [hnum, foreign_congr hsame], hle⟩
  · rintro c t h createPid hc hmem hnodup ⟨hnum, hle⟩
    have hcount := foreign_erase c t.pid hmem
    simp only [hc, Option.some.injEq] at hcount
    refine ⟨?_, ?_⟩
    all_goals
      simp only [taskDetached]
      split_ifs at hcount ⊢ <;> omega
  · rintro c t h hh hnodup hleft ⟨hnum, hle⟩
    have hlength := List.length_erase_of_mem hh
    have hpos := List.length_pos_of_mem hh
    refine ⟨?_, ?_⟩
    all_goals
      simp only [taskUnregistered]
      omega
  · rintro c t h createPid hc hnew hlimit hP ⟨hnum, hle⟩
    have hcount := foreign_append c t.pid t.nodeListHead h
    simp only [hc, Option.some.injEq] at hcount
    refine ⟨?_, ?_⟩
    · simp only [taskAttached, hcount]
      split_ifs <;> push_cast <;> omega
    · simp only [taskAttached]
      split_ifs with hpid
      · exact hlimit hpid
      · exact hle
  · rintro c t h hnode hreg hlimit ⟨hnum, hle⟩
    refine ⟨?_, hlimit⟩
    simp only [taskRegistered, List.length_append, List.length_singleton, hnum]
    push_cast
    omega
  · intro c tgid
    refine ⟨rfl, ?_⟩
    simp [taskOpened, MAX_XP_NUM_OF_TASK]

theorem ownRegistered_rule (hP : ∀ t h createPid, P.join t h createPid →
    (createPid = t.pid ↔ h ∈ t.registerXpListHead)) : TaskRule P OwnRegistered := by
  constructor
  · intro c c' t hsame hown h hh
    rw [hsame h hh]
    exact hown h hh
  · intro c t h createPid hc hmem hnodup hown k hk
    exact hown k (List.mem_of_mem_erase hk)
  · intro c t h hh hnodup hleft hown k hk
    have hkh : k ≠ h := by
      rintro rfl
      exact hleft hk
    exact (hown k hk).trans (List.mem_erase_of_ne hkh).symm
  · intro c t h createPid hc hnew hlimit hjoin hown k hk
    rcases List.mem_append.mp hk with hk | hk
    · exact hown k hk
    · obtain rfl := List.mem_singleton.mp hk
      rw [hc, Option.some.injEq]
      exact hP t k createPid hjoin
  · intro c t h hnode hreg hlimit hown k hk
    have hkh : k ≠ h := by
      rintro rfl
      exact hnode hk
    refine (hown k hk).trans ?_
    simp [taskRegistered, hkh]
  · intro c tgid k hk
    simp [taskOpened] at hk

/-- The distinct pools that the task has registered or is attached to. -/
def XsmTask.pools (t : XsmTask) : Finset ℕ := t.registerXpListHead.toFinset ∪ t.nodeListHead.toFinset

theorem PoolNumOk.card {c : ℕ → Option ℕ} {t : XsmTask} (hnum : PoolNumOk c t)
    (hown : OwnRegistered c t) (hreg : t.registerXpListHead.Nodup) (hnode : t.nodeListHead.Nodup) :
    t.poolNum = t.pools.card := by
  have hsplit : t.pools.card = t.registerXpListHead.toFinset.card +
      (t.nodeListHead.filter fun h => c h ≠ some t.pid).toFinset.card := by
    rw [← Finset.card_union_of_disjoint]
    · congr 1
      ext h
      simp only [XsmTask.pools, Finset.mem_union, List.mem_toFinset, List.mem_filter]
      have hh := hown h
      simp only [decide_eq_true_eq]
      tauto
    · rw [Finset.disjoint_left]
      intro h hmem hmem'
      simp only [List.mem_toFinset, List.mem_filter, decide_eq_true_eq] at hmem hmem'
      exact hmem'.2 ((hown h hmem'.1).mpr hmem)
  rw [hsplit, List.toFinset_card_of_nodup hreg,
    List.toFinset_card_of_nodup (hnode.filter _), ← List.countP_eq_length_filter, hnum.num_eq]
  exact (Int.natCast_add _ _).symm

/-- In every state the counter keeps the limit. -/
theorem xsmem_poolNumOk (hs : (xsmemMachine A).Reach s) :
    ∀ u t, s.tasks u = some t → PoolNumOk s.creator t := by
  induction hs with
  | start hinit =>
      obtain rfl := hinit
      intro u t ht
      simp [xsmemInit] at ht
  | next op hs _ hstep ih =>
      exact (xsmemStep_acts (xsmem_inv hs) hstep).forall_task (poolNumOk_rule _) (xsmem_inv hs) ih

/-- A task that the step attaches has the pool registered if and only if its
process created the pool. -/
def AttachOwn (s : XsmemState σ) (op : XsmemOp ε) : Prop :=
  ∀ t h createPid, op.Joins s t h createPid → (createPid = t.pid ↔ h ∈ t.registerXpListHead)

theorem xsmem_ownRegistered (hs : (xsmemMachine A).ReachIf AttachOwn s) :
    ∀ u t, s.tasks u = some t → OwnRegistered s.creator t := by
  induction hs with
  | start hinit =>
      obtain rfl := hinit
      intro u t ht
      simp [xsmemInit] at ht
  | next op hs hown hstep ih =>
      have hinv := xsmem_inv hs.reach
      exact (xsmemStep_acts hinv hstep).forall_task (ownRegistered_rule fun t h createPid hjoin =>
        hown t h createPid hjoin) hinv ih

/-- The counter of every task is the number of its pools, which keeps the
limit. -/
def PoolNumExact (s : XsmemState σ) : Prop :=
  ∀ u t, s.tasks u = some t →
    t.poolNum = t.pools.card ∧ (t.pools.card : ℤ) ≤ MAX_XP_NUM_OF_TASK

theorem xsmem_pool_num_of_own (hs : (xsmemMachine A).ReachIf AttachOwn s) : PoolNumExact s := by
  intro u t ht
  have hinv := xsmem_inv hs.reach
  have hnum := xsmem_poolNumOk hs.reach u t ht
  have hcard := hnum.card (xsmem_ownRegistered hs u t ht) (hinv.refs.reg_nodup ht)
    (hinv.refs.node_nodup ht)
  exact ⟨hcard, hcard ▸ hnum.num_le⟩

theorem xsmem_pool_num_of_own_shared :
    PoolNumExact ((xsmemMachine (vmaAlgo page4K)).final xsmemInit [.open 10 true,
      .call 1 (.register 10 0 "a" 8192 true) fun _ _ => []]) :=
  xsmem_pool_num_of_own (A := vmaAlgo page4K)
    (Machine.ReachIf.final (s := xsmemInit) (.start rfl)
      ⟨fun _ _ _ h => h.elim, fun _ _ => ⟨fun _ _ _ h => h.elim, fun _ _ => trivial⟩⟩
      (by decide +kernel))

/-- The process 10 unregisters its pool while 11 is attached, and is attached
again: its counter stays zero. -/
def strayOps : List (XsmemOp AugTree.Rotations) :=
  shareOps ++ [.call 1 (.unregister 0) fun _ _ => [],
    .call 2 (.taskAdd 0 (.ok 10) ⟨true, true, true, true, 0⟩ true) fun _ _ => [],
    .call 1 (.attach 10 0 0 (.ok ()) true) fun _ _ => []]

theorem xsmem_pool_num_fails_stray :
    (xsmemMachine (vmaAlgo page4K)).Reach
        ((xsmemMachine (vmaAlgo page4K)).final xsmemInit strayOps) ∧
      ¬ PoolNumExact ((xsmemMachine (vmaAlgo page4K)).final xsmemInit strayOps) := by
  refine ⟨Machine.Reach.final (s := xsmemInit) (.start rfl) (by decide +kernel), fun hexact => ?_⟩
  have ht : ((xsmemMachine (vmaAlgo page4K)).final xsmemInit strayOps).tasks 1 =
      some ⟨10, 1, 0, [0], []⟩ := by
    decide +kernel
  exact absurd (hexact 1 _ ht).1 (by decide)

end OpiaiKernel.Xsmem
