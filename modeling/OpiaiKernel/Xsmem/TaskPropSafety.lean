import OpiaiKernel.Xsmem.TaskPropRuns

/-!
# The properties over whole runs

In every run the lists refine the maps: only operations and the walks change
what a caller sees, exactly as the map says, and a property lives exactly as long
as its creator serves the list or somebody holds it.
-/

namespace OpiaiKernel.Xsmem

variable {s s' : PropState} {t t' : PropTask}

/-! ## The walks -/

theorem grpPropDel_follows (hs : PropOk s) (ht : t ∈ s.tasks) {xp : ℕ} {held : Bool}
    (hstage : t.stage = .grpPropDel xp held) :
    ∃ s', propGrpPropDel s t = some s' ∧ Follows s s' (.leave xp t.uid) := by
  have hok : t.StageOk := (hs.tasks t ht).stage
  rw [PropTask.StageOk, hstage] at hok
  obtain ⟨p, hp⟩ := hs.pool_of_node ht hok
  obtain ⟨node, hnode⟩ := node_of_mem hok
  obtain ⟨rest₀, hl₀, -⟩ := hs.others ht hp hnode
  obtain ⟨head, hwalk, -⟩ := grpPropDel_refines node hl₀
  have hfacts := setNode_facts (hs.tasks t ht) hnode { node with taskPropHead := [] } rfl rfl
  obtain ⟨-, -, -, -, -, -, hmem, hpool, htask⟩ := hfacts
  have hrun : propGrpPropDel s t = some { ((s.setPool xp { p with propListHead := head }).setTask
      ((t.setNode { node with taskPropHead := [] }).setStage (.taskPropClear xp held))).setHolds
        s.holds with nextProp := s.nextProp } := by
    simp only [propGrpPropDel, hstage, hp, hnode, hwalk]
    rfl
  refine ⟨_, hrun, work_follows hs ht hp hnode rfl rfl rfl ⟨_, hmem, hpool, rfl⟩ (by simp) ?_ le_rfl
    (fun o ho => Function.update_of_ne ho ..) (by simp) fun rest hl hprops => ?_⟩
  · simp [hstage, PropStage.refs]
  · obtain ⟨head', hwalk', hl', hprops', hmine, hbelow⟩ := grpPropDel_refines node hl
    obtain rfl := Option.some.inj (hwalk.symm.trans hwalk')
    refine ⟨hl', hbelow _ (hs.pools xp p hp).below,
      fun q hq hown => ⟨.inl (hmine q hq hown), ?_⟩, ?_⟩
    · simp
    · rw [PropEvent.apply, Function.update_self, hprops, ← htask]
      exact hprops'

theorem taskPropClear_follows (hs : PropOk s) (ht : t ∈ s.tasks) {xp : ℕ} {held : Bool}
    (hstage : t.stage = .taskPropClear xp held) :
    ∃ s', propTaskPropClear s t = some s' ∧ Follows s s' (.endTask (some xp) t.pid) := by
  have hok : t.StageOk := (hs.tasks t ht).stage
  rw [PropTask.StageOk, hstage] at hok
  obtain ⟨node, hin, hpool, hlinks⟩ := hok
  have hmem : xp ∈ t.nodeListHead.map PropNode.pool := List.mem_map.mpr ⟨node, hin, hpool⟩
  obtain ⟨p, hp⟩ := hs.pool_of_node ht hmem
  have hnode : t.node xp = some node := (hs.tasks t ht).nodes.get_iff.mpr ⟨hin, hpool⟩
  have hself : t.setNode node = t := by
    rw [PropTask.setNode, (hs.tasks t ht).nodes.modify_self hin]
  have hrun : propTaskPropClear s t = some { ((s.setPool xp
      { p with propListHead := xsmemTaskPropDel p.propListHead t.pid }).setTask
        ((t.setNode node).setStage (.nodeDel xp held))).setHolds s.holds with
          nextProp := s.nextProp } := by
    simp only [propTaskPropClear, hstage, hp, hself]
    rfl
  refine ⟨_, hrun, work_follows hs ht hp hnode rfl rfl rfl ?_ (by simp) ?_ le_rfl
    (fun o ho => Function.update_of_ne ho ..) ?_ fun rest hl hprops => ?_⟩
  · rw [hself]
    exact ⟨node, hin, hpool, hlinks⟩
  · simp [hstage, PropStage.refs]
  · intro h hne held' heq
    exact hne (PropStage.nodeDel.inj heq).1.symm
  · obtain ⟨hl', hprops'⟩ := taskPropDel_refines t.pid hl
    refine ⟨hl', fun q hq => (hs.pools xp p hp).below q (taskPropDel_mem.mp hq).1,
      fun q hq hown => ?_, ?_⟩
    · obtain ⟨hold, hnot⟩ := taskPropDel_mem.mp hq
      exact ⟨.inl hold, fun hpid => absurd ⟨hpid, hown⟩ hnot⟩
    · rw [PropEvent.apply, Function.update_self, hprops]
      exact hprops'

theorem nodeDel_follows (hs : PropOk s) (ht : t ∈ s.tasks) {xp : ℕ} {held : Bool}
    (hstage : t.stage = .nodeDel xp held) :
    ∃ s', propNodeDel s t = some s' ∧ Follows s s' .skip := by
  have htask := hs.tasks t ht
  have hok : t.StageOk := htask.stage
  rw [PropTask.StageOk, hstage] at hok
  obtain ⟨node, hin, rfl, hlinks⟩ := hok
  have hmem : node.pool ∈ t.nodeListHead.map PropNode.pool := List.mem_map_of_mem hin
  obtain ⟨p, hp⟩ := hs.pool_of_node ht hmem
  have hnode : t.node node.pool = some node := htask.nodes.get_iff.mpr ⟨hin, rfl⟩
  have hfocus := htask.nodes.focus hin
  obtain ⟨t', ht'⟩ : ∃ t' : PropTask, t' = { t with
      nodeListHead := Keyed.remove PropNode.pool node.pool t.nodeListHead
      stage := .idle } := ⟨_, rfl⟩
  have hrun : propNodeDel s t = some ((s.setTask t').setHolds
      ((if held then [node.pool] else []) ++ node.pool :: s.holds)) := by
    simp only [propNodeDel, hstage, ht']
  have hmove : TaskStep s ((s.setTask t').setHolds
      ((if held then [node.pool] else []) ++ node.pool :: s.holds)) t t' :=
    { tasks := by rw [ht']; rfl
      uid := by rw [ht']
      pid := by rw [ht']
      count := rfl
      ok := by
        rw [ht']
        exact ⟨htask.nodes.unlink, fun n hn => htask.own n (Keyed.mem_remove.mp hn).1, trivial⟩
      fresh := hs.fresh
      refs := fun h => by
        have hcnt := (hfocus.perm.map PropNode.pool).count_eq h
        simp only [PropTask.refs, hstage, ht', PropStage.refs, PropState.setTask,
          PropState.setHolds, List.count_append, List.map_cons, List.count_cons,
          List.count_nil] at hcnt ⊢
        split_ifs at hcnt ⊢ <;> omega }
  refine ⟨_, hrun, hmove.follows_at hs ht p hp ?_ rfl le_rfl (by rw [ht']; simp)
    (fun _ _ => rfl) (fun h hne => ?_) (fun h hne hserves => ?_) fun rest hperm hrest => ?_⟩
  · exact (Function.update_eq_self_iff.mpr hp.symm).symm
  · rw [ht', PropTask.nodesAt, PropTask.nodesAt, Keyed.remove, List.filter_filter]
    refine List.filter_congr fun n _ => ?_
    by_cases hn : n.pool = h
    · simp [hn, hne]
    · simp [hn]
  · obtain ⟨n, hn, hnh⟩ := List.mem_map.mp hserves.1
    rw [ht']
    exact ⟨List.mem_map.mpr ⟨n, Keyed.mem_remove.mpr ⟨hn, hnh ▸ hne⟩, hnh⟩, by simp⟩
  · have hat : t.nodesAt node.pool = [node] := by
      rw [nodesAt_eq htask.nodes, hnode]
      rfl
    have hgone : t'.nodesAt node.pool = [] := by
      rw [ht']
      refine not_mem_nodesAt fun hmem' => ?_
      obtain ⟨n, hn, hnp⟩ := List.mem_map.mp hmem'
      exact (Keyed.mem_remove.mp hn).2 hnp
    exact hs.idleStep ht hp le_rfl hperm hrest (.inr ⟨node, hat, hlinks, htask.own node hin⟩)
      (.inl hgone) (by rw [ht']) fun hserves => absurd hstage (hserves.2 held)

/-! ## The end of a task -/

theorem taskPropDel_follows (hs : PropOk s) (ht : t ∈ s.tasks) (h : propTaskPropDel s t = some s') :
    Follows s s' (.endTask none t.pid) := by
  unfold propTaskPropDel at h
  split at h
  · rename_i hcall
    obtain ⟨hidle, -, hnodes, hreg⟩ := hcall
    have hs' := (Option.some.inj h).symm
    have hmove : TaskStep s s' t (t.setStage .closed) :=
      { tasks := by rw [hs']; rfl
        uid := rfl
        pid := rfl
        count := by rw [hs']; rfl
        ok := ⟨(hs.tasks t ht).nodes, (hs.tasks t ht).own, hnodes, hreg⟩
        fresh := by rw [hs']; exact hs.fresh
        refs := fun h => by
          rw [hs']
          simp [PropTask.refs, PropTask.setStage, hidle, PropStage.refs, PropState.setTask] }
    obtain ⟨hl, hprops⟩ := taskPropDel_refines t.pid hs.global.linked
    refine hmove.follows hs ht ?_ (fun h hh => ?_) fun h p rest hp hperm _ => ?_
    · rw [hs']
      refine ⟨hl, fun q hq => hs.global.below q (taskPropDel_mem.mp hq).1, fun q hq hown => ?_, ?_⟩
      · obtain ⟨hold, hnot⟩ := taskPropDel_mem.mp hq
        exact ⟨.inl hold, fun hpid => absurd ⟨hpid, hown⟩ hnot⟩
      · rw [PropEvent.apply, Function.update_self]
        exact hprops
    · have hold : s.pools h = none := by rw [hs'] at hh; exact hh
      rw [PropEvent.apply, Function.update_of_ne (by simp), PropState.props, hold, Option.elim_none]
    · have hold : s.pools h = some p := by rw [hs'] at hp; exact hp
      rw [PropEvent.apply, Function.update_of_ne (by simp), hs']
      exact hs.poolStep ht (t.setStage .closed) hold le_rfl hperm
        fun hserves => ⟨hserves.1, by simp [PropTask.setStage]⟩
  · cases h

/-- Tasks that hold nothing come and go. -/
theorem PropOk.tasksStep (hs : PropOk s) {tasks : List PropTask} {uniProcessId : ℕ}
    (huids : Keyed.Uniq PropTask.uid tasks) (hpids : Keyed.Uniq PropTask.pid tasks)
    (htasks : ∀ t ∈ tasks, t.uid ≤ uniProcessId ∧ TaskOk t)
    (hkeep : ∀ t ∈ s.tasks, t.stage ≠ .closed → t ∈ tasks)
    (hnodes : ∀ h, (s.nodes h).Perm (tasks.flatMap (·.nodesAt h)))
    (hrefs : ∀ h, (tasks.flatMap PropTask.refs).count h =
      (s.tasks.flatMap PropTask.refs).count h) :
    Follows s { s with tasks, uniProcessId } .skip := by
  refine ⟨⟨huids, hpids, fun t ht => (htasks t ht).1, fun t ht => (htasks t ht).2, hs.fresh,
    fun h => ?_, ⟨hs.global.linked, hs.global.below, fun q hq hown => ?_⟩, fun h p hp => ?_⟩, ?_⟩
  · have hold := hs.refs h
    rwa [PropState.refs, List.count_append, ← hrefs, ← List.count_append] at hold
  · obtain ⟨u, hu, hup, hopen⟩ := hs.global.owned q hq hown
    exact ⟨u, hkeep u hu hopen, hup, hopen⟩
  · have hl := hs.pools h p hp
    refine ⟨hl.linked.perm (hnodes h), hl.below, fun q hq hown => ?_⟩
    obtain ⟨u, hu, hup, hserve⟩ := hl.owned q hq hown
    refine ⟨u, hkeep u hu fun hclosed => ?_, hup, hserve⟩
    have hstage : u.StageOk := (hs.tasks u hu).stage
    rw [PropTask.StageOk, hclosed] at hstage
    have hin := hserve.1
    rw [hstage.1] at hin
    exact absurd hin List.not_mem_nil
  · funext o
    cases o with
    | none => rfl
    | some h =>
        simp only [PropEvent.apply, PropState.props]
        cases s.pools h with
        | none => rfl
        | some p => exact props_perm (hnodes h).symm _

theorem taskDel_follows (hs : PropOk s) (ht : t ∈ s.tasks) (h : propTaskDel s t = some s') :
    Follows s s' .skip := by
  unfold propTaskDel at h
  split at h
  · rename_i hclosed
    obtain rfl := Option.some.inj h
    have hstage : t.StageOk := (hs.tasks t ht).stage
    rw [PropTask.StageOk, hclosed] at hstage
    have hfocus := hs.uids.focus ht
    have hsub : (Keyed.remove PropTask.uid t.uid s.tasks).Sublist s.tasks := List.filter_sublist
    refine hs.tasksStep (hs.uids.sublist (hsub.map _)) (hs.pids.sublist (hsub.map _))
      (fun u hu => ⟨hs.uidLe u (hsub.subset hu), hs.tasks u (hsub.subset hu)⟩)
      (fun u hu hopen => ?_) (fun h => ?_) fun h => ?_
    · refine Keyed.mem_remove.mpr ⟨hu, fun heq => hopen ?_⟩
      rw [hs.uids.eq_of_key hu ht heq, hclosed]
    · have hperm := hfocus.perm.flatMap_right (·.nodesAt h)
      rwa [List.flatMap_cons, PropTask.nodesAt, hstage.1] at hperm
    · have hcnt := (hfocus.perm.flatMap_right PropTask.refs).count_eq h
      rw [List.flatMap_cons, PropTask.refs, hstage.1, hstage.2, hclosed] at hcnt
      exact hcnt.symm
  · cases h

theorem open_follows (hs : PropOk s) {pid : ℕ} (h : propOpen s pid = some s') :
    Follows s s' .skip := by
  unfold propOpen at h
  split at h
  · cases h
  · rename_i hnew
    obtain rfl := Option.some.inj h
    refine hs.tasksStep ?_ ?_ (fun u hu => ?_) (fun u hu _ => List.mem_append_left _ hu)
      (fun h => ?_) fun h => ?_
    · refine (hs.uids.cons fun u hu => ?_).perm (List.perm_append_singleton _ _).symm
      exact Nat.ne_of_lt (Nat.lt_succ_of_le (hs.uidLe u hu))
    · exact (hs.pids.cons (by simpa using hnew)).perm (List.perm_append_singleton _ _).symm
    · rcases List.mem_append.mp hu with hu | hu
      · exact ⟨Nat.le_succ_of_le (hs.uidLe u hu), hs.tasks u hu⟩
      · rw [List.mem_singleton.mp hu]
        exact ⟨le_rfl, List.nodup_nil, fun _ hn => absurd hn List.not_mem_nil, trivial⟩
    · simp [PropState.nodes, PropTask.nodesAt]
    · simp [PropTask.refs, PropStage.refs]

/-! ## The references of a pool -/

/-- A step that counts the references of one pool, or ends one without properties. -/
theorem count_follows (hs : PropOk s) {xp : ℕ} {p : PropPool} (hp : s.pools xp = some p)
    (p' : Option PropPool) (holds : List ℕ)
    (hlist : p'.elim [] PropPool.propListHead = p.propListHead)
    (hrefs : ∀ h, (if h = xp then p'.elim 0 PropPool.refcnt - p.refcnt else 0) +
      s.holds.count h = holds.count h) :
    Follows s { s with pools := Function.update s.pools xp p', holds } .skip := by
  refine ⟨⟨hs.uids, hs.pids, hs.uidLe, hs.tasks, fun h hh => ?_, fun h => ?_, hs.global,
    fun h q hq => ?_⟩, ?_⟩
  · refine (Function.update_of_ne ?_ _ _).trans (hs.fresh h hh)
    rintro rfl
    cases (hs.fresh h hh).symm.trans hp
  · have hold := hs.refs h
    have hcnt := hrefs h
    change (Function.update s.pools xp p' h).elim 0 _ =
      ((s.tasks.flatMap PropTask.refs ++ holds).count h : ℤ)
    rw [PropState.refs, List.count_append] at hold
    rw [List.count_append]
    by_cases heq : h = xp
    · subst heq
      rw [hp, Option.elim_some] at hold
      rw [if_pos rfl] at hcnt
      rw [Function.update_self]
      omega
    · rw [if_neg heq] at hcnt
      rw [Function.update_of_ne heq]
      omega
  · dsimp only at hq
    by_cases heq : h = xp
    · subst heq
      rw [Function.update_self] at hq
      rw [hq, Option.elim_some] at hlist
      exact hlist ▸ hs.pools h p hp
    · rw [Function.update_of_ne heq] at hq
      exact hs.pools h q hq
  · funext o
    cases o with
    | none => rfl
    | some h =>
        change (Function.update s.pools xp p' h).elim _ _ = (s.pools h).elim _ _
        by_cases heq : h = xp
        · rw [heq, Function.update_self, hp, Option.elim_some, ← hlist]
          cases p' <;> rfl
        · rw [Function.update_of_ne heq]
          rfl

theorem poolGet_follows (hs : PropOk s) {xp : ℕ} (h : propPoolGet s xp = some s') :
    Follows s s' .skip := by
  unfold propPoolGet at h
  cases hp : s.pools xp with
  | none => simp [hp] at h
  | some p =>
      simp only [hp] at h
      obtain rfl := Option.some.inj h
      refine count_follows hs hp (some _) _ rfl fun h => ?_
      by_cases heq : h = xp
      · rw [if_pos heq, heq, List.count_cons_self, Option.elim_some]
        dsimp only
        omega
      · rw [if_neg heq, List.count_cons_of_ne (Ne.symm heq)]
        omega

/-- The pool that loses its last reference has no properties left. -/
theorem PropOk.last_empty (hs : PropOk s) {xp : ℕ} {p : PropPool} (hp : s.pools xp = some p)
    (hheld : xp ∈ s.holds) (hlast : p.refcnt - 1 = 0) :
    p.propListHead = [] ∧ ∀ t ∈ s.tasks, xp ∉ t.refs := by
  have hrefs := hs.refs xp
  rw [hp, Option.elim_some, PropState.refs, List.count_append] at hrefs
  have hpos := List.count_pos_iff.mpr hheld
  have hzero : (s.tasks.flatMap PropTask.refs).count xp = 0 := by omega
  have hnone : ∀ t ∈ s.tasks, xp ∉ t.refs := fun t ht hin =>
    List.count_eq_zero.mp hzero (List.mem_flatMap.mpr ⟨t, ht, hin⟩)
  refine ⟨List.eq_nil_iff_forall_not_mem.mpr fun q hq => ?_, hnone⟩
  have hnodes : s.nodes xp = [] := by
    refine List.flatMap_eq_nil_iff.mpr fun t ht => not_mem_nodesAt fun hin => ?_
    exact hnone t ht (List.mem_append_left _ hin)
  have hl := hs.pools xp p hp
  rw [hnodes] at hl
  obtain ⟨t, ht, -, hserve⟩ := hl.owned q hq (hl.linked.owner_of_nil hq)
  exact hnone t ht (List.mem_append_left _ hserve.1)

theorem poolPut_follows (hs : PropOk s) {xp : ℕ} (h : propPoolPut s xp = some s') :
    Follows s s' .skip := by
  unfold propPoolPut at h
  split at h
  · rename_i hheld
    cases hp : s.pools xp with
    | none => simp [hp] at h
    | some p =>
        simp only [hp] at h
        have hcnt : ∀ h, (if h = xp then p.refcnt - 1 - p.refcnt else 0) + s.holds.count h =
            (s.holds.erase xp).count h := by
          intro h
          have hpos := List.count_pos_iff.mpr hheld
          by_cases heq : h = xp
          · rw [if_pos heq, heq, List.count_erase_self]
            omega
          · rw [if_neg heq, List.count_erase_of_ne heq]
            omega
        split at h
        · obtain rfl := Option.some.inj h
          exact count_follows hs hp (some _) _ rfl hcnt
        · rename_i hlast
          rw [ne_eq, not_not] at hlast
          obtain rfl := Option.some.inj h
          rw [hlast] at hcnt
          exact count_follows hs hp none _ (hs.last_empty hp hheld hlast).1.symm hcnt
  · cases h

/-! ## Runs -/

/-- What a step is on the maps. -/
def propEvent (s : PropState) (a : PropAct) : PropEvent :=
  match a with
  | .propRun uid env =>
      match s.task uid with
      | some task =>
          match task.stage with
          | .op xp arg => .op xp task.uid task.pid arg env
          | _ => .skip
      | none => .skip
  | .grpPropDel uid =>
      match s.task uid with
      | some task =>
          match task.stage with
          | .grpPropDel xp _ => .leave xp task.uid
          | _ => .skip
      | none => .skip
  | .taskPropClear uid =>
      match s.task uid with
      | some task =>
          match task.stage with
          | .taskPropClear xp _ => .endTask (some xp) task.pid
          | _ => .skip
      | none => .skip
  | .taskPropDel uid =>
      match s.task uid with
      | some task => .endTask none task.pid
      | none => .skip
  | _ => .skip

theorem of_task {uid : ℕ} {f : PropTask → Option PropState} (h : (s.task uid).bind f = some s') :
    ∃ t ∈ s.tasks, s.task uid = some t ∧ f t = some s' :=
  have ⟨t, ht, hrun⟩ := Option.bind_eq_some_iff.mp h
  ⟨t, task_mem ht, ht, hrun⟩

theorem step_follows (hs : PropOk s) {a : PropAct} (h : propStep s a = some s') :
    Follows s s' (propEvent s a) := by
  cases a with
  | «open» pid => exact open_follows hs h
  | register uid =>
      obtain ⟨t, ht, -, hrun⟩ := of_task h
      exact register_follows hs ht hrun
  | poolGet xp => exact poolGet_follows hs h
  | poolPut xp => exact poolPut_follows hs h
  | attach uid xp =>
      obtain ⟨t, ht, -, hrun⟩ := of_task h
      exact attach_follows hs ht hrun
  | propOp uid xp arg =>
      obtain ⟨t, ht, -, hrun⟩ := of_task h
      exact propOp_follows hs ht hrun
  | propRun uid env =>
      obtain ⟨t, ht, hget, hrun⟩ := of_task h
      simp only [propEvent, hget]
      cases hstage : t.stage with
      | op xp arg => exact run_follows hs ht hstage hrun
      | _ => simp [propRun, hstage] at hrun
  | detach uid xp =>
      obtain ⟨t, ht, -, hrun⟩ := of_task h
      exact detach_follows hs ht hrun
  | grpPropDel uid =>
      obtain ⟨t, ht, hget, hrun⟩ := of_task h
      simp only [propEvent, hget]
      cases hstage : t.stage with
      | grpPropDel xp held =>
          obtain ⟨s₁, hrun₁, hfollows⟩ := grpPropDel_follows hs ht hstage
          exact Option.some.inj (hrun₁.symm.trans hrun) ▸ hfollows
      | _ => simp [propGrpPropDel, hstage] at hrun
  | taskPropClear uid =>
      obtain ⟨t, ht, hget, hrun⟩ := of_task h
      simp only [propEvent, hget]
      cases hstage : t.stage with
      | taskPropClear xp held =>
          obtain ⟨s₁, hrun₁, hfollows⟩ := taskPropClear_follows hs ht hstage
          exact Option.some.inj (hrun₁.symm.trans hrun) ▸ hfollows
      | _ => simp [propTaskPropClear, hstage] at hrun
  | nodeDel uid =>
      obtain ⟨t, ht, -, hrun⟩ := of_task h
      cases hstage : t.stage with
      | nodeDel xp held =>
          obtain ⟨s₁, hrun₁, hfollows⟩ := nodeDel_follows hs ht hstage
          exact Option.some.inj (hrun₁.symm.trans hrun) ▸ hfollows
      | _ => simp [propNodeDel, hstage] at hrun
  | unregister uid xp =>
      obtain ⟨t, ht, -, hrun⟩ := of_task h
      exact unregister_follows hs ht hrun
  | release uid =>
      obtain ⟨t, ht, -, hrun⟩ := of_task h
      exact release_follows hs ht hrun
  | releaseNode uid xp =>
      obtain ⟨t, ht, -, hrun⟩ := of_task h
      exact releaseNode_follows hs ht hrun
  | taskPropDel uid =>
      obtain ⟨t, ht, hget, hrun⟩ := of_task h
      simp only [propEvent, hget]
      exact taskPropDel_follows hs ht hrun
  | taskDel uid =>
      obtain ⟨t, ht, -, hrun⟩ := of_task h
      exact taskDel_follows hs ht hrun

theorem start_ok : PropOk PropState.start where
  uids := List.nodup_nil
  pids := List.nodup_nil
  uidLe := by simp [PropState.start]
  tasks := by simp [PropState.start]
  fresh := by simp [PropState.start]
  refs := by simp [PropState.start, PropState.refs]
  global := ⟨PropLinked.nil, by simp [PropState.start, Below], by simp [PropState.start]⟩
  pools := by simp [PropState.start]

theorem run_ok (h : propMachine.Reach s) : PropOk s :=
  h.invariant (M := propMachine) (P := PropOk) (fun _ hinit => hinit ▸ start_ok)
    fun _ _ _ hs _ hstep => (step_follows hs hstep).1

/-- Whether a property of a list belongs to somebody who still serves it. -/
def Property.Alive (s : PropState) (xp : Option ℕ) (q : Property) : Prop :=
  match q.owner, xp with
  | .task pid, none => ∃ t ∈ s.tasks, t.pid = pid ∧ t.stage ≠ .closed
  | .task pid, some h => ∃ t ∈ s.tasks, t.pid = pid ∧ t.Serves h
  | .group _, none => False
  | .group holders, some h => holders.Nonempty ∧ ∀ uid ∈ holders, ∃ t ∈ s.tasks, t.uid = uid ∧
      h ∈ t.nodeListHead.map PropNode.pool

theorem PropOk.alive (hs : PropOk s) {xp : Option ℕ} {k : PropKey} {q : Property}
    (h : s.props xp k = some q) : q.Alive s xp := by
  cases xp with
  | none =>
      obtain ⟨p, hget, rfl⟩ := Option.map_eq_some_iff.mp h
      obtain ⟨hp, -⟩ := hs.global.linked.get_key.mp hget
      have hown := hs.global.linked.owner_of_nil hp
      have hgrp : p.owner ≠ XSMEM_PROP_OWNER_TASK_GRP := by
        rw [hown]
        decide
      simp only [Property.Alive, XsmProp.property, if_neg hgrp]
      exact hs.global.owned p hp hown
  | some h' =>
      cases hpool : s.pools h' with
      | none => simp [PropState.props, hpool] at h
      | some p' =>
          rw [PropState.props, hpool, Option.elim_some] at h
          obtain ⟨p, hget, rfl⟩ := Option.map_eq_some_iff.mp h
          have hl := hs.pools h' p' hpool
          obtain ⟨hp, -⟩ := hl.linked.get_key.mp hget
          by_cases hgrp : p.owner = XSMEM_PROP_OWNER_TASK_GRP
          · simp only [Property.Alive, XsmProp.property, if_pos hgrp]
            refine ⟨hl.linked.holders_nonempty hp hgrp, fun uid huid => ?_⟩
            obtain ⟨n, hn, -, rfl⟩ := mem_holders.mp huid
            obtain ⟨t, ht, hnt⟩ := List.mem_flatMap.mp hn
            obtain ⟨hin, hnpool⟩ := List.mem_filter.mp hnt
            exact ⟨t, ht, ((hs.tasks t ht).own n hin).symm,
              List.mem_map.mpr ⟨n, hin, by simpa using hnpool⟩⟩
          · simp only [Property.Alive, XsmProp.property, if_neg hgrp]
            exact hl.owned p hp ((hl.linked.owned p hp).resolve_right hgrp)

/-- What a task is about to do can be done. -/
def PropTask.Answers (s : PropState) (t : PropTask) : Prop :=
  match t.stage with
  | .op xp arg => ∀ env : PropEnv, (∀ key ∈ env.key, key.length = arg.propLen) →
      ∃ v, propCall s t xp arg env = some (((s.props xp).op t.uid t.pid arg env).1, v)
  | .grpPropDel _ _ => (propGrpPropDel s t).isSome
  | .taskPropClear _ _ => (propTaskPropClear s t).isSome
  | .nodeDel _ _ => (propNodeDel s t).isSome
  | _ => True

theorem PropOk.answers (hs : PropOk s) (ht : t ∈ s.tasks) : t.Answers s := by
  unfold PropTask.Answers
  cases hstage : t.stage with
  | op xp arg => exact fun env hkey => hs.call ht hstage hkey
  | grpPropDel xp held =>
      obtain ⟨s', hrun, -⟩ := grpPropDel_follows hs ht hstage
      simp [hrun]
  | taskPropClear xp held =>
      obtain ⟨s', hrun, -⟩ := taskPropClear_follows hs ht hstage
      simp [hrun]
  | nodeDel xp held =>
      obtain ⟨s', hrun, -⟩ := nodeDel_follows hs ht hstage
      simp [hrun]
  | _ => trivial

/-! ## Refinement -/

/-- In every run a step changes the maps as its event says, and every call that
has been let through answers with the result of the map. -/
theorem prop_refines (h : propMachine.Reach s) {a : PropAct} (hstep : propStep s a = some s') :
    s'.props = (propEvent s a).apply s.props ∧
      ∀ t ∈ s.tasks, ∀ xp arg, t.stage = .op xp arg → ∀ env : PropEnv,
        (∀ key ∈ env.key, key.length = arg.propLen) →
          ∃ v, propCall s t xp arg env = some (((s.props xp).op t.uid t.pid arg env).1, v) :=
  ⟨(step_follows (run_ok h) hstep).2, fun _ ht _ _ hstage _ hkey => (run_ok h).call ht hstage hkey⟩

/-- The arguments of a call for the property of the group named `k`. -/
def groupArg (op : ℤ) : XsmPropOpArg :=
  { prop := 1, propLen := 1, owner := XSMEM_PROP_OWNER_TASK_GRP, op, value := 7 }

def groupEnv : PropEnv :=
  { key := some [107], kmallocProp := true, kmallocNode := true, putUser := true }

/-- Two tasks of a pool; the first has set a property of the group, and the
second is about to read it. -/
def sharedRun : PropState :=
  propMachine.final PropState.start
    [.open 10, .open 11, .register 1, .poolGet 0, .attach 1 0, .attach 2 0, .poolPut 0,
      .poolGet 0, .propOp 1 (some 0) (groupArg 0), .propRun 1 groupEnv,
      .propOp 2 (some 0) (groupArg 1)]

theorem sharedRun_reach : propMachine.Reach sharedRun :=
  Machine.Reach.final (.start rfl) (by decide)

theorem prop_refines_shared :
    (propMachine.final sharedRun [.propRun 2 groupEnv]).props =
      (propEvent sharedRun (.propRun 2 groupEnv)).apply sharedRun.props ∧
    ∀ t ∈ sharedRun.tasks, ∀ xp arg, t.stage = .op xp arg → ∀ env : PropEnv,
      (∀ key ∈ env.key, key.length = arg.propLen) →
        ∃ v, propCall sharedRun t xp arg env =
          some (((sharedRun.props xp).op t.uid t.pid arg env).1, v) :=
  prop_refines sharedRun_reach (a := .propRun 2 groupEnv) (by rfl)

/-! ## Safety -/

structure PropSafe (s : PropState) : Prop where
  names : Keyed.Uniq XsmProp.key s.propListHead ∧
    ∀ h p, s.pools h = some p → Keyed.Uniq XsmProp.key p.propListHead
  alone : ∀ q ∈ s.propListHead, q.owner = XSMEM_PROP_OWNER_TASK
  counted : ∀ h p, s.pools h = some p → ∀ q ∈ p.propListHead,
    q.owner = XSMEM_PROP_OWNER_TASK_GRP →
      q.refcnt = (s.nodes h).countP (fun node => q.addr ∈ node.taskPropHead) ∧ 0 < q.refcnt
  /-- A link leads to a property of the group in the list of its pool. -/
  linked : ∀ t ∈ s.tasks, ∀ node ∈ t.nodeListHead, node.taskPropHead.Nodup ∧
    ∃ p, s.pools node.pool = some p ∧ ∀ a ∈ node.taskPropHead,
      ∃ q ∈ p.propListHead, q.addr = a ∧ q.owner = XSMEM_PROP_OWNER_TASK_GRP
  alive : ∀ xp k q, s.props xp k = some q → q.Alive s xp
  answers : ∀ t ∈ s.tasks, t.Answers s
  /-- No reference outlives its pool, and the last one leaves no property to free. -/
  refs : ∀ h ∈ s.refs, ∃ p, s.pools h = some p ∧ 0 < p.refcnt
  last : ∀ h ∈ s.holds, ∀ p, s.pools h = some p → p.refcnt - 1 = 0 → p.propListHead = []

theorem prop_safe (h : propMachine.Reach s) : PropSafe s := by
  have hs := run_ok h
  refine ⟨⟨hs.global.linked.keys, fun xp p hp => (hs.pools xp p hp).linked.keys⟩,
    fun q hq => hs.global.linked.owner_of_nil hq,
    fun xp p hp q hq hown => (hs.pools xp p hp).linked.counted q hq hown,
    fun t ht node hn => ?_, fun _ _ _ hq => hs.alive hq, fun t ht => hs.answers ht,
    fun xp hxp => ?_, fun xp hxp p hp hlast => (hs.last_empty hp hxp hlast).1⟩
  · obtain ⟨p, hp⟩ := hs.pool_of_node ht (List.mem_map_of_mem hn)
    have hl := (hs.pools _ p hp).linked
    have hin : node ∈ s.nodes node.pool :=
      List.mem_flatMap.mpr ⟨t, ht, List.mem_filter.mpr ⟨hn, by simp⟩⟩
    exact ⟨hl.once node hin, p, hp, hl.linked node hin⟩
  · obtain ⟨p, hp⟩ := hs.pool_of_ref hxp
    have hcnt := hs.refs xp
    rw [hp, Option.elim_some] at hcnt
    have hpos := List.count_pos_iff.mpr hxp
    exact ⟨p, hp, by omega⟩

theorem prop_safe_shared : PropSafe sharedRun := prop_safe sharedRun_reach

end OpiaiKernel.Xsmem
