import OpiaiKernel.Xsmem.TaskPropInv

/-!
# The steps of the tasks

Each step of a task is one event on the maps: an operation, the walk over the
links of a node, the walk over a list.  Everything else leaves every map as it
is, the deletion of a pool too, whose list is empty by then.
-/

namespace OpiaiKernel.Xsmem

variable {s s' : PropState} {t t' : PropTask}

theorem Follows.refl (hs : PropOk s) : Follows s s .skip := ⟨hs, rfl⟩

theorem task_mem {uid : ℕ} (h : s.task uid = some t) : t ∈ s.tasks := Keyed.mem_of_get h

/-! ## Lists that stay -/

/-- What belongs to the task has it as its creator's server. -/
theorem PropOk.serves (hs : PropOk s) (ht : t ∈ s.tasks) {xp : ℕ} {p : PropPool}
    (hp : s.pools xp = some p) {q : XsmProp} (hq : q ∈ p.propListHead)
    (hown : q.owner = XSMEM_PROP_OWNER_TASK) (hpid : q.createPid = t.pid) : t.Serves xp := by
  obtain ⟨u, hu, hup, hserve⟩ := (hs.pools xp p hp).owned q hq hown
  rwa [← hs.pids.eq_of_key hu ht (hup.trans hpid)]

theorem PropOk.notClosed (hs : PropOk s) (ht : t ∈ s.tasks) {q : XsmProp}
    (hq : q ∈ s.propListHead) (hown : q.owner = XSMEM_PROP_OWNER_TASK)
    (hpid : q.createPid = t.pid) : t.stage ≠ .closed := by
  obtain ⟨u, hu, hup, hopen⟩ := hs.global.owned q hq hown
  rwa [← hs.pids.eq_of_key hu ht (hup.trans hpid)]

theorem PropOk.globalStep (hs : PropOk s) (ht : t ∈ s.tasks) {next : ℕ}
    (hnext : s.nextProp ≤ next) (hopen : t.stage ≠ .closed → t'.stage ≠ .closed) :
    ListStep [] next s.propListHead s.propListHead t.pid (t'.stage ≠ .closed) (s.props none) :=
  ⟨hs.global.linked, hs.global.below.mono hnext,
    fun _ hq hown => ⟨.inl hq, fun hpid => hopen (hs.notClosed ht hq hown hpid)⟩, rfl⟩

theorem PropOk.poolStep (hs : PropOk s) (ht : t ∈ s.tasks) (t' : PropTask) {next xp : ℕ}
    {p : PropPool}
    {rest : List PropNode} (hp : s.pools xp = some p) (hnext : s.nextProp ≤ next)
    (hrest : (s.nodes xp).Perm (t'.nodesAt xp ++ rest)) (hserves : t.Serves xp → t'.Serves xp) :
    ListStep (t'.nodesAt xp ++ rest) next ((s.pools xp).elim [] PropPool.propListHead)
      p.propListHead t.pid (t'.Serves xp) (s.props (some xp)) := by
  have hl := hs.pools xp p hp
  refine ⟨hl.linked.perm hrest, hl.below.mono hnext, fun q hq hown => ⟨.inl ?_, fun hpid => ?_⟩, ?_⟩
  · rwa [hp]
  · exact hserves (hs.serves ht hp hq hown hpid)
  · rw [PropState.props, hp, Option.elim_some, props_perm hrest]

/-- A step that leaves every list and every link. -/
theorem TaskStep.skip (hs : PropOk s) (ht : t ∈ s.tasks) (h : TaskStep s s' t t')
    (hglobal : s'.propListHead = s.propListHead) (hnext : s'.nextProp = s.nextProp)
    (hlists : ∀ xp, (s'.pools xp).map PropPool.propListHead =
      (s.pools xp).map PropPool.propListHead)
    (hnodes : t'.nodeListHead = t.nodeListHead)
    (hserves : ∀ xp, t.Serves xp → t'.Serves xp)
    (hopen : t.stage ≠ .closed → t'.stage ≠ .closed) : Follows s s' .skip := by
  refine h.follows hs ht ?_ (fun xp hxp => ?_) fun xp p' rest hp' hrest _ => ?_
  · rw [hglobal]
    exact hs.globalStep ht hnext.ge hopen
  · have hnone := hlists xp
    rw [hxp, Option.map_none, eq_comm, Option.map_eq_none_iff] at hnone
    simp only [PropEvent.apply, PropState.props, hnone, Option.elim_none]
  · have hsome := hlists xp
    rw [hp', Option.map_some, eq_comm, Option.map_eq_some_iff] at hsome
    obtain ⟨p, hp, hlist⟩ := hsome
    rw [← hlist]
    refine hs.poolStep ht _ hp hnext.ge ?_ (hserves xp)
    simpa only [PropTask.nodesAt, hnodes] using hrest

/-! ## Nodes come and go -/

/-- A node without links may be added or taken away. -/
theorem PropLinked.idle_node {node : PropNode} {rest : List PropNode} {head : List XsmProp}
    (hnone : node.taskPropHead = []) (htask : ∀ n ∈ rest, n.task ≠ node.task) :
    PropLinked (node :: rest) head ↔ PropLinked rest head := by
  constructor
  · intro h
    refine ⟨h.addrs, h.keys, h.named, h.owned, h.tasks.tail,
      fun n hn => h.once n (List.mem_cons_of_mem _ hn),
      fun n hn => h.linked n (List.mem_cons_of_mem _ hn), fun p hp hown => ?_⟩
    have hcount := h.counted p hp hown
    rwa [List.countP_cons_of_neg (by simp [hnone])] at hcount
  · intro h
    refine ⟨h.addrs, h.keys, h.named, h.owned, h.tasks.cons htask, ?_, ?_, fun p hp hown => ?_⟩
    · rintro n (_ | ⟨_, hn⟩)
      · rw [hnone]
        exact List.nodup_nil
      · exact h.once n hn
    · rintro n (_ | ⟨_, hn⟩) a ha
      · rw [hnone] at ha
        exact absurd ha List.not_mem_nil
      · exact h.linked n hn a ha
    · rw [List.countP_cons_of_neg (by simp [hnone])]
      exact h.counted p hp hown

theorem props_idle_node {node : PropNode} {rest : List PropNode} (head : List XsmProp)
    (hnone : node.taskPropHead = []) : props (node :: rest) head = props rest head := by
  have hprop : XsmProp.property (node :: rest) = XsmProp.property rest := by
    funext p
    have hholders : holders (node :: rest) p.addr = holders rest p.addr := by
      ext uid
      simp [hnone]
    simp only [XsmProp.property, hholders]
  funext k
  rw [props, props, hprop]

/-- Both of a task's nodes in a pool have no links, or it has none there. -/
def PropTask.Idle (t : PropTask) (xp : ℕ) : Prop :=
  t.nodesAt xp = [] ∨ ∃ node, t.nodesAt xp = [node] ∧ node.taskPropHead = [] ∧ node.task = t.uid

theorem PropTask.Idle.linked_iff {xp : ℕ} {rest : List PropNode} (h : t.Idle xp)
    (hrest : ∀ n ∈ rest, n.task ≠ t.uid) (head : List XsmProp) :
    (PropLinked (t.nodesAt xp ++ rest) head ↔ PropLinked rest head) ∧
      props (t.nodesAt xp ++ rest) head = props rest head := by
  rcases h with h | ⟨node, h, hnone, htask⟩
  · rw [h, List.nil_append]
    exact ⟨Iff.rfl, rfl⟩
  · rw [h, List.singleton_append]
    exact ⟨PropLinked.idle_node hnone (htask ▸ hrest), props_idle_node head hnone⟩

/-- A step of a task that comes to or goes from a pool without holding anything
there. -/
theorem PropOk.idleStep (hs : PropOk s) (ht : t ∈ s.tasks) {next xp : ℕ} {p : PropPool}
    {rest : List PropNode} (hp : s.pools xp = some p) (hnext : s.nextProp ≤ next)
    (hperm : (s.nodes xp).Perm (t.nodesAt xp ++ rest)) (hrest : ∀ n ∈ rest, n.task ≠ t.uid)
    (hidle : t.Idle xp) (hidle' : t'.Idle xp) (huid : t'.uid = t.uid)
    (hserves : t.Serves xp → t'.Serves xp) :
    ListStep (t'.nodesAt xp ++ rest) next ((s.pools xp).elim [] PropPool.propListHead)
      p.propListHead t.pid (t'.Serves xp) (s.props (some xp)) := by
  have hl := hs.pools xp p hp
  obtain ⟨hlinked, hprops⟩ := hidle.linked_iff hrest p.propListHead
  obtain ⟨hlinked', hprops'⟩ := hidle'.linked_iff (huid ▸ hrest) p.propListHead
  refine ⟨?_, hl.below.mono hnext, fun q hq hown => ⟨.inl ?_, fun hpid => ?_⟩, ?_⟩
  · exact hlinked'.mpr (hlinked.mp (hl.linked.perm hperm))
  · rwa [hp]
  · exact hserves (hs.serves ht hp hq hown hpid)
  · rw [PropState.props, hp, Option.elim_some, props_perm hperm, hprops, hprops']

/-! ## Registrations, nodes and calls -/

/-- Nobody has a node in a pool that is not there. -/
theorem PropOk.nodes_nil (hs : PropOk s) {xp : ℕ} (hxp : s.pools xp = none) : s.nodes xp = [] := by
  have hcnt := hs.refs xp
  rw [hxp, Option.elim_none] at hcnt
  have hzero : xp ∉ s.refs := List.count_eq_zero.mp (by exact_mod_cast hcnt.symm)
  refine List.eq_nil_iff_forall_not_mem.mpr fun n hn => ?_
  obtain ⟨u, hu, hnu⟩ := List.mem_flatMap.mp hn
  obtain ⟨hin, hpool⟩ := List.mem_filter.mp hnu
  refine hzero (List.mem_append_left _ (List.mem_flatMap.mpr ⟨u, hu, List.mem_append_left _ ?_⟩))
  exact List.mem_map.mpr ⟨n, hin, by simpa using hpool⟩

theorem PropOk.fresh_update (hs : PropOk s) {xp : ℕ} {p p' : PropPool} (hp : s.pools xp = some p) :
    ∀ h, s.nextXp ≤ h → Function.update s.pools xp (some p') h = none := by
  intro h hh
  have hne : h ≠ xp := by
    rintro rfl
    rw [hs.fresh h hh] at hp
    exact absurd hp (by simp)
  rw [Function.update_of_ne hne]
  exact hs.fresh h hh

theorem register_follows (hs : PropOk s) (ht : t ∈ s.tasks) (h : propRegister s t = some s') :
    Follows s s' .skip := by
  unfold propRegister at h
  split at h
  · rename_i hfree
    have hs' := (Option.some.inj h).symm
    have hpools : s'.pools =
        Function.update s.pools s.nextXp (some { refcnt := 1, propListHead := [] }) := by
      rw [hs']
      rfl
    have hnone := hs.fresh s.nextXp le_rfl
    have hnil := hs.nodes_nil hnone
    have hmove : TaskStep s s' t
        { t with registerXpListHead := t.registerXpListHead ++ [s.nextXp] } :=
      { tasks := by rw [hs']; rfl
        uid := rfl
        pid := rfl
        count := by rw [hs']; rfl
        ok := ⟨(hs.tasks t ht).nodes, (hs.tasks t ht).own, by simp [PropTask.StageOk, hfree.1]⟩
        fresh := fun xp hxp => by
          have hlt : s.nextXp < xp := by rwa [hs'] at hxp
          rw [hpools, Function.update_of_ne hlt.ne']
          exact hs.fresh xp hlt.le
        refs := fun xp => by
          have hholds : s'.holds = s.holds := by rw [hs']; rfl
          rw [hpools, hholds]
          by_cases hxp : xp = s.nextXp
          · subst hxp
            simp only [Function.update_self, hnone, Option.elim_some, Option.elim_none,
              PropTask.refs, List.count_append, List.count_singleton_self]
            omega
          · simp [hxp, Ne.symm hxp, PropTask.refs, List.count_append] }
    refine hmove.follows hs ht ?_ (fun xp hxp => ?_) fun xp p' rest hp' hperm hrest => ?_
    · rw [hs']
      exact hs.globalStep ht le_rfl id
    · have hold : s.pools xp = none := by
        by_cases heq : xp = s.nextXp
        · exact heq ▸ hnone
        · rwa [hpools, Function.update_of_ne heq] at hxp
      simp only [PropEvent.apply, PropState.props, hold, Option.elim_none]
    · by_cases heq : xp = s.nextXp
      · subst heq
        rw [hpools, Function.update_self] at hp'
        rw [hnil, List.nil_perm] at hperm
        have hempty : PropTask.nodesAt
            { t with registerXpListHead := t.registerXpListHead ++ [s.nextXp] } s.nextXp ++ rest =
            [] := hperm
        rw [← Option.some.inj hp', hempty]
        refine ⟨PropLinked.nil, fun _ hq => absurd hq List.not_mem_nil,
          fun _ hq => absurd hq List.not_mem_nil, ?_⟩
        simp only [PropEvent.apply, PropState.props, hnone, Option.elim_none]
        rfl
      · have hp : s.pools xp = some p' := by rwa [hpools, Function.update_of_ne heq] at hp'
        rw [hs']
        exact hs.poolStep ht _ hp le_rfl hperm id
  · cases h

/-- A step of a task that is about one pool. -/
theorem TaskStep.follows_at (hs : PropOk s) (ht : t ∈ s.tasks) (h : TaskStep s s' t t')
    {xp : ℕ} {p : PropPool} (p' : PropPool) {e : PropEvent} (hp : s.pools xp = some p)
    (hpools : s'.pools = Function.update s.pools xp (some p'))
    (hglobal : s'.propListHead = s.propListHead) (hnext : s.nextProp ≤ s'.nextProp)
    (hopen : t'.stage ≠ .closed) (hkeep : ∀ o ≠ some xp, e.apply s.props o = s.props o)
    (hnodes : ∀ h ≠ xp, t'.nodesAt h = t.nodesAt h) (hserves : ∀ h ≠ xp, t.Serves h → t'.Serves h)
    (hat : ∀ rest, (s.nodes xp).Perm (t.nodesAt xp ++ rest) → (∀ n ∈ rest, n.task ≠ t.uid) →
      ListStep (t'.nodesAt xp ++ rest) s'.nextProp ((s.pools xp).elim [] PropPool.propListHead)
        p'.propListHead t.pid (t'.Serves xp) (e.apply s.props (some xp))) :
    Follows s s' e := by
  refine h.follows hs ht ?_ (fun h hh => ?_) fun h q rest hq hperm hrest => ?_
  · rw [hglobal, hkeep none (by simp)]
    exact hs.globalStep ht hnext fun _ => hopen
  · by_cases heq : h = xp
    · rw [hpools, heq, Function.update_self] at hh
      cases hh
    · rw [hpools, Function.update_of_ne heq] at hh
      rw [hkeep _ (by simpa using heq)]
      simp only [PropState.props, hh, Option.elim_none]
  · by_cases heq : h = xp
    · subst heq
      rw [hpools, Function.update_self] at hq
      exact Option.some.inj hq ▸ hat rest hperm hrest
    · rw [hpools, Function.update_of_ne heq] at hq
      rw [hkeep _ (by simpa using heq)]
      exact hs.poolStep ht _ hq hnext (hnodes h heq ▸ hperm) (hserves h heq)

theorem not_mem_nodesAt {h : ℕ} (hnone : h ∉ t.nodeListHead.map PropNode.pool) :
    t.nodesAt h = [] := by
  refine List.filter_eq_nil_iff.mpr fun n hn => ?_
  simpa using fun heq => hnone (List.mem_map.mpr ⟨n, hn, heq⟩)

theorem attach_follows (hs : PropOk s) (ht : t ∈ s.tasks) {xp : ℕ}
    (h : propAttach s t xp = some s') : Follows s s' .skip := by
  unfold propAttach at h
  split at h
  · rename_i hcall
    cases hp : s.pools xp with
    | none => simp [hp] at h
    | some p =>
        simp only [hp] at h
        split at h
        · exact Option.some.inj h ▸ .refl hs
        · rename_i hnode
          have hs' := (Option.some.inj h).symm
          have hok := hs.tasks t ht
          have hnone : xp ∉ t.nodeListHead.map PropNode.pool := fun hin =>
            hnode (node_isSome.mpr hin)
          have hpools : s'.pools = Function.update s.pools xp
              (some { p with refcnt := p.refcnt + 1 }) := by
            rw [hs']
            rfl
          have hmove : TaskStep s s' t { t with nodeListHead := t.nodeListHead ++
              [{ task := t.uid, pool := xp, taskPropHead := [] }] } :=
            { tasks := by rw [hs']; rfl
              uid := rfl
              pid := rfl
              count := by rw [hs']; rfl
              ok := by
                refine ⟨?_, ?_, by simp [PropTask.StageOk, hcall.1.1]⟩
                · refine Keyed.Uniq.perm (hok.nodes.cons fun n hn => ?_)
                    (List.perm_append_singleton _ _).symm
                  exact fun heq => hnone (List.mem_map.mpr ⟨n, hn, heq⟩)
                · intro n hn
                  rcases List.mem_append.mp hn with hn | hn
                  · exact hok.own n hn
                  · rw [List.mem_singleton.mp hn]
              fresh := by
                rw [hpools, show s'.nextXp = s.nextXp by rw [hs']; rfl]
                exact hs.fresh_update hp
              refs := fun h => by
                have hholds : s'.holds = s.holds := by rw [hs']; rfl
                rw [hpools, hholds]
                by_cases heq : h = xp
                · subst heq
                  simp only [Function.update_self, hp, Option.elim_some, PropTask.refs,
                    List.count_append, List.map_append, List.map_cons, List.map_nil,
                    List.count_singleton_self]
                  omega
                · simp [heq, Ne.symm heq, PropTask.refs, List.count_append] }
          refine hmove.follows_at hs ht _ hp hpools (by rw [hs']; rfl) (by rw [hs']; exact le_rfl)
            (by simp [hcall.1.1]) (fun _ _ => rfl) (fun h hne => ?_) (fun h hne hserves => ?_)
            fun rest hperm hrest => ?_
          · simp [PropTask.nodesAt, List.filter_append, Ne.symm hne]
          · exact ⟨by simp [hserves.1], hserves.2⟩
          · have hold := not_mem_nodesAt hnone
            rw [hs']
            refine hs.idleStep (p := p) ht hp le_rfl hperm hrest (.inl hold)
              (.inr ⟨{ task := t.uid, pool := xp, taskPropHead := [] }, ?_, rfl, rfl⟩) rfl
              fun hserves => absurd hserves.1 hnone
            have hnil : t.nodeListHead.filter (fun node => node.pool = xp) = [] := hold
            simp [PropTask.nodesAt, List.filter_append, hnil]
  · cases h

/-- A step of a task that only moves a reference. -/
theorem stage_follows (hs : PropOk s) (ht : t ∈ s.tasks) (t' : PropTask) (holds : List ℕ)
    (huid : t'.uid = t.uid) (hpid : t'.pid = t.pid) (hnodes : t'.nodeListHead = t.nodeListHead)
    (hstage : t'.StageOk) (hnode : ∀ h held, t'.stage ≠ .nodeDel h held)
    (hopen : t'.stage ≠ .closed)
    (hrefs : ((t.registerXpListHead ++ t.stage.refs) ++ s.holds).Perm
      ((t'.registerXpListHead ++ t'.stage.refs) ++ holds)) :
    Follows s ((s.setTask t').setHolds holds) .skip := by
  have hok := hs.tasks t ht
  have hmove : TaskStep s ((s.setTask t').setHolds holds) t t' :=
    { tasks := by rw [← huid]; rfl
      uid := huid
      pid := hpid
      count := rfl
      ok := ⟨hnodes ▸ hok.nodes, fun n hn => (hok.own n (hnodes ▸ hn)).trans huid.symm, hstage⟩
      fresh := hs.fresh
      refs := fun h => by
        have hcnt := hrefs.count_eq h
        simp only [List.count_append] at hcnt
        simp only [PropTask.refs, hnodes, List.count_append, PropState.setTask, PropState.setHolds]
        omega }
  exact hmove.skip hs ht rfl rfl (fun _ => rfl) hnodes
    (fun xp hserves => ⟨hnodes ▸ hserves.1, hnode xp⟩) fun _ => hopen

theorem unregister_follows (hs : PropOk s) (ht : t ∈ s.tasks) {xp : ℕ}
    (h : propUnregister s t xp = some s') : Follows s s' .skip := by
  unfold propUnregister at h
  split at h
  · rename_i hcall
    obtain rfl := Option.some.inj h
    refine stage_follows hs ht _ _ rfl rfl rfl (by simp [PropTask.StageOk, hcall.1])
      (by simp [hcall.1]) (by simp [hcall.1]) ?_
    simp only [hcall.1, PropStage.refs, List.append_nil]
    exact ((List.perm_cons_erase hcall.2).append_right _).trans List.perm_middle.symm
  · cases h

theorem callOk_of_check {xp : Option ℕ} {arg : XsmPropOpArg}
    (h : ioctlXsmemPoolPropOp s t xp arg = .ok ()) :
    CallOk xp arg ∧ ∀ h ∈ xp, h ∈ t.nodeListHead.map PropNode.pool := by
  unfold ioctlXsmemPoolPropOp at h
  split at h
  · cases h
  split at h
  · cases h
  rename_i howner hshort
  have hcall : arg.propLen < PROP_NAME_MAX_LEN ∧ (arg.op = XSMEM_PROP_OP_SET →
      arg.owner = XSMEM_PROP_OWNER_TASK ∨ arg.owner = XSMEM_PROP_OWNER_TASK_GRP) := by
    refine ⟨by omega, fun hset => ?_⟩
    by_contra hnot
    push Not at hnot
    exact howner ⟨hset, hnot⟩
  cases xp with
  | none =>
      simp only [] at h
      split at h
      · cases h
      · rename_i hgrp
        exact ⟨⟨hcall.1, hcall.2, fun hset hown => absurd ⟨hset, hown⟩ hgrp⟩, by simp⟩
  | some xp =>
      simp only [] at h
      split at h
      · cases h
      · split at h
        · rename_i hnode
          refine ⟨⟨hcall.1, hcall.2, by simp⟩, fun h hin => ?_⟩
          rw [Option.mem_some_iff] at hin
          exact hin ▸ node_isSome.mp hnode
        · cases h

theorem propOp_follows (hs : PropOk s) (ht : t ∈ s.tasks) {xp : Option ℕ} {arg : XsmPropOpArg}
    (h : propOp s t xp arg = some s') : Follows s s' .skip := by
  unfold propOp at h
  split at h
  · rename_i hcall
    cases hcheck : ioctlXsmemPoolPropOp s t xp arg with
    | error e =>
        simp only [hcheck] at h
        exact Option.some.inj h ▸ .refl hs
    | ok _ =>
        simp only [hcheck] at h
        obtain rfl := Option.some.inj h
        refine stage_follows hs ht _ _ rfl rfl rfl (callOk_of_check hcheck)
          (by simp [PropTask.setStage]) (by simp [PropTask.setStage]) ?_
        simp only [hcall.1.1, PropTask.setStage, PropStage.refs, List.append_nil,
          List.append_assoc]
        refine List.Perm.append_left _ ?_
        cases xp with
        | none => exact List.Perm.refl _
        | some xp =>
            have hin : xp ∈ s.holds := hcall.2 (by simp)
            simpa using List.perm_cons_erase hin
  · cases h

theorem detach_follows (hs : PropOk s) (ht : t ∈ s.tasks) {xp : ℕ}
    (h : propDetach s t xp = some s') : Follows s s' .skip := by
  unfold propDetach at h
  split at h
  · rename_i hcall
    split at h
    · rename_i hnode
      obtain rfl := Option.some.inj h
      refine stage_follows hs ht _ _ rfl rfl rfl (node_isSome.mp hnode)
        (by simp [PropTask.setStage]) (by simp [PropTask.setStage]) ?_
      simp only [hcall.1.1, PropTask.setStage, PropStage.refs, if_true, List.append_nil,
        List.append_assoc]
      exact List.Perm.append_left _ (List.perm_cons_erase hcall.2)
    · exact Option.some.inj h ▸ .refl hs
  · cases h

theorem releaseNode_follows (hs : PropOk s) (ht : t ∈ s.tasks) {xp : ℕ}
    (h : propReleaseNode s t xp = some s') : Follows s s' .skip := by
  unfold propReleaseNode at h
  split at h
  · rename_i hcall
    obtain rfl := Option.some.inj h
    refine stage_follows hs ht (t.setStage (.grpPropDel xp false)) s.holds rfl rfl rfl
      (node_isSome.mp hcall.2.2) (by simp [PropTask.setStage]) (by simp [PropTask.setStage]) ?_
    simp [hcall.1, PropTask.setStage, PropStage.refs]
  · cases h

theorem release_follows (hs : PropOk s) (ht : t ∈ s.tasks) (h : propRelease s t = some s') :
    Follows s s' .skip := by
  unfold propRelease at h
  split at h
  · rename_i hfree
    obtain rfl := Option.some.inj h
    exact stage_follows hs ht { t with releasing := true } s.holds rfl rfl rfl
      (by simp [PropTask.StageOk, hfree.1]) (by simp [hfree.1]) (by simp [hfree.1]) (.refl _)
  · cases h

end OpiaiKernel.Xsmem
