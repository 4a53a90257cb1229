import OpiaiKernel.Xsmem.TaskPropSteps

/-!
# Runs

Every step is one event on the maps, from which follow what holds in every state
and that no call meets a pointer that leads nowhere.
-/

namespace OpiaiKernel.Xsmem

variable {s s' : PropState} {t t' : PropTask}

/-! ## Work on a list -/

theorem PropOk.pool_of_ref (hs : PropOk s) {xp : ℕ} (h : xp ∈ s.refs) :
    ∃ p, s.pools xp = some p := by
  cases hp : s.pools xp with
  | some p => exact ⟨p, rfl⟩
  | none =>
      have hcnt := hs.refs xp
      rw [hp, Option.elim_none] at hcnt
      exact absurd h (List.count_eq_zero.mp (by exact_mod_cast hcnt.symm))

/-- A pool in which a task has a node is there. -/
theorem PropOk.pool_of_node (hs : PropOk s) (ht : t ∈ s.tasks) {xp : ℕ}
    (h : xp ∈ t.nodeListHead.map PropNode.pool) : ∃ p, s.pools xp = some p :=
  hs.pool_of_ref (List.mem_append_left _ (List.mem_flatMap.mpr ⟨t, ht, List.mem_append_left _ h⟩))

theorem node_of_mem {xp : ℕ} (h : xp ∈ t.nodeListHead.map PropNode.pool) :
    ∃ node, t.node xp = some node :=
  Option.isSome_iff_exists.mp (node_isSome.mpr h)

/-- The node that the task works on, before and after it is written. -/
theorem setNode_facts (hok : TaskOk t) {xp : ℕ} {node : PropNode} (hnode : t.node xp = some node)
    (node' : PropNode) (hpool : node'.pool = node.pool)
    (htask : node'.task = node.task) :
    t.nodesAt xp = [node] ∧ (t.setNode node').nodesAt xp = [node'] ∧
      (∀ h ≠ xp, (t.setNode node').nodesAt h = t.nodesAt h) ∧
      (t.setNode node').nodeListHead.map PropNode.pool = t.nodeListHead.map PropNode.pool ∧
      Keyed.Uniq PropNode.pool (t.setNode node').nodeListHead ∧
      (∀ n ∈ (t.setNode node').nodeListHead, n.task = t.uid) ∧
      node' ∈ (t.setNode node').nodeListHead ∧ node.pool = xp ∧ node.task = t.uid := by
  obtain ⟨hin, rfl⟩ := hok.nodes.get_iff.mp hnode
  have hfocus := (hok.nodes.focus hin).modify (f := fun _ => node') hpool
  have hlist : (t.setNode node').nodeListHead =
      Keyed.modify PropNode.pool node.pool (fun _ => node') t.nodeListHead := by
    rw [PropTask.setNode, hpool]
  have hmap : (t.setNode node').nodeListHead.map PropNode.pool =
      t.nodeListHead.map PropNode.pool := by
    rw [hlist, Keyed.modify, List.map_map]
    refine List.map_congr_left fun n _ => ?_
    by_cases hn : n.pool = node.pool <;> simp [hn, hpool]
  have huniq : Keyed.Uniq PropNode.pool (t.setNode node').nodeListHead := by
    rw [Keyed.Uniq, hmap]
    exact hok.nodes
  have hat : (t.setNode node').node node.pool = some node' := by
    rw [PropTask.node, hlist, ← hpool]
    exact hpool ▸ hfocus.get
  have hmem : node' ∈ (t.setNode node').nodeListHead := hlist ▸ hfocus.mem
  refine ⟨?_, ?_, fun h hne => ?_, hmap, huniq, fun n hn => ?_, hmem, rfl, hok.own node hin⟩
  · rw [nodesAt_eq hok.nodes, hnode]
    rfl
  · rw [nodesAt_eq huniq, hat]
    rfl
  · have hsame : ((fun n : PropNode => decide (n.pool = h)) ∘ fun n =>
        if n.pool = node.pool then node' else n) = fun n => decide (n.pool = h) := by
      funext n
      by_cases hn : n.pool = node.pool <;> simp [hn, hpool]
    rw [PropTask.nodesAt, PropTask.nodesAt, hlist, Keyed.modify, List.filter_map, hsame]
    exact Keyed.modify_eq_self (f := fun _ => node') fun n hn => by
      have hh : n.pool = h := by simpa using (List.mem_filter.mp hn).2
      exact hh ▸ hne
  · rw [hlist] at hn
    rcases hfocus.mem_iff.mp hn with rfl | hn
    · exact htask.trans (hok.own node hin)
    · exact hok.own n ((hok.nodes.focus hin).mem_iff.mpr (.inr hn))

/-- A step that works on one list of a pool through one node. -/
theorem work_follows (hs : PropOk s) (ht : t ∈ s.tasks) {xp next : ℕ} {p : PropPool}
    {node node' : PropNode} {stage : PropStage} {head : List XsmProp} {holds : List ℕ}
    {e : PropEvent} (hp : s.pools xp = some p) (hnode : t.node xp = some node)
    (hs' : s' = { ((s.setPool xp { p with propListHead := head }).setTask
      ((t.setNode node').setStage stage)).setHolds holds with nextProp := next })
    (hpool : node'.pool = node.pool) (htask : node'.task = node.task)
    (hstage : ((t.setNode node').setStage stage).StageOk) (hopen : stage ≠ .closed)
    (hrefs : (t.stage.refs ++ s.holds).Perm (stage.refs ++ holds)) (hnext : s.nextProp ≤ next)
    (hkeep : ∀ o ≠ some xp, e.apply s.props o = s.props o)
    (hnodeDel : ∀ h ≠ xp, ∀ held, stage ≠ .nodeDel h held)
    (hat : ∀ rest, PropLinked (node :: rest) p.propListHead →
      s.props (some xp) = props (node :: rest) p.propListHead →
      ListStep (node' :: rest) next p.propListHead head t.pid (∀ held, stage ≠ .nodeDel xp held)
        (e.apply s.props (some xp))) : Follows s s' e := by
  obtain ⟨hold, hnew, hothers, hmap, huniq, hown, -, -, -⟩ :=
    setNode_facts (hs.tasks t ht) hnode node' hpool htask
  have hin : xp ∈ t.nodeListHead.map PropNode.pool := node_isSome.mp (by rw [hnode]; rfl)
  have hpools : s'.pools = Function.update s.pools xp (some { p with propListHead := head }) := by
    rw [hs']
    rfl
  have hmove : TaskStep s s' t ((t.setNode node').setStage stage) :=
    { tasks := by rw [hs']; rfl
      uid := rfl
      pid := rfl
      count := by rw [hs']; rfl
      ok := ⟨huniq, hown, hstage⟩
      fresh := by
        rw [hpools, show s'.nextXp = s.nextXp by rw [hs']; rfl]
        exact hs.fresh_update hp
      refs := fun h => by
        have hcnt := hrefs.count_eq h
        simp only [List.count_append] at hcnt
        have hsame : (s'.pools h).elim 0 PropPool.refcnt =
            (s.pools h).elim 0 PropPool.refcnt := by
          rw [hpools]
          by_cases heq : h = xp
          · rw [heq, Function.update_self, hp, Option.elim_some, Option.elim_some]
          · rw [Function.update_of_ne heq]
        have hholds : s'.holds = holds := by rw [hs']; rfl
        have hlist : ((t.setNode node').setStage stage).refs.count h + holds.count h =
            t.refs.count h + s.holds.count h := by
          simp only [PropTask.refs, List.count_append, PropTask.setStage, hmap]
          simp only [PropTask.setNode]
          omega
        rw [hsame, hholds, List.count_append, List.count_append]
        omega }
  refine hmove.follows_at hs ht _ hp hpools (by rw [hs']; rfl) (by rw [hs']; exact hnext) hopen
    hkeep hothers (fun h hne hserves => ⟨?_, hnodeDel h hne⟩) fun rest hperm _ => ?_
  · rw [show ((t.setNode node').setStage stage).nodeListHead = (t.setNode node').nodeListHead
      from rfl, hmap]
    exact hserves.1
  · rw [hold] at hperm
    have hl := hs.pools xp p hp
    have hstep := hat rest (hl.linked.perm hperm)
      (by rw [PropState.props, hp, Option.elim_some, props_perm hperm]; rfl)
    have hnew' : ((t.setNode node').setStage stage).nodesAt xp = [node'] := hnew
    rw [hnew', hp, hs']
    refine ⟨hstep.linked, hstep.below, fun q hq hqown => ?_, hstep.map⟩
    obtain ⟨hor, hserve⟩ := hstep.owned q hq hqown
    refine ⟨hor, fun hpid => ⟨?_, hserve hpid⟩⟩
    rw [show ((t.setNode node').setStage stage).nodeListHead = (t.setNode node').nodeListHead
      from rfl, hmap]
    exact hin

/-! ## Operations -/

theorem ListOk.viewOk {rest : List PropNode} {head : List XsmProp} {next : ℕ} {o : Option PropNode}
    (hlinked : PropLinked (o.toList ++ rest) head) (hbelow : Below head next)
    (halone : o = none → rest = []) :
    ViewOk { head, node := o, nextProp := next } rest :=
  ⟨hlinked, halone, hbelow⟩

theorem CallOk.argOk {xp : Option ℕ} {arg : XsmPropOpArg} {v : PropView} (h : CallOk xp arg)
    (hnode : xp ≠ none → v.node ≠ none) : ArgOk v arg :=
  ⟨h.short, h.owner, fun hset hgrp => hnode (h.pool hset hgrp)⟩

/-- A call on the list of a pool answers with the result of the map. -/
theorem poolCall (hs : PropOk s) (ht : t ∈ s.tasks) {xp : ℕ} {p : PropPool} {node : PropNode}
    {arg : XsmPropOpArg} {env : PropEnv} {rest : List PropNode} (hp : s.pools xp = some p)
    (hnode : t.node xp = some node) (hcall : CallOk (some xp) arg)
    (hkey : ∀ key ∈ env.key, key.length = arg.propLen)
    (hl : PropLinked (node :: rest) p.propListHead) :
    OpRefines t.uid t.pid { head := p.propListHead, node := some node, nextProp := s.nextProp }
      rest arg env := by
  have htask := (setNode_facts (hs.tasks t ht) hnode _ rfl rfl).2.2.2.2.2.2.2.2
  refine op_refines (ListOk.viewOk hl (hs.pools xp p hp).below (by simp))
    (hcall.argOk (by simp)) hkey fun n hn => ?_
  rw [← Option.some.inj hn]
  exact htask

theorem globalCall (hs : PropOk s) {arg : XsmPropOpArg} {env : PropEnv} (hcall : CallOk none arg)
    (hkey : ∀ key ∈ env.key, key.length = arg.propLen) :
    OpRefines t.uid t.pid { head := s.propListHead, node := none, nextProp := s.nextProp } [] arg
      env :=
  op_refines (ListOk.viewOk hs.global.linked hs.global.below fun _ => rfl)
    (hcall.argOk (by simp)) hkey (by simp)

/-- The other nodes of a pool. -/
theorem PropOk.others (hs : PropOk s) (ht : t ∈ s.tasks) {xp : ℕ} {p : PropPool} {node : PropNode}
    (hp : s.pools xp = some p) (hnode : t.node xp = some node) :
    ∃ rest, PropLinked (node :: rest) p.propListHead ∧
      s.props (some xp) = props (node :: rest) p.propListHead := by
  have hperm : (s.nodes xp).Perm (t.nodesAt xp ++
      (Keyed.remove PropTask.uid t.uid s.tasks).flatMap (·.nodesAt xp)) :=
    (hs.uids.focus ht).perm.flatMap_right _
  rw [nodesAt_eq (hs.tasks t ht).nodes, hnode] at hperm
  refine ⟨_, (hs.pools xp p hp).linked.perm hperm, ?_⟩
  rw [PropState.props, hp, Option.elim_some, props_perm hperm]
  rfl

/-- Whatever a task has called for, the list is there, and so is the node. -/
theorem PropOk.call (hs : PropOk s) (ht : t ∈ s.tasks) {xp : Option ℕ} {arg : XsmPropOpArg}
    {env : PropEnv} (hstage : t.stage = .op xp arg)
    (hkey : ∀ key ∈ env.key, key.length = arg.propLen) :
    ∃ v, propCall s t xp arg env = some (((s.props xp).op t.uid t.pid arg env).1, v) := by
  have hok : t.StageOk := (hs.tasks t ht).stage
  rw [PropTask.StageOk, hstage] at hok
  obtain ⟨hcall, hpool⟩ := hok
  cases xp with
  | none =>
      obtain ⟨r, v, hop, -, hr⟩ := globalCall (t := t) hs hcall hkey
      refine ⟨v, ?_⟩
      rw [propCall, PropState.view, Option.bind_some, hop]
      exact congrArg (fun r => some (r, v)) (congrArg Prod.fst hr)
  | some xp =>
      obtain ⟨p, hp⟩ := hs.pool_of_node ht (hpool xp rfl)
      obtain ⟨node, hnode⟩ := node_of_mem (hpool xp rfl)
      obtain ⟨rest, hl, hprops⟩ := hs.others ht hp hnode
      obtain ⟨r, v, hop, -, hr⟩ := poolCall hs ht hp hnode hcall hkey hl
      refine ⟨v, ?_⟩
      rw [propCall, PropState.view, hp, Option.map_some, Option.bind_some, hnode, hop, hprops]
      exact congrArg (fun r => some (r, v)) (congrArg Prod.fst hr)

theorem run_follows (hs : PropOk s) (ht : t ∈ s.tasks) {xp : Option ℕ} {arg : XsmPropOpArg}
    {env : PropEnv} (hstage : t.stage = .op xp arg) (h : propRun s t env = some s') :
    Follows s s' (.op xp t.uid t.pid arg env) := by
  have hok : t.StageOk := (hs.tasks t ht).stage
  rw [PropTask.StageOk, hstage] at hok
  obtain ⟨hcall, hpool⟩ := hok
  simp only [propRun, hstage] at h
  split at h
  · rename_i hkey
    cases xp with
    | none =>
        obtain ⟨r, v, hop, heff, hr⟩ := globalCall (t := t) hs hcall hkey
        have hview : propCall s t none arg env = some (r, v) := by
          rw [propCall, PropState.view, Option.bind_some, hop]
        have hnone : v.node = none := by simpa using heff.node
        simp only [hview, hnone] at h
        have hs' := (Option.some.inj h).symm
        have hmove : TaskStep s s' t (t.setStage .idle) :=
          { tasks := by rw [hs']; rfl
            uid := rfl
            pid := rfl
            count := by rw [hs']; rfl
            ok := ⟨(hs.tasks t ht).nodes, (hs.tasks t ht).own, trivial⟩
            fresh := by rw [hs']; exact hs.fresh
            refs := fun h => by
              rw [hs']
              simp [PropTask.refs, PropTask.setStage, hstage, PropStage.refs, PropState.setHead,
                PropState.setTask, PropState.setHolds, List.count_append] }
        refine hmove.follows hs ht ?_ (fun h hh => ?_) fun h p rest hp hperm _ => ?_
        · rw [hs']
          have hlinked := heff.ok.linked
          rw [PropView.nodes, hnone] at hlinked
          refine ⟨hlinked, heff.ok.below, fun q hq hown => ⟨heff.mine q hq hown, fun _ => by
            simp [PropTask.setStage]⟩, ?_⟩
          have hmap := congrArg Prod.snd hr
          simp only [PropView.props, PropView.nodes, hnone] at hmap
          rw [PropEvent.apply, Function.update_self]
          exact hmap
        · have hold : s.pools h = none := by rw [hs'] at hh; exact hh
          simp only [PropEvent.apply, ne_eq, reduceCtorEq, not_false_eq_true,
            Function.update_of_ne, PropState.props, hold, Option.elim_none]
        · have hold : s.pools h = some p := by rw [hs'] at hp; exact hp
          have hstep := hs.poolStep ht (t.setStage .idle) hold
            (heff.next.trans (show v.nextProp ≤ s'.nextProp by rw [hs'])) hperm
            fun hserves => ⟨hserves.1, by simp [PropTask.setStage]⟩
          rwa [PropEvent.apply, Function.update_of_ne (by simp)]
    | some xp =>
        obtain ⟨p, hp⟩ := hs.pool_of_node ht (hpool xp rfl)
        obtain ⟨node, hnode⟩ := node_of_mem (hpool xp rfl)
        obtain ⟨rest₀, hl₀, -⟩ := hs.others ht hp hnode
        obtain ⟨r, v, hop, heff, -⟩ := poolCall hs ht hp hnode hcall hkey hl₀
        have hview : propCall s t (some xp) arg env = some (r, v) := by
          rw [propCall, PropState.view, hp, Option.map_some, Option.bind_some, hnode, hop]
        obtain ⟨node', hnode', hsame⟩ : ∃ node', v.node = some node' ∧
            (node'.task, node'.pool) = (node.task, node.pool) := by
          simpa [Option.map_eq_some_iff] using heff.node
        simp only [hview, hnode', Option.elim_some, PropState.setHead, hp] at h
        have hs' := (Option.some.inj h).symm
        refine work_follows hs ht hp hnode hs' (congrArg Prod.snd hsame) (congrArg Prod.fst hsame)
          trivial (by simp) ?_ heff.next (fun o ho => Function.update_of_ne ho ..) (by simp)
          fun rest hl hprops => ?_
        · simp [hstage, PropStage.refs]
        · obtain ⟨r₁, v₁, hop₁, heff₁, hr₁⟩ := poolCall hs ht hp hnode hcall hkey hl
          obtain ⟨rfl, rfl⟩ := Prod.mk.inj (Option.some.inj (hop.symm.trans hop₁))
          have hlinked := heff₁.ok.linked
          rw [PropView.nodes, hnode'] at hlinked
          refine ⟨hlinked, heff₁.ok.below, fun q hq hown => ⟨heff₁.mine q hq hown, by simp⟩, ?_⟩
          have hmap := congrArg Prod.snd hr₁
          simp only [PropView.props, PropView.nodes, hnode'] at hmap
          rw [PropEvent.apply, Function.update_self, hprops]
          exact hmap
  · cases h

end OpiaiKernel.Xsmem
