import OpiaiKernel.Xsmem.PropOpSpec
import OpiaiKernel.Xsmem.TaskProp
import Mathlib.Data.List.Perm.Basic
import Mathlib.Data.List.Count

/-!
# What holds between the steps

The nodes of a pool are those that the tasks have in it, and the references of a
pool are counted: one for each node, for each registration and for each call.  A
property that belongs to one task lives no longer than its creator serves the
list it is in.
-/

namespace OpiaiKernel.Xsmem

/-! ## Nodes, references and owners -/

def PropTask.nodesAt (t : PropTask) (h : ℕ) : List PropNode :=
  t.nodeListHead.filter fun node => node.pool = h

def PropState.nodes (s : PropState) (h : ℕ) : List PropNode := s.tasks.flatMap (·.nodesAt h)

def PropStage.refs : PropStage → List ℕ
  | .op xp _ => xp.toList
  | .grpPropDel h held => if held then [h] else []
  | .taskPropClear h held => if held then [h] else []
  | .nodeDel h held => if held then [h] else []
  | _ => []

def PropTask.refs (t : PropTask) : List ℕ :=
  t.nodeListHead.map PropNode.pool ++ (t.registerXpListHead ++ t.stage.refs)

def PropState.refs (s : PropState) : List ℕ := s.tasks.flatMap PropTask.refs ++ s.holds

/-- A task that has a node in the pool, whose properties there are not yet
cleared. -/
def PropTask.Serves (t : PropTask) (h : ℕ) : Prop :=
  h ∈ t.nodeListHead.map PropNode.pool ∧ ∀ held, t.stage ≠ .nodeDel h held

/-- What the ioctl has checked. -/
structure CallOk (xp : Option ℕ) (arg : XsmPropOpArg) : Prop where
  short : arg.propLen < PROP_NAME_MAX_LEN
  owner : arg.op = XSMEM_PROP_OP_SET →
    arg.owner = XSMEM_PROP_OWNER_TASK ∨ arg.owner = XSMEM_PROP_OWNER_TASK_GRP
  pool : arg.op = XSMEM_PROP_OP_SET → arg.owner = XSMEM_PROP_OWNER_TASK_GRP → xp ≠ none

/-- The node that a task works on is there, and has lost its links when they have
been walked. -/
def PropTask.StageOk (t : PropTask) : Prop :=
  match t.stage with
  | .idle => True
  | .op xp arg => CallOk xp arg ∧ ∀ h ∈ xp, h ∈ t.nodeListHead.map PropNode.pool
  | .grpPropDel h _ => h ∈ t.nodeListHead.map PropNode.pool
  | .taskPropClear h _ => ∃ node ∈ t.nodeListHead, node.pool = h ∧ node.taskPropHead = []
  | .nodeDel h _ => ∃ node ∈ t.nodeListHead, node.pool = h ∧ node.taskPropHead = []
  | .closed => t.nodeListHead = [] ∧ t.registerXpListHead = []

structure TaskOk (t : PropTask) : Prop where
  nodes : Keyed.Uniq PropNode.pool t.nodeListHead
  own : ∀ node ∈ t.nodeListHead, node.task = t.uid
  stage : t.StageOk

/-- A list of properties with the nodes that link them, whose owners are alive. -/
structure ListOk (nodes : List PropNode) (next : ℕ) (head : List XsmProp) (owner : ℕ → Prop) :
    Prop where
  linked : PropLinked nodes head
  below : Below head next
  owned : ∀ q ∈ head, q.owner = XSMEM_PROP_OWNER_TASK → owner q.createPid

structure PropOk (s : PropState) : Prop where
  uids : Keyed.Uniq PropTask.uid s.tasks
  pids : Keyed.Uniq PropTask.pid s.tasks
  uidLe : ∀ t ∈ s.tasks, t.uid ≤ s.uniProcessId
  tasks : ∀ t ∈ s.tasks, TaskOk t
  fresh : ∀ h, s.nextXp ≤ h → s.pools h = none
  refs : ∀ h, (s.pools h).elim 0 PropPool.refcnt = s.refs.count h
  global : ListOk [] s.nextProp s.propListHead
    fun pid => ∃ t ∈ s.tasks, t.pid = pid ∧ t.stage ≠ .closed
  pools : ∀ h xp, s.pools h = some xp → ListOk (s.nodes h) s.nextProp xp.propListHead
    fun pid => ∃ t ∈ s.tasks, t.pid = pid ∧ t.Serves h

/-! ## The state as maps -/

/-- The maps of the state: the global one and that of each pool. -/
def PropState.props (s : PropState) : Option ℕ → Props
  | none => OpiaiKernel.Xsmem.props [] s.propListHead
  | some h => (s.pools h).elim (fun _ => none) fun xp =>
      OpiaiKernel.Xsmem.props (s.nodes h) xp.propListHead

/-- What a step does to the maps. -/
inductive PropEvent
  | skip
  | op (xp : Option ℕ) (uid pid : ℕ) (arg : XsmPropOpArg) (env : PropEnv)
  | leave (xp uid : ℕ)
  | endTask (xp : Option ℕ) (pid : ℕ)

def PropEvent.apply (m : Option ℕ → Props) : PropEvent → Option ℕ → Props
  | .skip => m
  | .op xp uid pid arg env => Function.update m xp ((m xp).op uid pid arg env).2
  | .leave xp uid => Function.update m (some xp) ((m (some xp)).leave uid)
  | .endTask xp pid => Function.update m xp ((m xp).endTask pid)

/-- The next state is in order, and its maps are what the event says. -/
def Follows (s s' : PropState) (e : PropEvent) : Prop :=
  PropOk s' ∧ s'.props = e.apply s.props

/-! ## One task moves -/

theorem nodesAt_eq {t : PropTask} (h : Keyed.Uniq PropNode.pool t.nodeListHead) (xp : ℕ) :
    t.nodesAt xp = (t.node xp).toList := by
  unfold PropTask.nodesAt PropTask.node
  cases hget : Keyed.get PropNode.pool xp t.nodeListHead with
  | none =>
      refine List.filter_eq_nil_iff.mpr fun n hn => ?_
      simpa using Keyed.get_eq_none.mp hget n hn
  | some node =>
      obtain ⟨hin, rfl⟩ := h.get_iff.mp hget
      have hfocus := h.focus hin
      have hperm := hfocus.perm.filter fun n => decide (n.pool = node.pool)
      have hrest : (Keyed.remove PropNode.pool node.pool t.nodeListHead).filter
          (fun n => decide (n.pool = node.pool)) = [] := by
        refine List.filter_eq_nil_iff.mpr fun n hn => ?_
        simpa using hfocus.apart n hn
      rw [List.filter_cons_of_pos (by simp), hrest] at hperm
      exact List.perm_singleton.mp hperm

theorem node_isSome {t : PropTask} {h : ℕ} :
    (t.node h).isSome ↔ h ∈ t.nodeListHead.map PropNode.pool := by
  simp [PropTask.node, Keyed.get, List.find?_isSome]

/-- What one task leaves alone, the counts and the rest of the state apart. -/
structure TaskStep (s s' : PropState) (t t' : PropTask) : Prop where
  tasks : s'.tasks = Keyed.modify PropTask.uid t.uid (fun _ => t') s.tasks
  uid : t'.uid = t.uid
  pid : t'.pid = t.pid
  count : s'.uniProcessId = s.uniProcessId
  ok : TaskOk t'
  fresh : ∀ h, s'.nextXp ≤ h → s'.pools h = none
  refs : ∀ h, (s'.pools h).elim 0 PropPool.refcnt + (t.refs ++ s.holds).count h =
    (s.pools h).elim 0 PropPool.refcnt + (t'.refs ++ s'.holds).count h

/-- One list after the step of a task: its map is `m`, and what belongs to one
task belongs to a process that `owner` allows. -/
structure ListStep (nodes : List PropNode) (next : ℕ) (old new : List XsmProp) (pid : ℕ)
    (serves : Prop) (m : Props) : Prop where
  linked : PropLinked nodes new
  below : Below new next
  owned : ∀ q ∈ new, q.owner = XSMEM_PROP_OWNER_TASK →
    (q ∈ old ∨ q.createPid = pid) ∧ (q.createPid = pid → serves)
  map : OpiaiKernel.Xsmem.props nodes new = m

/-- Nodes of other tasks have other tasks. -/
theorem PropOk.rest_task {s : PropState} (hs : PropOk s) {t : PropTask} {others : List PropTask}
    (hf : Keyed.Focus PropTask.uid s.tasks t others) {xp : ℕ} :
    ∀ n ∈ others.flatMap (·.nodesAt xp), n.task ≠ t.uid := by
  intro n hn heq
  obtain ⟨u, hu, hnu⟩ := List.mem_flatMap.mp hn
  have htask := (hs.tasks u (hf.mem_iff.mpr (.inr hu))).own n (List.mem_filter.mp hnu).1
  exact hf.apart u hu (htask.symm.trans heq)

namespace TaskStep

variable {s s' : PropState} {t t' : PropTask}

theorem focus (hs : PropOk s) (ht : t ∈ s.tasks) (h : TaskStep s s' t t') :
    ∃ others, Keyed.Focus PropTask.uid s.tasks t others ∧
      Keyed.Focus PropTask.uid s'.tasks t' others := by
  have hfocus := hs.uids.focus ht
  refine ⟨_, hfocus, ?_⟩
  rw [h.tasks]
  exact hfocus.modify h.uid

theorem follows (hs : PropOk s) (ht : t ∈ s.tasks) (h : TaskStep s s' t t') {e : PropEvent}
    (hglobal : ListStep [] s'.nextProp s.propListHead s'.propListHead t.pid (t'.stage ≠ .closed)
      (e.apply s.props none))
    (hnone : ∀ xp, s'.pools xp = none → e.apply s.props (some xp) = fun _ => none)
    (hpools : ∀ xp p' rest, s'.pools xp = some p' → (s.nodes xp).Perm (t.nodesAt xp ++ rest) →
      (∀ n ∈ rest, n.task ≠ t.uid) → ListStep (t'.nodesAt xp ++ rest) s'.nextProp
        ((s.pools xp).elim [] PropPool.propListHead) p'.propListHead t.pid (t'.Serves xp)
        (e.apply s.props (some xp))) :
    Follows s s' e := by
  obtain ⟨others, hf, hf'⟩ := h.focus hs ht
  have hpid : Keyed.Uniq PropTask.pid s'.tasks := by
    refine Keyed.Uniq.perm ?_ hf'.perm.symm
    have huniq := hs.pids.perm hf.perm
    rwa [Keyed.Uniq, List.map_cons, h.pid]
  have huid : Keyed.Uniq PropTask.uid s'.tasks := by
    refine Keyed.Uniq.perm ?_ hf'.perm.symm
    have huniq := hs.uids.perm hf.perm
    rwa [Keyed.Uniq, List.map_cons, h.uid]
  have hself : t' ∈ s'.tasks := hf'.mem
  have hnodes : ∀ xp, (s.nodes xp).Perm (t.nodesAt xp ++ others.flatMap (·.nodesAt xp)) :=
    fun xp => hf.perm.flatMap_right _
  have hnodes' : ∀ xp, (s'.nodes xp).Perm (t'.nodesAt xp ++ others.flatMap (·.nodesAt xp)) :=
    fun xp => hf'.perm.flatMap_right _
  have hkeep : ∀ (q : XsmProp) (P P' : PropTask → Prop), (∀ u ∈ others, P u → P' u) →
      ((∃ u ∈ s.tasks, u.pid = q.createPid ∧ P u) ∨ q.createPid = t.pid) →
      (q.createPid = t.pid → P' t') → ∃ u ∈ s'.tasks, u.pid = q.createPid ∧ P' u := by
    intro q P P' himp hor hserve
    by_cases hq : q.createPid = t.pid
    · exact ⟨t', hself, h.pid.trans hq.symm, hserve hq⟩
    · obtain ⟨u, hu, hup, hP⟩ := hor.resolve_right hq
      rcases hf.mem_iff.mp hu with rfl | hu
      · exact absurd hup.symm hq
      · exact ⟨u, hf'.mem_iff.mpr (.inr hu), hup, himp u hu hP⟩
  refine ⟨⟨huid, hpid, ?_, ?_, h.fresh, ?_, ?_, ?_⟩, ?_⟩
  · intro u hu
    rw [h.count]
    rcases hf'.mem_iff.mp hu with rfl | hu
    · exact h.uid ▸ hs.uidLe t ht
    · exact hs.uidLe u (hf.mem_iff.mpr (.inr hu))
  · intro u hu
    rcases hf'.mem_iff.mp hu with rfl | hu
    · exact h.ok
    · exact hs.tasks u (hf.mem_iff.mpr (.inr hu))
  · intro xp
    have hold := hs.refs xp
    have hcnt := (hf.perm.flatMap_right PropTask.refs).count_eq xp
    have hcnt' := (hf'.perm.flatMap_right PropTask.refs).count_eq xp
    have hmove := h.refs xp
    simp only [PropState.refs, List.count_append, List.flatMap_cons, Nat.cast_add]
      at hold hcnt hcnt' hmove ⊢
    omega
  · refine ⟨hglobal.linked, hglobal.below, fun q hq hown => ?_⟩
    obtain ⟨hor, hserve⟩ := hglobal.owned q hq hown
    exact hkeep q _ _ (fun _ _ => id) (hor.imp_left fun hin => hs.global.owned q hin hown) hserve
  · intro xp p' hp'
    have hl := hpools xp p' _ hp' (hnodes xp) (hs.rest_task hf)
    refine ⟨hl.linked.perm (hnodes' xp).symm, hl.below, fun q hq hown => ?_⟩
    obtain ⟨hor, hserve⟩ := hl.owned q hq hown
    refine hkeep q (·.Serves xp) (·.Serves xp) (fun _ _ => id) (hor.imp_left fun hin => ?_) hserve
    cases hxp : s.pools xp with
    | none => simp [hxp] at hin
    | some p =>
        rw [hxp] at hin
        exact (hs.pools xp p hxp).owned q hin hown
  · funext xp
    cases xp with
    | none => exact hglobal.map
    | some xp =>
        simp only [PropState.props]
        cases hxp : s'.pools xp with
        | none => exact (hnone xp hxp).symm
        | some p' =>
            rw [Option.elim_some, props_perm (hnodes' xp)]
            exact (hpools xp p' _ hxp (hnodes xp) (hs.rest_task hf)).map

end TaskStep

end OpiaiKernel.Xsmem
