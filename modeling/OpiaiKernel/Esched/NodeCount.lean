import Mathlib.Algebra.BigOperators.Group.Finset.Piecewise
import Mathlib.Algebra.Order.BigOperators.Group.Finset
import OpiaiKernel.Esched.Node

/-!
# The counters of a node

The node and each group count the events of their lists.  The counter of the
node is raised after an event is queued; the one of a group before.
-/

namespace OpiaiKernel.Esched

/-- The list is one that events are published to. -/
def ListId.InRange (cfg : NodeCfg) : ListId → Prop
  | .sched procPri eventPri => procPri < cfg.procPriNum ∧ eventPri < cfg.eventPriNum
  | .nonSched _ eventPri => eventPri < cfg.eventPriNum

/-- The events in the lists of the node. -/
def schedListNum (cfg : NodeCfg) (list : ListId → SchedEventList ℕ) : ℤ :=
  ∑ p ∈ Finset.range cfg.procPriNum, ∑ e ∈ Finset.range cfg.eventPriNum,
    ((list (.sched p e)).head.length : ℤ)

/-- The events in the lists of the group. -/
def nonSchedListNum (cfg : NodeCfg) (list : ListId → SchedEventList ℕ) (k : GrpId) : ℤ :=
  ∑ e ∈ Finset.range cfg.eventPriNum, ((list (.nonSched k e)).head.length : ℤ)

/-- The event is queued, and the counter of the node is not raised yet. -/
def Call.uncounted : Call → Bool
  | .added _ => true
  | _ => false

/-- The call has an event that the group counts. -/
def Call.counted (k : GrpId) : Call → Bool
  | .adding k' _ => k' = k
  | .exact t _ _ => t.1 = k
  | _ => false

structure CountInv (cfg : NodeCfg) (s : SchedNode) : Prop where
  inRange : ∀ l, ¬ l.InRange cfg → (s.list l).head = []
  node : s.curEventNum + s.calls.countP Call.uncounted = schedListNum cfg s.list
  grp : ∀ k, s.grpEventNum k = nonSchedListNum cfg s.list k +
    if s.mode k = .schedCpu then 0 else s.calls.countP (Call.counted k)

section Sums

variable {cfg : NodeCfg} {list : ListId → SchedEventList ℕ} {l : ListId}
  {eventList : SchedEventList ℕ} {n : ℤ}

/-- One list of the node changes its length by `n`. -/
theorem schedListNum_update {p e : ℕ} (hl : (ListId.sched p e).InRange cfg)
    (hn : (eventList.head.length : ℤ) = (list (.sched p e)).head.length + n) :
    schedListNum cfg (Function.update list (.sched p e) eventList) = schedListNum cfg list + n := by
  obtain ⟨hp, he⟩ := hl
  have hterm (p' e' : ℕ) :
      ((Function.update list (.sched p e) eventList (.sched p' e')).head.length : ℤ) =
        (list (.sched p' e')).head.length + if e' = e then if p' = p then n else 0 else 0 := by
    by_cases heq : p' = p ∧ e' = e
    · obtain ⟨rfl, rfl⟩ := heq
      simpa using hn
    · rw [Function.update_of_ne (by simpa using heq)]
      grind
  simp only [schedListNum, hterm, Finset.sum_add_distrib, Finset.sum_ite_eq',
    Finset.mem_range.mpr hp, Finset.mem_range.mpr he, if_true]

theorem schedListNum_update_nonSched {k : GrpId} {e : ℕ} :
    schedListNum cfg (Function.update list (.nonSched k e) eventList) = schedListNum cfg list := by
  simp [schedListNum, Function.update_of_ne]

/-- One list of the group changes its length by `n`. -/
theorem nonSchedListNum_update {k : GrpId} {e : ℕ} (hl : (ListId.nonSched k e).InRange cfg)
    (hn : (eventList.head.length : ℤ) = (list (.nonSched k e)).head.length + n) (k' : GrpId) :
    nonSchedListNum cfg (Function.update list (.nonSched k e) eventList) k' =
      nonSchedListNum cfg list k' + if k' = k then n else 0 := by
  have hterm (e' : ℕ) :
      ((Function.update list (.nonSched k e) eventList (.nonSched k' e')).head.length : ℤ) =
        (list (.nonSched k' e')).head.length + if e' = e then if k' = k then n else 0 else 0 := by
    by_cases heq : k' = k ∧ e' = e
    · obtain ⟨rfl, rfl⟩ := heq
      simpa using hn
    · rw [Function.update_of_ne (by simpa using heq)]
      grind
  simp only [nonSchedListNum, hterm, Finset.sum_add_distrib, Finset.sum_ite_eq',
    Finset.mem_range.mpr hl, if_true]

theorem nonSchedListNum_update_sched {p e : ℕ} (k : GrpId) :
    nonSchedListNum cfg (Function.update list (.sched p e) eventList) k =
      nonSchedListNum cfg list k := by
  simp [nonSchedListNum, Function.update_of_ne]

end Sums

end OpiaiKernel.Esched
