import OpiaiKernel.Esched.NodeCustody
import OpiaiKernel.Esched.NodeGroup

/-!
# The events of a node

An event names a group that exists and threads that are registered, until its
process is deleted.  So the cpu that takes an event has a thread for it.
-/

namespace OpiaiKernel.Esched

/-- The event is one of the group, and the threads that it names are
registered. -/
structure Named (s : SchedNode) (k : GrpId) (o : ℕ) : Prop where
  grpId : (s.obj o).grpId = k
  mode : s.mode k ≠ .uninit
  registered : ∀ map ∈ (s.obj o).eventThreadMap, ∀ tid ∈ map, registered (s.grp k) tid = true

/-- What is known about the event in the hands of a call. -/
def CallEvent (s : SchedNode) : Call → Prop
  | .checked k o | .refused k o | .adding k o => Named s k o
  | .took c _ o =>
      s.gone (s.obj o).pid = true ∨ ∃ t : ThreadId, t.1 = (s.obj o).grpId ∧ Bound s.view c t
  | .exact t o _ => (s.obj o).grpId = t.1
  | _ => True

def ListEvent (s : SchedNode) : ListId → ℕ → Prop
  | .sched .., o => s.gone (s.obj o).pid = true ∨
      Named s (s.obj o).grpId o ∧ s.mode (s.obj o).grpId = .schedCpu
  | .nonSched k _, o => Named s k o ∧ s.mode k = .nonSchedCpu

structure EventInv (s : SchedNode) : Prop where
  call : ∀ n ∈ s.calls, CallEvent s n
  list : ∀ l, ∀ o ∈ (s.list l).head, ListEvent s l o
  slot : ∀ t, ∀ o ∈ s.slot t, (s.obj o).grpId = t.1

/-! ## Steps -/

/-- The event stays in its group, and it names no new thread. -/
def SameEvent (s s' : SchedNode) (o : ℕ) : Prop :=
  (s'.obj o).grpId = (s.obj o).grpId ∧
    ∀ map ∈ (s'.obj o).eventThreadMap, map ∈ (s.obj o).eventThreadMap

/-- Groups, registered threads and deleted processes stay. -/
structure Later (s s' : SchedNode) : Prop where
  mode : ∀ k, s.mode k ≠ .uninit → s'.mode k = s.mode k
  keep : ∀ t, (s.thread t).valid = true →
    (s'.thread t).valid = true ∧ (s'.thread t).bindCpuid = (s.thread t).bindCpuid
  gone : ∀ pid, s.gone pid = true → s'.gone pid = true

section Steps

variable {s s' : SchedNode} {k : GrpId} {o c : ℕ} {t : ThreadId}

theorem Later.refl (s : SchedNode) : Later s s :=
  ⟨fun _ _ => rfl, fun _ ht => ⟨ht, rfl⟩, fun _ h => h⟩

/-- The threads of the groups, up to what a wait or a wake-up changes. -/
theorem Later.of_grp (hgrp : s'.grp = s.grp) (hgone : s'.gone = s.gone) : Later s s' := by
  refine ⟨fun k _ => ?_, fun t ht => ?_, fun pid h => hgone ▸ h⟩
  · rw [SchedNode.mode, hgrp, SchedNode.mode]
  · rw [SchedNode.thread, hgrp]
    exact ⟨ht, rfl⟩

theorem Named.later (h : Named s k o) (hlater : Later s s') (hobj : SameEvent s s' o) :
    Named s' k o := by
  refine ⟨hobj.1.trans h.grpId, ?_, fun map hmap tid htid => ?_⟩
  · rw [hlater.mode k h.mode]
    exact h.mode
  · exact (hlater.keep (k, tid) (h.registered map (hobj.2 map hmap) tid htid)).1

theorem Bound.later (h : Bound s.view c t) (hlater : Later s s') : Bound s'.view c t := by
  obtain ⟨hvalid, hbind⟩ := hlater.keep t h.valid
  have hmode : s.mode t.1 = .schedCpu := h.mode
  exact ⟨(hlater.mode t.1 (by simp [hmode])).trans hmode, hvalid, hbind.trans h.bind⟩

theorem CallEvent.later {n : Call} (h : CallEvent s n) (hlater : Later s s')
    (hobj : ∀ o ∈ n.hands, SameEvent s s' o) : CallEvent s' n := by
  cases n with
  | checked k o => exact Named.later h hlater (hobj o (by simp [Call.hands]))
  | refused k o => exact Named.later h hlater (hobj o (by simp [Call.hands]))
  | adding k o => exact Named.later h hlater (hobj o (by simp [Call.hands]))
  | took c owner o =>
      have hgrp : (s'.obj o).grpId = (s.obj o).grpId := (hobj o (by simp [Call.hands])).1
      have hpid : (s'.obj o).pid = (s.obj o).pid := congrArg Prod.fst hgrp
      simp only [CallEvent, hgrp, hpid] at h ⊢
      exact h.imp (hlater.gone _) fun ⟨t, ht, hb⟩ => ⟨t, ht, hb.later hlater⟩
  | exact t o old => exact (hobj o (by simp [Call.hands])).1.trans h
  | _ => trivial

theorem ListEvent.later {l : ListId} (h : ListEvent s l o) (hlater : Later s s')
    (hobj : SameEvent s s' o) : ListEvent s' l o := by
  have hpid : (s'.obj o).pid = (s.obj o).pid := congrArg Prod.fst hobj.1
  cases l with
  | sched p e =>
      simp only [ListEvent, hobj.1, hpid] at h ⊢
      refine h.imp (hlater.gone _) fun ⟨hnamed, hmode⟩ => ⟨hnamed.later hlater hobj, ?_⟩
      rw [hlater.mode _ (by simp [hmode]), hmode]
  | nonSched k e =>
      obtain ⟨hnamed, hmode⟩ := h
      refine ⟨hnamed.later hlater hobj, ?_⟩
      rw [hlater.mode _ (by simp [hmode]), hmode]

/-- Events stay where they are or come where they may be. -/
theorem EventInv.step (h : EventInv s) (hlater : Later s s') (hobj : ∀ o, SameEvent s s' o)
    (hcalls : ∀ n ∈ s'.calls, n ∈ s.calls ∨ CallEvent s' n)
    (hlist : ∀ l, ∀ o ∈ (s'.list l).head, o ∈ (s.list l).head ∨ ListEvent s' l o)
    (hslot : ∀ t, ∀ o ∈ s'.slot t, o ∈ s.slot t ∨ (s'.obj o).grpId = t.1) : EventInv s' := by
  refine ⟨fun n hn => ?_, fun l o ho => ?_, fun t o ho => ?_⟩
  · rcases hcalls n hn with hmem | hnew
    · exact (h.call n hmem).later hlater fun o _ => hobj o
    · exact hnew
  · rcases hlist l o ho with hmem | hnew
    · exact (h.list l o hmem).later hlater (hobj o)
    · exact hnew
  · rcases hslot t o ho with hmem | hnew
    · exact (hobj o).1.trans (h.slot t o hmem)
    · exact hnew

/-- An event that is nowhere else is filled. -/
theorem EventInv.setObj (h : EventInv s) (event : SchedEvent) (calls : List Call)
    (hlist : ∀ l, o ∉ (s.list l).head) (hslot : ∀ t, s.slot t ≠ some o)
    (hcalls : ∀ n ∈ calls, n ∈ s.calls ∧ o ∉ n.hands) :
    EventInv { s with obj := Function.update s.obj o event, calls } := by
  have hlater : Later s { s with obj := Function.update s.obj o event, calls } := .of_grp rfl rfl
  have hobj {o' : ℕ} (hne : o' ≠ o) :
      SameEvent s { s with obj := Function.update s.obj o event, calls } o' := by
    simp [SameEvent, Function.update_of_ne hne]
  refine ⟨fun n hn => ?_, fun l o' ho' => ?_, fun t o' ho' => ?_⟩
  · obtain ⟨hmem, hnot⟩ := hcalls n hn
    exact (h.call n hmem).later hlater fun o' ho' => hobj fun heq => hnot (heq ▸ ho')
  · exact (h.list l o' ho').later hlater (hobj fun heq => hlist l (heq ▸ ho'))
  · have hne : o' ≠ o := by
      rintro rfl
      exact hslot t ho'
    exact (hobj hne).1.trans (h.slot t o' ho')

end Steps

end OpiaiKernel.Esched
