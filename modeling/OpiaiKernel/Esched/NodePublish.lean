import OpiaiKernel.Esched.NodeInv

/-!
# The invariant over a publish

An event leaves its queue, is filled and counted, and is queued in a list; or
the publish fails, and the event goes back.
-/

namespace OpiaiKernel.Esched

variable {cfg : NodeCfg} {s s' : SchedNode} {k : GrpId} {o : ℕ} {c : Call} {event : SchedEvent}

/-! ## Events in hand -/

/-- An event in the hands of a call is nowhere else. -/
theorem NodeInv.in_hand (h : NodeInv cfg s) (hc : c ∈ s.calls) (ho : o ∈ c.hands) :
    o < cfg.eventNum ∧ (∀ l, o ∉ (s.list l).head) ∧ (∀ t, s.slot t ≠ some o) ∧
      o ∉ (s.calls.erase c).flatMap Call.hands ∧ ∀ q, o ∉ (s.que q).ring := by
  have hmem : o ∈ s.hands := List.mem_flatMap.mpr ⟨c, hc, ho⟩
  have hhand : InPlace s.que s.list s.slot s.hands .hand o := hmem
  have hnodup := (hands_perm hc).nodup_iff.mp h.custody.hands_nodup
  refine ⟨h.custody.lt_of_inPlace hhand, fun l => ?_, fun t => ?_, fun hrest => ?_, fun q => ?_⟩
  · exact h.custody.place.notMem_of_ne (q := Place.listed l) hhand (by simp)
  · exact h.custody.place.notMem_of_ne (q := Place.slot t) hhand (by simp)
  · exact (List.nodup_append.mp hnodup).2.2 o ho o hrest rfl
  · exact h.custody.place.notMem_of_ne (q := Place.free q) hhand (by simp)

/-- The custody of an event that a call has. -/
theorem NodeInv.custody_hand (h : NodeInv cfg s) (hc : c ∈ s.calls) (ho : c.hands = [o]) :
    Custody cfg s.que s.list s.slot (o :: (s.calls.erase c).flatMap Call.hands) := by
  have hperm := hands_perm hc
  rw [ho] at hperm
  exact h.custody.perm hperm

/-- A call without an event. -/
theorem NodeInv.custody_rest (h : NodeInv cfg s) (hc : c ∈ s.calls) (hnone : c.hands = []) :
    Custody cfg s.que s.list s.slot ((s.calls.erase c).flatMap Call.hands) := by
  have hperm := hands_perm hc
  rw [hnone] at hperm
  exact h.custody.perm hperm

theorem sameEvent_enque (cfg : NodeCfg) (s : SchedNode) (o o' : ℕ) :
    SameEvent s (schedEventEnqueLock cfg s o) o' := by
  rcases eq_or_ne o' o with rfl | hne
  · simp [SameEvent, schedEventEnqueLock, SchedEvent.grpId]
  · simp [SameEvent, schedEventEnqueLock, Function.update_of_ne hne]

/-- A call gives its event back. -/
theorem NodeInv.enque (h : NodeInv cfg s) (hc : c ∈ s.calls) (ho : c.hands = [o]) {next : List Call}
    (hnext : ∀ n ∈ next, CallEvent s n) (hhands : next.flatMap Call.hands = [])
    (huncounted : next.countP Call.uncounted = if c.uncounted = true then 1 else 0)
    (hcounted : ∀ k, next.countP (Call.counted k) = if c.counted k = true then 1 else 0)
    (hthread : ThreadInv cfg (s.become c next).view) :
    NodeInv cfg ((schedEventEnqueLock cfg s o).become c next) := by
  have hlater : Later s ((schedEventEnqueLock cfg s o).become c next) := .of_grp rfl rfl
  refine h.step (fun k => .refl _) (fun _ hp => hp) (sameEvent_enque cfg s o) (fun n hn => ?_)
    (fun l o' ho' => Or.inl ho') (fun t o' ho' => Or.inl ho') hthread ?_ ?_
  · rcases List.mem_append.mp hn with hn | hn
    · exact Or.inr ((hnext n hn).later hlater fun o' _ => sameEvent_enque cfg s o o')
    · exact Or.inl (List.mem_of_mem_erase hn)
  · have hrest : ((schedEventEnqueLock cfg s o).become c next).hands =
        (s.calls.erase c).flatMap Call.hands := by
      simp only [SchedNode.hands, SchedNode.become, hands_append, hhands, List.nil_append]
      rfl
    rw [hrest]
    exact (h.custody_hand hc ho).enque
  · refine h.count.move hc rfl rfl h.count.inRange ?_ fun k => ?_
    · rw [huncounted]
      split <;> rfl
    · rw [hcounted]
      split_ifs <;> rfl

/-! ## The steps of a publish -/

theorem NodeInv.alloc (h : NodeInv cfg s) {q : QueId} (hc : .publish event ∈ s.calls)
    (halloc : schedAllocEvent s event q = some s') : NodeInv cfg s' := by
  unfold schedAllocEvent at halloc
  split at halloc
  · cases halloc
  · next o ring hring =>
      obtain rfl := Option.some.inj halloc
      refine h.step (fun k => .refl _) (fun _ hp => hp) (fun o => ⟨rfl, fun _ hm => hm⟩)
        (fun n hn => ?_) (fun l o' ho' => Or.inl ho') (fun t o' ho' => Or.inl ho')
        (h.thread.becomePlain hc rfl (by simp [Call.plain]))
        ((h.custody_rest hc rfl).deque hring) ?_
      · rcases List.mem_append.mp hn with hn | hn
        · obtain rfl := List.mem_singleton.mp hn
          exact Or.inr trivial
        · exact Or.inl (List.mem_of_mem_erase hn)
      · exact h.count.move hc rfl rfl h.count.inRange rfl fun k => rfl

theorem NodeInv.allocFail (h : NodeInv cfg s) (hc : .publish event ∈ s.calls) :
    NodeInv cfg (s.become (.publish event) []) :=
  h.become hc ⟨rfl, rfl, rfl, rfl, rfl, rfl, fun _ hp => hp⟩ (fun k => .refl _) rfl (by simp) rfl rfl (fun k => rfl)
    (h.thread.becomePlain hc rfl (by simp))

theorem NodeInv.publish (h : NodeInv cfg s) (eventId : ℕ) (tid : Option ℕ) :
    NodeInv cfg (schedPublishEvent s k eventId tid) := by
  dsimp only [schedPublishEvent]
  split_ifs
  · exact h
  · exact h
  · exact h
  · exact h.start ⟨rfl, rfl, rfl, rfl, rfl, rfl, fun _ hp => hp⟩ (fun k => .refl _) rfl trivial rfl rfl (fun k => rfl)
      (h.thread.startPlain rfl)

/-- An event that its group can handle names registered threads. -/
theorem named_of_canHandle (hinv : GrpMapInv (s.grp event.grpId)) (hobj : s.obj o = event)
    (hcan : schedGrpCanHandleEvent (s.grp event.grpId) event = true) :
    Named s event.grpId o := by
  simp only [schedGrpCanHandleEvent, Bool.and_eq_true, Bool.not_eq_true', List.isEmpty_eq_false_iff,
    ne_eq] at hcan
  obtain ⟨hmap, hown⟩ := hcan
  refine ⟨by rw [hobj], fun hmode => hmap ((hinv.uninit hmode).2.2 _), fun map hmap' tid htid => ?_⟩
  rw [hobj] at hmap'
  rw [Option.mem_def.mp hmap'] at hown
  have hcontains := List.all_eq_true.mp hown tid htid
  exact ((hinv.map_iff _ _).mp (List.contains_iff_mem.mp hcontains)).1

theorem NodeInv.fill (h : NodeInv cfg s) (hc : .alloced event o ∈ s.calls) (ok : Bool) :
    NodeInv cfg (schedPublishFillEvent s event o ok) := by
  obtain ⟨-, hlist, hslot, hrest, -⟩ := h.in_hand hc (o := o) (by simp [Call.hands])
  let filled := { s with obj := Function.update s.obj o event }
  have hfilled (n : Call) (hn : n.plain = true) (hhands : n.hands = [o])
      (huncounted : n.uncounted = false) (hcounted : ∀ k, n.counted k = false)
      (hev : CallEvent filled n) : NodeInv cfg (filled.become (.alloced event o) [n]) := by
    have hevent := h.event.setObj event (s.calls.erase (.alloced event o)) hlist hslot
      fun m hm => ⟨List.mem_of_mem_erase hm, fun ho => hrest (List.mem_flatMap.mpr ⟨m, hm, ho⟩)⟩
    refine ⟨h.thread.becomePlain hc rfl (by simpa using hn), h.group, h.small,
      hevent.step (.of_grp rfl rfl) (fun _ => ⟨rfl, fun _ hm => hm⟩) (fun m hm => ?_)
        (fun l o ho => Or.inl ho) fun t o ho => Or.inl ho, ?_, ?_⟩
    · rcases List.mem_append.mp hm with hm | hm
      · obtain rfl := List.mem_singleton.mp hm
        exact Or.inr (hev.later (.of_grp rfl rfl) fun _ _ => ⟨rfl, fun _ hm => hm⟩)
      · exact Or.inl hm
    · have hcustody := h.custody_hand hc (o := o) rfl
      simpa [SchedNode.hands, SchedNode.become, hhands] using hcustody
    · refine h.count.move hc rfl rfl h.count.inRange ?_ fun k => ?_
      · rw [List.countP_singleton, huncounted]
        rfl
      · rw [List.countP_singleton, hcounted]
        rfl
  dsimp only [schedPublishFillEvent]
  split_ifs with hok htimeout hcan
  · exact h.become hc ⟨rfl, rfl, rfl, rfl, rfl, rfl, fun _ hp => hp⟩ (fun k => .refl _) rfl
      (by simp [CallEvent]) rfl rfl (fun k => rfl) (h.thread.becomePlain hc rfl (by simp [Call.plain]))
  · exact hfilled _ rfl rfl rfl (fun k => rfl) trivial
  · exact hfilled _ rfl rfl rfl (fun k => rfl) trivial
  · refine hfilled _ rfl rfl rfl (fun k => rfl) ?_
    rw [Bool.not_eq_false] at hcan
    exact named_of_canHandle (s := filled) (h.group event.grpId) (Function.update_self _ _ _) hcan

/-- The group has the event of the call. -/
theorem NodeInv.raise (h : NodeInv cfg s) (hc : .checked k o ∈ s.calls) (self : Bool) :
    NodeInv cfg (schedGrpEventNumRaise cfg s k o self) := by
  have hnamed : Named s k o := h.event.call _ hc
  dsimp only [schedGrpEventNumRaise]
  split_ifs with hquota hsched
  · refine h.become hc ⟨rfl, rfl, rfl, rfl, rfl, rfl, fun _ hp => hp⟩ (fun k => .refl _) rfl
      (fun n hn => ?_) rfl rfl (fun k => rfl) (h.thread.becomePlain hc rfl (by simp [Call.plain]))
    obtain rfl := List.mem_singleton.mp hn
    exact hnamed.later (.of_grp rfl rfl) ⟨rfl, fun _ hm => hm⟩
  all_goals
    refine h.step (fun k => .refl _) (fun _ hp => hp) (fun o => ⟨rfl, fun _ hm => hm⟩)
      (fun n hn => ?_) (fun l o' ho' => Or.inl ho') (fun t o' ho' => Or.inl ho')
      (h.thread.becomePlain hc rfl (by simp [Call.plain])) (h.custody_hand hc rfl)
      (h.count.move hc rfl rfl h.count.inRange rfl fun k' => ?_)
    · rcases List.mem_append.mp hn with hn | hn
      · obtain rfl := List.mem_singleton.mp hn
        exact Or.inr (hnamed.later (.of_grp rfl rfl) ⟨rfl, fun _ hm => hm⟩)
      · exact Or.inl (List.mem_of_mem_erase hn)
  · rcases eq_or_ne k' k with rfl | hne
    · simp [hsched]
    · simp [Call.counted, hne.symm]
  · rcases eq_or_ne k' k with rfl | hne
    · simp [hsched, Call.counted, add_right_comm]
    · simp [Call.counted, hne.symm, Function.update_of_ne hne]

theorem NodeInv.lower (h : NodeInv cfg s) (hc : .refused k o ∈ s.calls) :
    NodeInv cfg (schedGrpEventNumLower s k o) :=
  h.become hc ⟨rfl, rfl, rfl, rfl, rfl, rfl, fun _ hp => hp⟩ (fun k => .refl _) rfl
    (by simp [CallEvent]) rfl rfl (fun k => rfl)
    (h.thread.becomePlain hc rfl (by simp [Call.plain]))

theorem NodeInv.giveBack (h : NodeInv cfg s) (hc : .failed k o ∈ s.calls) :
    NodeInv cfg ((schedEventEnqueLock cfg s o).become (.failed k o) []) :=
  h.enque hc rfl (by simp) rfl rfl (fun k => rfl) (h.thread.becomePlain hc rfl (by simp))

/-- A list out of range is not published to. -/
theorem inRange_setList {l : ListId} {eventList : SchedEventList ℕ} (h : CountInv cfg s)
    (hl : l.InRange cfg) (l' : ListId) (hl' : ¬ l'.InRange cfg) :
    ((s.setList l eventList).list l').head = [] := by
  have hne : l' ≠ l := by
    rintro rfl
    exact hl' hl
  rw [SchedNode.setList]
  simpa [Function.update_of_ne hne] using h.inRange l' hl'

/-- An event in hand is queued. -/
theorem NodeInv.queue (h : NodeInv cfg s) {l : ListId} {eventList : SchedEventList ℕ}
    {next : List Call} (hc : .adding k o ∈ s.calls)
    (hadd : schedEventAddTail (s.list l) o = some eventList) (hl : l.InRange cfg)
    (hev : ListEvent s l o) (hplain : ∀ n ∈ next, n.plain = true)
    (hnext : ∀ n ∈ next, CallEvent s n) (hhands : next.flatMap Call.hands = [])
    (hnode : schedListNum cfg s.list + next.countP Call.uncounted =
      schedListNum cfg (s.setList l eventList).list)
    (hgrp : ∀ k', nonSchedListNum cfg s.list k' +
        (if s.mode k' = .schedCpu then 0 else if k = k' then 1 else 0) =
      nonSchedListNum cfg (s.setList l eventList).list k' +
        if s.mode k' = .schedCpu then 0 else (next.countP (Call.counted k') : ℤ)) :
    NodeInv cfg ((s.setList l eventList).become (.adding k o) next) := by
  have hcustody := (h.custody_hand hc rfl).addTail hadd
  refine h.step (fun k => .refl _) (fun _ hp => hp) (fun o => ⟨rfl, fun _ hm => hm⟩)
    (fun n hn => ?_) (fun l' o' ho' => ?_) (fun t o' ho' => Or.inl ho')
    (h.thread.becomePlain hc rfl hplain) ?_
    (h.count.move hc rfl rfl (inRange_setList h.count hl) ?_ fun k' => ?_)
  · rcases List.mem_append.mp hn with hn | hn
    · exact Or.inr ((hnext n hn).later (.of_grp rfl rfl) fun _ _ => ⟨rfl, fun _ hm => hm⟩)
    · exact Or.inl (List.mem_of_mem_erase hn)
  · rcases eq_or_ne l' l with rfl | hne
    · have hmem : o' ∈ eventList.head := by simpa [SchedNode.setList] using ho'
      rcases (mem_of_addTail hadd).mp hmem with hold | rfl
      · exact Or.inl hold
      · exact Or.inr (hev.later (.of_grp rfl rfl) ⟨rfl, fun _ hm => hm⟩)
    · left
      simpa [SchedNode.setList, Function.update_of_ne hne] using ho'
  · have hrest : ((s.setList l eventList).become (.adding k o) next).hands =
        (s.calls.erase (.adding k o)).flatMap Call.hands := by
      simp only [SchedNode.hands, SchedNode.become, hands_append, hhands, List.nil_append]
      rfl
    rw [hrest]
    exact hcustody
  · have hcur : (s.setList l eventList).curEventNum = s.curEventNum := rfl
    simp only [SchedNode.become_curEventNum, SchedNode.become_list, hcur, Call.uncounted, ← hnode]
    simp [add_assoc, add_comm]
  · have hnew := hgrp k'
    have hnum : (s.setList l eventList).grpEventNum = s.grpEventNum := rfl
    simp only [SchedNode.become_grpEventNum, SchedNode.become_list, hnum, Call.counted,
      decide_eq_true_eq]
    omega

theorem NodeInv.add (h : NodeInv cfg s) {procPri eventPri : ℕ} (hc : .adding k o ∈ s.calls)
    (hproc : procPri < cfg.procPriNum) (hevent : eventPri < cfg.eventPriNum) :
    NodeInv cfg (schedPublishAdd s k o procPri eventPri) := by
  have hnamed : Named s k o := h.event.call _ hc
  have hlen {l : ListId} {eventList : SchedEventList ℕ}
      (hadd : schedEventAddTail (s.list l) o = some eventList) :
      (eventList.head.length : ℤ) = (s.list l).head.length + 1 := by
    simp only [schedEventAddTail, Option.ite_none_right_eq_some, Option.some.injEq] at hadd
    obtain ⟨-, rfl⟩ := hadd
    simp
  dsimp only [schedPublishAdd]
  split
  · refine h.step (fun k => .refl _) (fun _ hp => hp) (fun o => ⟨rfl, fun _ hm => hm⟩)
      (fun n hn => ?_) (fun l o' ho' => Or.inl ho') (fun t o' ho' => Or.inl ho')
      (h.thread.becomePlain hc rfl (by simp [Call.plain])) (h.custody_hand hc rfl)
      (h.count.move hc rfl rfl h.count.inRange rfl fun k' => ?_)
    · rcases List.mem_append.mp hn with hn | hn
      · obtain rfl := List.mem_singleton.mp hn
        exact Or.inr trivial
      · exact Or.inl (List.mem_of_mem_erase hn)
    · by_cases hsched : s.mode k = .schedCpu
      · rcases eq_or_ne k' k with rfl | hne
        · simp [hsched]
        · simp [hsched, Call.counted, hne.symm]
      · rcases eq_or_ne k' k with rfl | hne
        · simp [hsched, Call.counted]
          omega
        · simp [hsched, Call.counted, hne.symm, Function.update_of_ne hne]
  · next eventList hadd =>
      by_cases hsched : s.mode k = .schedCpu
      · simp only [publishList, hsched, if_true] at hadd ⊢
        refine h.queue hc hadd ⟨hproc, hevent⟩ (Or.inr ?_) (by simp [Call.plain])
          (by simp [CallEvent]) rfl ?_ fun k' => ?_
        · rw [hnamed.grpId]
          exact ⟨hnamed, hsched⟩
        · exact (schedListNum_update ⟨hproc, hevent⟩ (hlen hadd)).symm
        · rw [SchedNode.setList, nonSchedListNum_update_sched]
          rcases eq_or_ne k k' with rfl | hne
          · simp [hsched]
          · simp [hne, Call.counted]
      · have hmode : s.mode k = .nonSchedCpu := by
          cases hm : s.mode k with
          | uninit => exact absurd hm hnamed.mode
          | schedCpu => exact absurd hm hsched
          | nonSchedCpu => rfl
        simp only [publishList, hsched, if_false] at hadd ⊢
        refine h.queue hc hadd hevent ⟨hnamed, hmode⟩ (by simp) (by simp) rfl ?_ fun k' => ?_
        · rw [SchedNode.setList, schedListNum_update_nonSched]
          simp
        · rw [SchedNode.setList, nonSchedListNum_update hevent (hlen hadd)]
          rcases eq_or_ne k' k with rfl | hne
          · simp [hsched]
          · simp [hne, hne.symm]

/-- The counter of the node is raised. -/
theorem NodeInv.count_added (h : NodeInv cfg s) (hc : .added k ∈ s.calls) :
    NodeInv cfg { s.become (.added k) [] with curEventNum := s.curEventNum + 1 } := by
  refine h.step (fun k => .refl _) (fun _ hp => hp) (fun o => ⟨rfl, fun _ hm => hm⟩)
    (fun n hn => Or.inl (List.mem_of_mem_erase hn)) (fun l o' ho' => Or.inl ho')
    (fun t o' ho' => Or.inl ho') (h.thread.becomePlain hc rfl (by simp)) (h.custody_rest hc rfl)
    (h.count.move hc rfl rfl h.count.inRange ?_ fun k' => ?_)
  · simp [Call.uncounted]
  · simp [Call.counted]

/-! ## Groups and quotas -/

theorem NodeInv.addGrp (h : NodeInv cfg s) (hk : k.2 < cfg.grpNum) (mode : GroupType)
    (threadNum : ℕ) (alloc : Bool) :
    NodeInv cfg (s.setGrp k (schedProcAddGrp (s.grp k) mode threadNum alloc).2) :=
  h.setGrp (schedProcAddGrp_grows (h.group k) (h.fresh k) mode threadNum alloc)
    (schedProcAddGrp_inv (h.group k) mode threadNum alloc) fun hle => absurd hk (by omega)

theorem NodeInv.subscribe (h : NodeInv cfg s) (tid : ℕ) (bitmap : BitVec 64) :
    NodeInv cfg (s.setGrp k (schedThreadSubscribeEvent (s.grp k) tid bitmap).2) := by
  refine h.setGrp (schedThreadSubscribeEvent_grows (h.fresh k) tid bitmap) ?_ fun hle => ?_
  · have hop : grpStep (s.grp k) (.subscribe tid bitmap) =
        some (schedThreadSubscribeEvent (s.grp k) tid bitmap).2 := rfl
    exact grpStep_inv (h.group k) hop
  · have hmode : (s.grp k).schedMode = .uninit := h.small k hle
    unfold schedThreadSubscribeEvent
    split_ifs <;> rfl

end OpiaiKernel.Esched
