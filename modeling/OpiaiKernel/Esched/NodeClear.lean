import Mathlib.Algebra.Order.Ring.Int
import OpiaiKernel.Esched.NodeFinish

/-!
# The invariant over an exact fetch and the end of a process

A running thread changes its event for one that it asks for.  A process that is
deleted gives back the events of its lists and threads before it is freed.
-/

namespace OpiaiKernel.Esched

variable {cfg : NodeCfg} {s s' : SchedNode} {k : GrpId} {t : ThreadId} {o old cpuid pid : ℕ}

/-! ## Exact events -/

theorem eq_or_of_ite {p : Prop} [Decidable p] {x : Option SchedNode}
    (h : (if p then some s else x) = some s') : s' = s ∨ x = some s' := by
  split at h
  · exact .inl (Option.some.inj h).symm
  · exact .inr h

/-- A fetch finds nothing, or it takes the event and has the old one in hand. -/
theorem schedGetExact_cases {eventId procPri eventPri : ℕ}
    (h : schedGetExact s t eventId cpuid procPri eventPri = some s') :
    s' = s ∨ ∃ o eventList old,
      schedTakeFirst (fun o => schedIsSpecifiedEvent t.1 eventId (s.obj o))
        (s.list (publishList s t.1 procPri eventPri)) = some (o, eventList) ∧
      (s.thread t).status = .run ∧ s.slot t = some old ∧
      s' = schedExclusiveGrpFinish
        { s.setList (publishList s t.1 procPri eventPri) eventList with
          curEventNum := if s.mode t.1 = .schedCpu then s.curEventNum - 1 else s.curEventNum
          calls := .exact t o old :: s.calls } t.1 := by
  dsimp only [schedGetExact] at h
  rcases eq_or_of_ite h with heq | h
  · exact .inl heq
  rcases eq_or_of_ite h with heq | h
  · exact .inl heq
  by_cases hrun : (s.thread t).status = .run
  swap
  · rw [if_pos hrun] at h
    exact .inl (Option.some.inj h).symm
  rw [if_neg (not_not.mpr hrun)] at h
  rcases eq_or_of_ite h with heq | h
  · exact .inl heq
  rcases eq_or_of_ite h with heq | h
  · exact .inl heq
  split at h
  · exact .inl (Option.some.inj h).symm
  next o eventList htake =>
  obtain ⟨old, hslot, rfl⟩ := Option.map_eq_some_iff.mp h
  exact .inr ⟨o, eventList, old, htake, hrun, hslot, rfl⟩

/-- An event is taken out of a list for a thread of the group. -/
theorem CountInv.exact (h : CountInv cfg s) {eventList : SchedEventList ℕ} {procPri eventPri : ℕ}
    (hl : (publishList s t.1 procPri eventPri).InRange cfg)
    (hlen : (eventList.head.length : ℤ) =
      (s.list (publishList s t.1 procPri eventPri)).head.length + -1) :
    CountInv cfg { s.setList (publishList s t.1 procPri eventPri) eventList with
      curEventNum := if s.mode t.1 = .schedCpu then s.curEventNum - 1 else s.curEventNum
      calls := .exact t o old :: s.calls } := by
  refine ⟨inRange_setList h hl, ?_, fun k => ?_⟩
  · have hnode := h.node
    rw [List.countP_cons_of_neg (by simp [Call.uncounted])]
    by_cases hsched : s.mode t.1 = .schedCpu
    · rw [publishList, if_pos hsched] at hl hlen ⊢
      have hsum := schedListNum_update hl hlen
      rw [if_pos hsched, SchedNode.setList, hsum]
      dsimp only
      omega
    · rw [publishList, if_neg hsched, if_neg hsched, SchedNode.setList,
        schedListNum_update_nonSched]
      exact hnode
  · have hgrp := h.grp k
    change s.grpEventNum k =
      nonSchedListNum cfg
          (Function.update s.list (publishList s t.1 procPri eventPri) eventList) k +
        ((if s.mode k = .schedCpu then 0
          else (Call.exact t o old :: s.calls).countP (Call.counted k) : ℕ) : ℤ)
    by_cases hsched : s.mode t.1 = .schedCpu
    · rw [publishList, if_pos hsched, nonSchedListNum_update_sched, hgrp]
      rcases eq_or_ne t.1 k with rfl | hne
      · rw [if_pos hsched, if_pos hsched]
      · rw [List.countP_cons_of_neg (by simp [Call.counted, hne])]
    · rw [publishList, if_neg hsched] at hl hlen ⊢
      rw [nonSchedListNum_update hl hlen k, hgrp]
      rcases eq_or_ne k t.1 with rfl | hne
      · rw [if_pos rfl, if_neg hsched, if_neg hsched,
          List.countP_cons_of_pos (by simp [Call.counted])]
        push_cast
        omega
      · rw [if_neg hne, List.countP_cons_of_neg (by simp [Call.counted, hne.symm]), add_zero]

theorem NodeInv.exact (h : NodeInv cfg s) {eventId procPri eventPri : ℕ}
    (hbusy : ∀ n ∈ s.calls, n.busy t = false)
    (hexact : schedGetExact s t eventId cpuid procPri eventPri = some s') : NodeInv cfg s' := by
  rcases schedGetExact_cases hexact with rfl | ⟨o, eventList, old, htake, hrun, hslot, rfl⟩
  · exact h
  apply NodeInv.exclusiveFinish
  obtain ⟨hmem, hhead, hnum, hmatch⟩ := takeFirst_erase htake
  obtain ⟨-, hgrpId⟩ : (s.obj o).eventId = eventId ∧ (s.obj o).grpId = t.1 :=
    of_decide_eq_true hmatch
  have hsome : s.view.slot t ≠ none := by
    rw [show s.view.slot t = some old from hslot]
    exact Option.some_ne_none old
  have hvalid := (h.thread.slot t hsome).1
  refine h.step (fun k => .refl _) (fun _ hp => hp) (fun o => ⟨rfl, fun _ hm => hm⟩)
    (fun n hn => ?_) (fun l o' ho' => Or.inl ?_) (fun u o' ho' => Or.inl ho')
    (h.thread.exactBegin hvalid hslot hrun hbusy) (h.custody.take hmem hhead hnum)
    (h.count.exact (h.count.inRange_of_mem hmem) (CountInv.erase_length hmem hhead))
  · rcases List.mem_cons.mp hn with rfl | hn
    · exact Or.inr hgrpId
    · exact Or.inl hn
  · rcases eq_or_ne l (publishList s t.1 procPri eventPri) with rfl | hne
    · have hold : o' ∈ eventList.head := by simpa [SchedNode.setList] using ho'
      rw [hhead] at hold
      exact List.mem_of_mem_erase hold
    · simpa [SchedNode.setList, Function.update_of_ne hne] using ho'

theorem NodeInv.exactEnd (h : NodeInv cfg s) (hc : .exact t o old ∈ s.calls) :
    NodeInv cfg (schedExactEnd cfg s t o old) := by
  obtain ⟨-, hslot, -⟩ := h.thread.call _ hc
  have hgrpId : (s.obj o).grpId = t.1 := h.event.call _ hc
  have hcustody := (((h.custody_hand hc rfl).takeSlot hslot).enque).putSlot
    (Function.update_self t none s.slot)
  refine h.step (fun k => .refl _) (fun _ hp => hp) (sameEvent_enque cfg _ old)
    (fun n hn => Or.inl (List.mem_of_mem_erase hn)) (fun l o' ho' => Or.inl ho')
    (fun u o' ho' => ?_) ?_ hcustody
    (h.count.move hc rfl rfl h.count.inRange ?_ fun k => ?_)
  · rcases eq_or_ne u t with rfl | hne
    · have heq : some o = some o' := by simpa [schedExactEnd, SchedNode.setSlot] using ho'
      obtain rfl := Option.some.inj heq
      exact Or.inr ((sameEvent_enque cfg s old o).1.trans hgrpId)
    · left
      simpa [schedExactEnd, schedFreeThreadEvent, schedEventEnqueLock, SchedNode.setSlot,
        Function.update_of_ne hne] using ho'
  · have hend := h.thread.exactEnd hc
    have hidem : Function.update (Function.update s.view.slot t none) t (some o) =
        Function.update s.view.slot t (some o) := Function.update_idem _ _ _
    rw [← hidem] at hend
    exact hend
  · simp [Call.uncounted, schedExactEnd, schedFreeThreadEvent, schedEventEnqueLock,
      SchedNode.setSlot]
  · by_cases hsched : s.mode t.1 = .schedCpu
    · rcases eq_or_ne k t.1 with rfl | hne
      · simp [schedExactEnd, schedFreeThreadEvent, schedEventEnqueLock, SchedNode.setSlot,
          hsched]
      · simp [Call.counted, schedExactEnd, schedFreeThreadEvent, schedEventEnqueLock,
          SchedNode.setSlot, hsched, hne.symm]
    · rcases eq_or_ne k t.1 with rfl | hne
      · simp [Call.counted, schedExactEnd, schedFreeThreadEvent, schedEventEnqueLock,
          SchedNode.setSlot, hsched]
        omega
      · simp [Call.counted, schedExactEnd, schedFreeThreadEvent, schedEventEnqueLock,
          SchedNode.setSlot, hsched, hne, hne.symm]

/-! ## The end of a process -/

/-- No other slot changes when the event of a thread is freed. -/
theorem mem_slot_free (cfg : NodeCfg) {u : ThreadId} {o' : ℕ}
    (h : o' ∈ (schedFreeThreadEvent cfg s t o).slot u) : o' ∈ s.slot u := by
  rcases eq_or_ne u t with rfl | hne
  · simp [schedFreeThreadEvent, schedEventEnqueLock, SchedNode.setSlot] at h
  · simpa [schedFreeThreadEvent, schedEventEnqueLock, SchedNode.setSlot,
      Function.update_of_ne hne] using h

theorem NodeInv.setMaxEventNum (h : NodeInv cfg s) (maxEventNum : GrpId → ℕ → ℕ) :
    NodeInv cfg { s with maxEventNum } :=
  h.threads ⟨rfl, rfl, rfl, rfl, rfl, rfl, fun _ hp => hp⟩ (fun _ => .refl _) rfl h.thread

theorem NodeInv.delete (h : NodeInv cfg s) (pid : ℕ) :
    NodeInv cfg { s with gone := Function.update s.gone pid true } := by
  refine h.threads ⟨rfl, rfl, rfl, rfl, rfl, rfl, fun p hp => ?_⟩ (fun _ => .refl _) rfl h.thread
  rcases eq_or_ne p pid with rfl | hne
  · simp
  · simpa [Function.update_of_ne hne] using hp

theorem NodeInv.clearThread (h : NodeInv cfg s)
    (hfree : ∀ n ∈ s.calls, n.holdsProc t.1.1 = false) (ht : t.2 ∈ (s.grp t.1).thread) :
    NodeInv cfg (schedClearCurNonSchedEvent cfg s t) := by
  have hvalid : s.view.valid t = true := ((h.group t.1).thread_iff t.2).mp ht
  have hclear := h.thread.clear hvalid hfree
  unfold schedClearCurNonSchedEvent
  split
  · exact h
  split
  · next hslot =>
      have hself : Function.update s.view.slot t none = s.view.slot :=
        (show s.view.slot t = none from hslot) ▸ Function.update_eq_self t s.view.slot
      refine h.threads ⟨rfl, rfl, rfl, rfl, rfl, rfl, fun _ hp => hp⟩ (same_setStatus s t .idle)
        rfl ?_
      rw [view_setStatus]
      rwa [hself] at hclear
  · next o hslot =>
      have hsame := same_setStatus (schedFreeThreadEvent cfg s t o) t .idle
      refine h.step hsame (fun _ hp => hp) (sameEvent_enque cfg _ o) (fun n hn => Or.inl hn)
        (fun l o' ho' => Or.inl ho') (fun u o' ho' => Or.inl (mem_slot_free cfg ho')) ?_
        (h.custody.takeSlot hslot).enque
        (h.count.calls rfl rfl rfl (fun k => Or.inl (hsame k).schedMode) rfl fun k => rfl)
      rw [view_setStatus]
      exact hclear

theorem NodeInv.clearEvent (h : NodeInv cfg s) (hmode : s.mode k = .nonSchedCpu) (eventPri : ℕ) :
    NodeInv cfg (schedClearNonSchedEvent cfg s k eventPri) := by
  unfold schedClearNonSchedEvent
  split
  · exact h
  next o eventList htake =>
  obtain ⟨hmem, hhead, hnum, -⟩ := takeFirst_erase htake
  have hl := h.count.inRange_of_mem hmem
  refine h.step (fun k => .refl _) (fun _ hp => hp) (sameEvent_enque cfg _ o)
    (fun n hn => Or.inl hn) (fun l o' ho' => Or.inl ?_) (fun u o' ho' => Or.inl ho') h.thread
    (h.custody.take hmem hhead hnum).enque 
    ⟨fun l' hl' => inRange_setList h.count hl l' hl', ?_, fun k' => ?_⟩
  · rcases eq_or_ne l (.nonSched k eventPri) with rfl | hne
    · have hold : o' ∈ eventList.head := by
        simpa [schedEventEnqueLock, SchedNode.setList] using ho'
      rw [hhead] at hold
      exact List.mem_of_mem_erase hold
    · simpa [schedEventEnqueLock, SchedNode.setList, Function.update_of_ne hne] using ho'
  · change s.curEventNum + s.calls.countP Call.uncounted =
      schedListNum cfg (Function.update s.list (.nonSched k eventPri) eventList)
    rw [schedListNum_update_nonSched]
    exact h.count.node
  · have hgrp := h.count.grp k'
    have hsum := nonSchedListNum_update hl (CountInv.erase_length hmem hhead) k'
    change Function.update s.grpEventNum k (s.grpEventNum k - 1) k' =
      nonSchedListNum cfg (Function.update s.list (.nonSched k eventPri) eventList) k' +
        ((if s.mode k' = .schedCpu then 0 else s.calls.countP (Call.counted k') : ℕ) : ℤ)
    rw [hsum]
    rcases eq_or_ne k' k with rfl | hne
    · rw [Function.update_self, if_pos rfl]
      omega
    · rw [Function.update_of_ne hne, if_neg hne, add_zero]
      exact hgrp

/-- The groups of a process are forgotten that has no call, no cpu and no event. -/
theorem ThreadInv.forget {v v' : ThreadView} (h : ThreadInv cfg v)
    (hmode : ∀ k, v'.mode k = if k.1 = pid then .uninit else v.mode k)
    (hthread : ∀ t, t.1.1 ≠ pid → v'.valid t = v.valid t ∧ v'.bind t = v.bind t ∧
      v'.status t = v.status t ∧ v'.wait t = v.wait t)
    (hnew : ∀ t, t.1.1 = pid → v'.status t = .idle) (hslot : v'.slot = v.slot)
    (hcur : v'.cur = v.cur) (hcalls : v'.calls = v.calls)
    (hnocur : ∀ c t, v.cur c = some t → t.1.1 ≠ pid)
    (hnoslot : ∀ t, t.1.1 = pid → v.slot t = none)
    (hnocall : ∀ n ∈ v.calls, n.holdsProc pid = false) : ThreadInv cfg v' := by
  have hmode' {k : GrpId} (hk : k.1 ≠ pid) : v'.mode k = v.mode k := by rw [hmode, if_neg hk]
  have hgone {t : ThreadId} (ht : t.1.1 = pid) : v'.mode t.1 = .uninit := by
    rw [hmode, if_pos ht]
  have hbound {c : ℕ} {t : ThreadId} (ht : t.1.1 ≠ pid) (hb : Bound v c t) : Bound v' c t := by
    obtain ⟨hvalid, hbind, -, -⟩ := hthread t ht
    exact ⟨(hmode' ht).trans hb.mode, hvalid.trans hb.valid, hbind.trans hb.bind⟩
  have hok {n : Call} (hn : n ∈ v.calls) : CallOk cfg v' n := by
    have hnot := hnocall n hn
    have hold := h.call n hn
    cases n with
    | publish | alloced | checked | refused | adding | added | failed => trivial
    | search c owner => simpa only [CallOk, hslot, hcur] using hold
    | took c owner o => simpa only [CallOk, hslot, hcur] using hold
    | found c owner t =>
        simp only [Call.holdsProc, Bool.or_eq_false_iff, decide_eq_false_iff_not] at hnot
        obtain ⟨hc, howner, hs, hb⟩ := hold
        exact ⟨hc, hcur ▸ howner, hslot ▸ hs, hbound hnot.1 hb⟩
    | finish t why o =>
        obtain ⟨hvalid, -, hstatus, hwait⟩ := hthread t (by simpa [Call.holdsProc] using hnot)
        have hm : v'.mode t.1 = v.mode t.1 := hmode' (by simpa [Call.holdsProc] using hnot)
        simpa only [CallOk, hslot, hcur, hvalid, hstatus, hwait, hm] using hold
    | entered t c =>
        obtain ⟨hvalid, -, hstatus, hwait⟩ := hthread t (by simpa [Call.holdsProc] using hnot)
        have hm : v'.mode t.1 = v.mode t.1 := hmode' (by simpa [Call.holdsProc] using hnot)
        simpa only [CallOk, hslot, hvalid, hstatus, hwait, hm] using hold
    | sleeping t c =>
        obtain ⟨hvalid, -, hstatus, hwait⟩ := hthread t (by simpa [Call.holdsProc] using hnot)
        have hm : v'.mode t.1 = v.mode t.1 := hmode' (by simpa [Call.holdsProc] using hnot)
        simpa only [CallOk, hvalid, hstatus, hwait, hm] using hold
    | woken t c =>
        obtain ⟨hvalid, -, -, -⟩ := hthread t (by simpa [Call.holdsProc] using hnot)
        have hm : v'.mode t.1 = v.mode t.1 := hmode' (by simpa [Call.holdsProc] using hnot)
        simpa only [CallOk, hvalid, hm] using hold
    | exact t o old =>
        obtain ⟨hvalid, -, hstatus, -⟩ := hthread t (by simpa [Call.holdsProc] using hnot)
        simpa only [CallOk, hslot, hvalid, hstatus] using hold
  refine ⟨hcalls ▸ h.busy, hcalls ▸ h.selects, fun t hm => ?_, fun n hn => hok (hcalls ▸ hn),
    fun c t ht => ?_, fun t ht => ?_, fun t hsched hstatus => ?_, fun t hsome => ?_⟩
  · by_cases ht : t.1.1 = pid
    · rw [hgone ht] at hm
      cases hm
    · rw [hcalls]
      exact h.waits t (hmode' ht ▸ hm)
  · have ht' : v.cur c = some t := hcur ▸ ht
    obtain ⟨hc, hb⟩ := h.cur c t ht'
    exact ⟨hc, hbound (hnocur c t ht') hb⟩
  · by_cases hp : t.1.1 = pid
    · exact hnew t hp
    · obtain ⟨hvalid, -, hstatus, -⟩ := hthread t hp
      rw [hstatus]
      exact h.fresh t (hvalid ▸ ht)
  · by_cases hp : t.1.1 = pid
    · exact absurd (hnew t hp) hstatus
    · obtain ⟨-, hbind, hst, -⟩ := hthread t hp
      rw [hcur, hbind]
      exact h.active t (hmode' hp ▸ hsched) (hst ▸ hstatus)
  · rw [hslot] at hsome
    have hp : t.1.1 ≠ pid := fun hp => hsome (hnoslot t hp)
    obtain ⟨hval, hsched, hnon⟩ := h.slot t hsome
    obtain ⟨hvalid, hbind, hst, -⟩ := hthread t hp
    rw [hmode' hp, hvalid, hbind, hst, hcur, hcalls]
    exact ⟨hval, hsched, hnon⟩

/-- No thread of a cleared process has an event. -/
theorem NodeInv.slot_of_cleared (h : NodeInv cfg s)
    (hfree : ∀ n ∈ s.calls, n.holdsProc pid = false) (hcleared : ProcCleared cfg s pid)
    (ht : t.1.1 = pid) : s.slot t = none := by
  by_contra hsome
  obtain ⟨hvalid, hsched, hnon⟩ := h.thread.slot t hsome
  by_cases hmode : s.view.mode t.1 = .schedCpu
  · rcases hsched hmode with hcur | ⟨owner, hfnd⟩
    · exact hcleared.1 _ (h.thread.cur _ t hcur).1 t hcur ht
    · have hnot := hfree _ hfnd
      simp [Call.holdsProc, ht] at hnot
  · have hinit : s.mode t.1 ≠ .uninit := h.init_of_valid hvalid
    have hnonsched : s.mode t.1 = .nonSchedCpu := by
      cases hm : s.mode t.1 with
      | uninit => exact absurd hm hinit
      | nonSchedCpu => rfl
      | schedCpu => exact absurd hm hmode
    have hgid : t.1.2 < cfg.grpNum := by
      by_contra hge
      exact hinit (h.small t.1 (not_lt.mp hge))
    subst ht
    have hthread := ((h.group t.1).thread_iff t.2).mpr hvalid
    have hidle := (hcleared.2 t.1.2 hgid hnonsched).1 t.2 hthread
    rw [show s.view.status t = .idle from hidle] at hnon
    cases hnon hmode

/-- No list of a cleared process has an event. -/
theorem NodeInv.list_of_cleared (h : NodeInv cfg s) (hcleared : ProcCleared cfg s pid)
    (hk : k.1 = pid) (eventPri : ℕ) : (s.list (.nonSched k eventPri)).head = [] := by
  by_contra hne
  obtain ⟨o, ho⟩ := List.exists_mem_of_ne_nil _ hne
  obtain ⟨hnamed, hmode⟩ := h.event.list _ o ho
  have hl : eventPri < cfg.eventPriNum := h.count.inRange_of_mem ho
  have hgid : k.2 < cfg.grpNum := by
    by_contra hge
    exact hnamed.mode (h.small k (not_lt.mp hge))
  subst hk
  rcases (hcleared.2 k.2 hgid hmode).2 with hzero | hempty
  · have hgrp := h.count.grp k
    rw [show s.grpEventNum k = 0 from hzero] at hgrp
    have hpos : (0 : ℤ) < nonSchedListNum cfg s.list k := by
      refine Finset.sum_pos' (fun _ _ => Int.natCast_nonneg _)
        ⟨eventPri, Finset.mem_range.mpr hl, ?_⟩
      exact Int.natCast_pos.mpr (List.length_pos_of_mem ho)
    omega
  · exact hne (hempty eventPri hl)

/-- The lists and the counters stay but for their depths. -/
theorem Custody.relist {que : QueId → SchedEventQue} {list list' : ListId → SchedEventList ℕ}
    {slot : ThreadId → Option ℕ} {hands : List ℕ} (h : Custody cfg que list slot hands)
    (hhead : ∀ l, (list' l).head = (list l).head)
    (hnum : ∀ l, (list' l).curNum = (list l).curNum) : Custody cfg que list' slot hands := by
  refine ⟨h.place.congr fun p a => ?_, h.home, h.depth, h.ring_nodup,
    fun l => hhead l ▸ h.head_nodup l, fun l => ?_, h.hands_nodup⟩
  · cases p with
    | listed l =>
        simp only [InPlace]
        rw [hhead]
    | free q => exact Iff.rfl
    | slot t => exact Iff.rfl
    | hand => exact Iff.rfl
  · rw [hnum, hhead]
    exact h.curNum l

section Free

variable (h : NodeInv cfg s) (hgone : s.gone pid = true)
  (hfree : ∀ n ∈ s.calls, n.holdsProc pid = false) (hcleared : ProcCleared cfg s pid)

theorem mode_free (cfg : NodeCfg) (s : SchedNode) (pid : ℕ) (k : GrpId) :
    (schedFreeProcess cfg s pid).mode k = if k.1 = pid then .uninit else s.mode k := by
  by_cases hk : k.1 = pid
  · simp [SchedNode.mode, schedFreeProcess, hk, zeroGrpCtx]
  · simp [SchedNode.mode, schedFreeProcess, hk]

theorem grp_free (hk : k.1 ≠ pid) : (schedFreeProcess cfg s pid).grp k = s.grp k :=
  if_neg hk

include h hcleared in
theorem NodeInv.head_free (l : ListId) :
    ((schedFreeProcess cfg s pid).list l).head = (s.list l).head := by
  cases l with
  | sched procPri eventPri => rfl
  | nonSched k eventPri =>
      by_cases hk : k.1 = pid
      · rw [h.list_of_cleared hcleared hk eventPri]
        simp [schedFreeProcess, hk]
      · simp [schedFreeProcess, hk]

include h hcleared in
theorem NodeInv.curNum_free (l : ListId) :
    ((schedFreeProcess cfg s pid).list l).curNum = (s.list l).curNum := by
  cases l with
  | sched procPri eventPri => rfl
  | nonSched k eventPri =>
      by_cases hk : k.1 = pid
      · rw [h.custody.curNum, h.list_of_cleared hcleared hk eventPri]
        simp [schedFreeProcess, hk]
      · simp [schedFreeProcess, hk]

include h hfree hcleared in
theorem NodeInv.slot_free : (schedFreeProcess cfg s pid).slot = s.slot := by
  funext t
  by_cases ht : t.1.1 = pid
  · rw [h.slot_of_cleared hfree hcleared ht]
    simp [schedFreeProcess, ht]
  · simp [schedFreeProcess, ht]

include h hfree hcleared in
theorem NodeInv.thread_free : ThreadInv cfg (schedFreeProcess cfg s pid).view := by
  refine h.thread.forget (mode_free cfg s pid) (fun t ht => ?_) (fun t ht => ?_)
    (h.slot_free hfree hcleared) rfl rfl
    (fun c t hcur => hcleared.1 c (h.thread.cur c t hcur).1 t hcur)
    (fun t ht => h.slot_of_cleared hfree hcleared ht) hfree
  · have hgrp : (schedFreeProcess cfg s pid).thread t = s.thread t := by
      rw [SchedNode.thread, grp_free ht, SchedNode.thread]
    simp [SchedNode.view, hgrp]
  · simp [SchedNode.view, SchedNode.thread, schedFreeProcess, ht, zeroGrpCtx, zeroThreadCtx]

theorem Named.free {k : GrpId} (hnamed : Named s k o) (hk : k.1 ≠ pid) :
    Named (schedFreeProcess cfg s pid) k o := by
  refine ⟨hnamed.grpId, ?_, fun map hmap tid htid => ?_⟩
  · rw [mode_free, if_neg hk]
    exact hnamed.mode
  · rw [grp_free hk]
    exact hnamed.registered map hmap tid htid

include h hgone hfree hcleared in
theorem NodeInv.event_free : EventInv (schedFreeProcess cfg s pid) := by
  refine ⟨fun n hn => ?_, fun l o ho => ?_, fun t o ho => ?_⟩
  · have hold := h.event.call n hn
    have hnot := hfree n hn
    cases n with
    | checked k o => exact Named.free hold (by simpa [Call.holdsProc] using hnot)
    | refused k o => exact Named.free hold (by simpa [Call.holdsProc] using hnot)
    | adding k o => exact Named.free hold (by simpa [Call.holdsProc] using hnot)
    | took c owner o =>
        rcases hold with hdead | ⟨t, ht, hb⟩
        · exact Or.inl hdead
        by_cases hp : t.1.1 = pid
        · left
          have hpid : (s.obj o).pid = pid := by
            rw [← hp, ht]
            rfl
          rw [← hpid] at hgone
          exact hgone
        · refine Or.inr ⟨t, ht, ?_, ?_, ?_⟩
          · exact (mode_free cfg s pid t.1).trans ((if_neg hp).trans hb.mode)
          · have hvalid := hb.valid
            simp only [SchedNode.view, SchedNode.thread] at hvalid ⊢
            rwa [grp_free hp]
          · have hbind := hb.bind
            simp only [SchedNode.view, SchedNode.thread] at hbind ⊢
            rwa [grp_free hp]
    | exact t o old => exact hold
    | _ => trivial
  · rw [h.head_free hcleared] at ho
    have hold := h.event.list l o ho
    cases l with
    | sched procPri eventPri =>
        rcases hold with hdead | ⟨hnamed, hmode⟩
        · exact Or.inl hdead
        by_cases hp : (s.obj o).pid = pid
        · left
          rw [← hp] at hgone
          exact hgone
        · have hmode' := mode_free cfg s pid (s.obj o).grpId
          exact Or.inr ⟨hnamed.free hp, hmode'.trans ((if_neg hp).trans hmode)⟩
    | nonSched k eventPri =>
        have hk : k.1 ≠ pid := by
          intro hk
          rw [h.list_of_cleared hcleared hk eventPri] at ho
          cases ho
        obtain ⟨hnamed, hmode⟩ := hold
        exact ⟨hnamed.free hk, (mode_free cfg s pid k).trans ((if_neg hk).trans hmode)⟩
  · rw [h.slot_free hfree hcleared] at ho
    exact h.event.slot t o ho

include h hfree hcleared in
theorem NodeInv.count_free : CountInv cfg (schedFreeProcess cfg s pid) := by
  refine ⟨fun l hl => ?_, h.count.node, fun k => ?_⟩
  · rw [h.head_free hcleared]
    exact h.count.inRange l hl
  · have hsum : nonSchedListNum cfg (schedFreeProcess cfg s pid).list k =
        nonSchedListNum cfg s.list k := by
      simp only [nonSchedListNum, h.head_free hcleared]
    rw [hsum, mode_free]
    refine (h.count.grp k).trans ?_
    by_cases hk : k.1 = pid
    · have hzero : s.calls.countP (Call.counted k) = 0 := by
        refine List.countP_eq_zero.mpr fun n hn hcounted => ?_
        have hnot := hfree n hn
        cases n <;> simp_all [Call.counted, Call.holdsProc]
      rw [hzero, show (schedFreeProcess cfg s pid).calls = s.calls from rfl, hzero]
      simp
    · rw [if_neg hk]
      rfl

include h hgone hfree hcleared in
/-- The memory of a process is freed when it has no event. -/
theorem NodeInv.free : NodeInv cfg (schedFreeProcess cfg s pid) := by
  refine ⟨h.thread_free hfree hcleared, fun k => ?_, fun k hk => ?_,
    h.event_free hgone hfree hcleared, ?_, h.count_free hfree hcleared⟩
  · by_cases hk : k.1 = pid
    · rw [show (schedFreeProcess cfg s pid).grp k = zeroGrpCtx from if_pos hk]
      exact zeroGrpCtx_mapInv
    · rw [grp_free hk]
      exact h.group k
  · rw [mode_free]
    split
    · rfl
    · exact h.small k hk
  · rw [h.slot_free hfree hcleared]
    exact h.custody.relist (h.head_free hcleared) (h.curNum_free hcleared)

end Free

end OpiaiKernel.Esched
