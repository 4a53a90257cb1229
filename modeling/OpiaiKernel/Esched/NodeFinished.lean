import OpiaiKernel.Esched.NodeAccept

/-!
# Accepting and finishing events

A publish accepts its event before the event is queued, and the thread that
finishes it takes the count back.
-/

namespace OpiaiKernel.Esched

variable {cfg : NodeCfg} {s s' : SchedNode} {k : GrpId} {t : ThreadId} {c : Call} {x : ℕ}

/-! ## Places -/

theorem NodeInv.not_hand (h : NodeInv cfg s) {p : Place}
    (hx : InPlace s.que s.list s.slot s.hands p x) (hp : p ≠ .hand) {n : Call} (hn : n ∈ s.calls) :
    x ∉ n.hands := fun hmem =>
  h.custody.place.notMem_of_ne (q := Place.hand) hx hp.symm (List.mem_flatMap.mpr ⟨n, hn, hmem⟩)

/-- The event of a call is in no other hands. -/
theorem NodeInv.not_other (h : NodeInv cfg s) (hc : c ∈ s.calls) (hx : c.hands = [x]) {n : Call}
    (hn : n ∈ s.calls.erase c) : x ∉ n.hands := by
  intro hmem
  have hnodup := (hands_perm hc).nodup_iff.mp h.custody.hands_nodup
  rw [hx, List.singleton_append, List.nodup_cons] at hnodup
  exact hnodup.1 (List.mem_flatMap.mpr ⟨n, hn, hmem⟩)

/-! ## Publishing -/

/-- The count of one id of one group changes. -/
theorem eventNum_update (eventNum : GrpId → ℕ → ℤ) (k : GrpId) (e : ℕ) (d : ℤ) (k' : GrpId)
    (e' : ℕ) :
    Function.update eventNum k (Function.update (eventNum k) e (eventNum k e + d)) k' e' =
      eventNum k' e' + if k = k' ∧ e = e' then d else 0 := by
  rcases eq_or_ne k' k with rfl | hk
  · rcases eq_or_ne e' e with rfl | he
    · simp
    · simp [Function.update_of_ne he, he.symm]
  · simp [Function.update_of_ne hk, hk.symm]

section Publish

variable {event : SchedEvent} {o : ℕ}

theorem AcceptInv.alloc (h : AcceptInv cfg s) {q : QueId} (hc : .publish event ∈ s.calls)
    (halloc : schedAllocEvent s event q = some s') : AcceptInv cfg s' := by
  unfold schedAllocEvent at halloc
  split at halloc
  · cases halloc
  next o ring hring =>
  obtain rfl := Option.some.inj halloc
  have ho : s.accepted o = none := h.free q o (by simp [hring])
  refine h.same rfl (fun o => rfl) (fun _ hp => hp) (fun q' o' ho' => ?_) h.list h.slot
    (fun n hn => ?_) (fun r hr => Or.inl hr) fun k e => ?_
  · rcases eq_or_ne q' q with rfl | hne
    · refine h.free q' o' ?_
      rw [hring]
      exact List.mem_cons_of_mem o (by simpa using ho')
    · exact h.free q' o' (by simpa [Function.update_of_ne hne] using ho')
  · rcases List.mem_append.mp hn with hn | hn
    · obtain rfl := List.mem_singleton.mp hn
      exact Or.inr (by simpa [CallAccept, Call.hands, Call.pending] using ho)
    · exact Or.inl (List.mem_of_mem_erase hn)
  · refine congrArg (fun n : ℕ => s.eventNum k e + (n : ℤ)) ?_
    symm
    exact refusing_keep [.alloced event o] hc rfl (fun _ => rfl) fun _ _ => rfl

theorem AcceptInv.lower (h : AcceptInv cfg s) (hc : .refused k o ∈ s.calls) :
    AcceptInv cfg (schedGrpEventNumLower s k o) := by
  refine h.same rfl (fun o => rfl) (fun _ hp => hp) h.free h.list h.slot (fun n hn => ?_)
    (fun r hr => Or.inl hr) fun k' e => ?_
  · rcases List.mem_append.mp hn with hn | hn
    · obtain rfl := List.mem_singleton.mp hn
      exact Or.inr (h.call (.refused k o) hc)
    · exact Or.inl (List.mem_of_mem_erase hn)
  · have hcalls : (schedGrpEventNumLower s k o).calls =
      [.failed k o] ++ s.calls.erase (.refused k o) := rfl
    have hbecome := refusing_become _ hc hcalls (fun _ => rfl) (k := k') (e := e)
    simp only [Call.refuses, Bool.false_eq_true, if_false, List.countP_singleton,
      decide_eq_true_eq] at hbecome
    have hnum : (schedGrpEventNumLower s k o).eventNum k' e =
        s.eventNum k' e + if k = k' ∧ (s.obj o).eventId = e then -1 else 0 :=
      eventNum_update s.eventNum k (s.obj o).eventId (-1) k' e
    rw [hnum]
    split at hbecome
    · next heq =>
        rw [if_pos heq]
        omega
    · next hne =>
        rw [if_neg hne]
        omega

end Publish

/-! ## Giving an event back -/

theorem eventId_enque (cfg : NodeCfg) (s : SchedNode) (x o : ℕ) :
    ((schedEventEnqueLock cfg s x).obj o).eventId = (s.obj o).eventId := by
  rcases eq_or_ne o x with rfl | hne
  · simp [schedEventEnqueLock]
  · simp [schedEventEnqueLock, Function.update_of_ne hne]

/-- An event goes back to its queue. -/
theorem AcceptInv.give (h : AcceptInv cfg s) (hlt : x < cfg.eventNum)
    (hque : s'.que = (schedEventEnqueLock cfg s x).que)
    (hobj : s'.obj = (schedEventEnqueLock cfg s x).obj)
    (hacc : s'.accepted = (schedEventEnqueLock cfg s x).accepted) (hgone : s'.gone = s.gone)
    (hlist : ∀ l, ∀ o ∈ (s'.list l).head, o ≠ x ∧ o ∈ (s.list l).head)
    (hslot : ∀ t, ∀ o ∈ s'.slot t, o ≠ x ∧ s.accepted o = some (account s o))
    (hcall : ∀ n ∈ s'.calls, n ∈ s.calls ∧ x ∉ n.hands ∨ n.hands = [])
    (hrefusals : s'.refusals = s.refusals)
    (hnum : ∀ k, s.gone k.1 = false → ∀ e,
      s'.eventNum k e + (if s.accepted x = some (k, e) then 1 else 0) + refusing s k e =
        s.eventNum k e + refusing s' k e) : AcceptInv cfg s' := by
  have hnone : s'.accepted x = none := by
    rw [hacc]
    exact Function.update_self x none s.accepted
  have hkeep : ∀ o ≠ x, s'.accepted o = s.accepted o := fun o ho => by
    rw [hacc]
    exact Function.update_of_ne ho none s.accepted
  have haccount (o : ℕ) : account s' o = account s o := by
    rw [account, account, hobj]
    rcases eq_or_ne o x with rfl | hne
    · simp [schedEventEnqueLock, SchedEvent.grpId]
    · simp [schedEventEnqueLock, Function.update_of_ne hne]
  refine h.move x hkeep (fun o _ => haccount o) (fun pid hp => hgone ▸ hp) (fun q o ho => ?_)
    (fun l o ho => Or.inl (hlist l o ho)) (fun t o ho => ?_) (fun n hn => ?_) hrefusals
    fun k hk e hold => ?_
  · rcases eq_or_ne o x with rfl | hne
    · exact Or.inr hnone
    · refine Or.inl ⟨hne, ?_⟩
      rw [hque] at ho
      rcases eq_or_ne q (cfg.que x) with rfl | hq
      · simp only [schedEventEnqueLock, Function.update_self, schedEventEnque] at ho
        split at ho
        · exact ho
        · simpa [hne] using ho
      · simpa [schedEventEnqueLock, Function.update_of_ne hq] using ho
  · obtain ⟨hne, hold⟩ := hslot t o ho
    right
    rw [hkeep o hne, haccount]
    exact hold
  · exact (hcall n hn).imp_right callAccept_of_noHands
  · have hout := outstanding_update hlt hkeep k e
    have hnew := hnum k (hgone ▸ hk) e
    simp only [hnone, reduceCtorEq, if_false] at hout
    by_cases heq : s.accepted x = some (k, e)
    · rw [if_pos heq] at hout hnew
      omega
    · rw [if_neg heq] at hout hnew
      omega

/-- The count of an event that is finished. -/
theorem freed_num (cfg : NodeCfg) {k' : GrpId} {e : ℕ}
    (hacc : s.accepted x = some (t.1, (s.obj x).eventId)) :
    (schedFreeThreadEvent cfg s t x).eventNum k' e +
      (if s.accepted x = some (k', e) then 1 else 0) = s.eventNum k' e := by
  have hnum : (schedFreeThreadEvent cfg s t x).eventNum k' e =
      s.eventNum k' e + if t.1 = k' ∧ (s.obj x).eventId = e then -1 else 0 :=
    eventNum_update s.eventNum t.1 (s.obj x).eventId (-1) k' e
  rw [hnum, hacc]
  by_cases heq : t.1 = k' ∧ (s.obj x).eventId = e
  · obtain ⟨rfl, rfl⟩ := heq
    simp
  · have hne : ¬ some (t.1, (s.obj x).eventId) = some (k', e) := by simpa using heq
    rw [if_neg heq, if_neg hne]
    omega

/-- An event is taken out of its list. -/
theorem AcceptInv.take (h : AcceptInv cfg s) {o : ℕ} {l : ListId} {eventList : SchedEventList ℕ}
    (hhead : eventList.head = (s.list l).head.erase o) (l' : ListId) :
    ∀ o' ∈ ((s.setList l eventList).list l').head, s.accepted o' = some (account s o') := by
  intro o' ho'
  rcases eq_or_ne l' l with rfl | hne
  · have hold : o' ∈ eventList.head := by simpa [SchedNode.setList] using ho'
    rw [hhead] at hold
    exact h.list l' o' (List.mem_of_mem_erase hold)
  · exact h.list l' o' (by simpa [SchedNode.setList, Function.update_of_ne hne] using ho')

theorem AcceptInv.takeNonSched (h : AcceptInv cfg s) {cpuid : ℕ}
    (hc : .entered t cpuid ∈ s.calls) (eventPri : ℕ) :
    AcceptInv cfg (schedTakeNonSched s t cpuid eventPri) := by
  unfold schedTakeNonSched
  split
  · exact h
  next o eventList htake =>
  obtain ⟨hmem, hhead, -, -⟩ := takeFirst_erase htake
  have hacc : s.accepted o = some (account s o) := h.list _ o hmem
  refine AcceptInv.become ?_ hc rfl (by simp)
  refine AcceptInv.setGrp ?_ _ _
  refine h.same rfl (fun _ => rfl) (fun _ hp => hp) h.free (h.take hhead) (fun u o' ho' => ?_)
    (fun n hmem => Or.inl hmem) (fun r hr => Or.inl hr) fun k' e => rfl
  rcases eq_or_ne u t with rfl | hne
  · have heq : some o = some o' := by simpa [SchedNode.setSlot] using ho'
    exact Option.some.inj heq ▸ hacc
  · exact h.slot u o' (by simpa [SchedNode.setSlot, SchedNode.setList,
      Function.update_of_ne hne] using ho')

section Give

variable {o cpuid : ℕ} {owner : Option ThreadId} {why : Finish} (hn : NodeInv cfg s)
include hn

theorem NodeInv.in_slot (hslot : s.slot t = some x) :
    x < cfg.eventNum ∧ (∀ l, x ∉ (s.list l).head) ∧ ∀ n ∈ s.calls, x ∉ n.hands := by
  have hin : InPlace s.que s.list s.slot s.hands (.slot t) x := hslot
  exact ⟨hn.custody.lt_of_inPlace hin,
    fun l => hn.custody.place.notMem_of_ne (q := Place.listed l) hin (by simp),
    fun n hmem => hn.not_hand hin (by simp) hmem⟩

theorem NodeInv.in_list {l : ListId} (hl : x ∈ (s.list l).head) :
    x < cfg.eventNum ∧ (∀ t, s.slot t ≠ some x) ∧ ∀ n ∈ s.calls, x ∉ n.hands := by
  have hin : InPlace s.que s.list s.slot s.hands (.listed l) x := hl
  exact ⟨hn.custody.lt_of_inPlace hin,
    fun t => hn.custody.place.notMem_of_ne (q := Place.slot t) hin (by simp),
    fun n hmem => hn.not_hand hin (by simp) hmem⟩

/-- A call gives its event back. -/
theorem AcceptInv.giveHand (h : AcceptInv cfg s) (hc : c ∈ s.calls) (ho : c.hands = [x])
    (next : List Call) (hnext : ∀ n ∈ next, n.hands = [])
    (hque : s'.que = (schedEventEnqueLock cfg s x).que)
    (hobj : s'.obj = (schedEventEnqueLock cfg s x).obj)
    (hacc : s'.accepted = (schedEventEnqueLock cfg s x).accepted) (hgone : s'.gone = s.gone)
    (hlist : s'.list = s.list) (hslot : ∀ t, ∀ o ∈ s'.slot t, o ∈ s.slot t)
    (hcalls : s'.calls = next ++ s.calls.erase c) (hrefusals : s'.refusals = s.refusals)
    (hnum : ∀ k, s.gone k.1 = false → ∀ e,
      s'.eventNum k e + (if s.accepted x = some (k, e) then 1 else 0) = s.eventNum k e)
    (hrefuses : ∀ k e, next.countP (Call.refuses s.obj k e) =
      if c.refuses s.obj k e = true then 1 else 0) : AcceptInv cfg s' := by
  obtain ⟨hlt, hnolist, hnoslot, -, -⟩ := hn.in_hand hc (o := x) (by simp [ho])
  have hid (o : ℕ) : (s'.obj o).eventId = (s.obj o).eventId := by rw [hobj, eventId_enque]
  refine h.give hlt hque hobj hacc hgone (fun l o' ho' => ?_) (fun t o' ho' => ?_)
    (fun n hmem => ?_) hrefusals fun k hk e => ?_
  · rw [hlist] at ho'
    refine ⟨?_, ho'⟩
    rintro rfl
    exact hnolist l ho'
  · refine ⟨?_, h.slot t o' (hslot t o' ho')⟩
    rintro rfl
    exact hnoslot t (hslot t o' ho')
  · rw [hcalls] at hmem
    rcases List.mem_append.mp hmem with hmem | hmem
    · exact Or.inr (hnext n hmem)
    · exact Or.inl ⟨List.mem_of_mem_erase hmem, hn.not_other hc ho hmem⟩
  · have hkeep : refusing s' k e = refusing s k e := refusing_keep next hc hcalls hid hrefuses
    rw [hkeep, hnum k hk e]

/-- The event of a thread goes back, and the thread has another one or none. -/
theorem AcceptInv.giveSlot (h : AcceptInv cfg s) (hslot : s.slot t = some x) {p : Option ℕ}
    (hque : s'.que = (schedEventEnqueLock cfg s x).que)
    (hobj : s'.obj = (schedEventEnqueLock cfg s x).obj)
    (hacc : s'.accepted = (schedEventEnqueLock cfg s x).accepted) (hgone : s'.gone = s.gone)
    (hlist : s'.list = s.list) (hput : s'.slot = Function.update s.slot t p)
    (hp : ∀ o ∈ p, o ≠ x ∧ s.accepted o = some (account s o))
    (hcall : ∀ n ∈ s'.calls, n ∈ s.calls) (hrefusals : s'.refusals = s.refusals)
    (hnum : s'.eventNum = (schedFreeThreadEvent cfg s t x).eventNum)
    (hrefusing : ∀ k e, refusing s' k e = refusing s k e) : AcceptInv cfg s' := by
  obtain ⟨hlt, hnolist, hnohand⟩ := hn.in_slot hslot
  refine h.give hlt hque hobj hacc hgone (fun l o ho => ?_) (fun u o ho => ?_)
    (fun n hmem => Or.inl ⟨hcall n hmem, hnohand n (hcall n hmem)⟩) hrefusals fun k hk e => ?_
  · rw [hlist] at ho
    refine ⟨?_, ho⟩
    rintro rfl
    exact hnolist l ho
  · rw [hput] at ho
    rcases eq_or_ne u t with rfl | hne
    · rw [Function.update_self] at ho
      exact hp o ho
    · rw [Function.update_of_ne hne] at ho
      refine ⟨?_, h.slot u o ho⟩
      rintro rfl
      exact hne (hn.custody.slot_inj ho hslot)
  · have hgrpId : (s.obj x).grpId = t.1 := hn.event.slot t x hslot
    have hx : s.accepted x = some (t.1, (s.obj x).eventId) := by
      rw [h.slot t x hslot, account, hgrpId]
    rw [hrefusing, hnum, freed_num cfg hx]

theorem AcceptInv.giveBack (h : AcceptInv cfg s) (hc : .failed k o ∈ s.calls) :
    AcceptInv cfg ((schedEventEnqueLock cfg s o).become (.failed k o) []) := by
  have hnone : s.accepted o = none := h.call _ hc o (by simp [Call.hands])
  refine h.giveHand hn hc rfl [] (by simp) rfl rfl rfl rfl rfl
    (fun t o ho => ho) rfl rfl (fun k' hk' e => ?_) fun _ _ => rfl
  simp only [hnone, reduceCtorEq, if_false, add_zero]
  rfl

theorem AcceptInv.exactEnd (h : AcceptInv cfg s) {old : ℕ} (hc : .exact t o old ∈ s.calls) :
    AcceptInv cfg (schedExactEnd cfg s t o old) := by
  obtain ⟨-, hslot, -⟩ := hn.thread.call _ hc
  obtain ⟨-, -, hnoslot, -, -⟩ := hn.in_hand hc (o := o) (by simp [Call.hands])
  have hacc : s.accepted o = some (account s o) := h.call _ hc o (by simp [Call.hands])
  refine h.giveSlot hn (p := some o) hslot rfl rfl rfl rfl rfl (Function.update_idem _ _ _)
    (fun o' ho' => ?_) (fun n hmem => List.mem_of_mem_erase hmem) rfl rfl fun k e => ?_
  · obtain rfl := Option.mem_some_iff.mp ho'
    refine ⟨?_, hacc⟩
    rintro rfl
    exact hnoslot t hslot
  · exact refusing_keep [] hc rfl (eventId_enque cfg s old) fun _ _ => rfl

theorem AcceptInv.finishEnd (h : AcceptInv cfg s) (hc : .finish t why o ∈ s.calls) :
    AcceptInv cfg (finishEnd cfg s t why o) := by
  obtain ⟨-, hslot, -⟩ := hn.thread.call _ hc
  have hfreed : AcceptInv cfg ((schedFreeThreadEvent cfg s t o).become (.finish t why o) []) := by
    refine h.giveSlot hn (p := none) hslot rfl rfl rfl rfl rfl rfl (by simp)
      (fun n hmem => List.mem_of_mem_erase hmem) rfl rfl fun k e => ?_
    exact refusing_keep [] hc rfl (eventId_enque cfg s o) fun _ _ => rfl
  cases why with
  | wait cpuid => exact hfreed.waitEnter
  | timeout c timestamp => exact (hfreed.setGrp _ _).setCur _ _
  | exit c => exact (hfreed.setGrp _ _).setCur _ _

theorem AcceptInv.clearThread (h : AcceptInv cfg s) :
    AcceptInv cfg (schedClearCurNonSchedEvent cfg s t) := by
  unfold schedClearCurNonSchedEvent
  split
  · exact h
  split
  · exact h.setGrp _ _
  · next o hslot =>
      refine AcceptInv.setGrp ?_ _ _
      refine h.giveSlot hn (p := none) hslot rfl rfl rfl rfl rfl rfl (by simp)
        (fun n hmem => hmem) rfl rfl fun k e => ?_
      exact refusing_congr rfl (eventId_enque cfg s o)

theorem AcceptInv.clearEvent (h : AcceptInv cfg s) (hgone : s.gone k.1 = true) (eventPri : ℕ) :
    AcceptInv cfg (schedClearNonSchedEvent cfg s k eventPri) := by
  unfold schedClearNonSchedEvent
  split
  · exact h
  next o eventList htake =>
  obtain ⟨hmem, hhead, -, -⟩ := takeFirst_erase htake
  obtain ⟨hlt, hnoslot, hnohand⟩ := hn.in_list hmem
  have hnodup := hn.custody.head_nodup (.nonSched k eventPri)
  have hgrpId : (s.obj o).grpId = k := (hn.event.list _ o hmem).1.grpId
  refine h.give hlt rfl rfl rfl rfl (fun l o' ho' => ?_) (fun t o' ho' => ?_)
    (fun n hmem => Or.inl ⟨hmem, hnohand n hmem⟩) rfl fun k' hk' e => ?_
  · rcases eq_or_ne l (.nonSched k eventPri) with rfl | hne
    · have hold : o' ∈ eventList.head := by
        simpa [schedEventEnqueLock, SchedNode.setList] using ho'
      rw [hhead] at hold
      exact hnodup.mem_erase_iff.mp hold
    · have hold : o' ∈ (s.list l).head := by
        simpa [schedEventEnqueLock, SchedNode.setList, Function.update_of_ne hne] using ho'
      refine ⟨?_, hold⟩
      rintro rfl
      have heq : Place.listed l = Place.listed (.nonSched k eventPri) :=
        hn.custody.place.unique hold hmem
      cases heq
      exact hne rfl
  · refine ⟨?_, h.slot t o' ho'⟩
    rintro rfl
    exact hnoslot t ho'
  · have hne : s.accepted o ≠ some (k', e) := by
      rw [h.list _ o hmem, account, hgrpId]
      intro heq
      obtain rfl := (Prod.mk.inj (Option.some.inj heq)).1
      rw [hgone] at hk'
      cases hk'
    rw [if_neg hne, add_zero]
    refine congrArg (fun n : ℕ => s.eventNum k' e + (n : ℤ)) ?_
    symm
    exact refusing_congr rfl (eventId_enque cfg s o)

theorem AcceptInv.hand (h : AcceptInv cfg s) (hc : .took cpuid owner o ∈ s.calls) :
    AcceptInv cfg (schedHandEvent cfg s cpuid owner o) := by
  have hacc : s.accepted o = some (account s o) := h.call _ hc o (by simp [Call.hands])
  dsimp only [schedHandEvent]
  split_ifs with hgone htimeout
  · refine h.giveHand hn hc rfl [.search cpuid owner] (by simp [Call.hands]) rfl rfl rfl rfl rfl
      (fun t o ho => ho) rfl rfl (fun k' hk' e => ?_) fun _ _ => rfl
    have hne : s.accepted o ≠ some (k', e) := by
      rw [hacc]
      intro heq
      obtain rfl := (Prod.mk.inj (Option.some.inj heq)).1
      rw [hgone] at hk'
      cases hk'
    rw [if_neg hne, add_zero]
    rfl
  · refine AcceptInv.exclusiveFinish ?_ _
    refine h.giveHand hn hc rfl [.search cpuid owner] (by simp [Call.hands]) rfl rfl rfl rfl rfl
      (fun t o ho => mem_slot_free cfg ho) rfl rfl (fun k' hk' e => ?_) fun _ _ => rfl
    exact freed_num cfg hacc
  · refine h.same rfl (fun _ => rfl) (fun _ hp => hp) h.free h.list (fun u o' ho' => ?_)
      (fun n hmem => ?_) (fun r hr => Or.inl hr) fun k e => ?_
    · rcases eq_or_ne u ((s.obj o).grpId, (s.grp (s.obj o).grpId).cpuidToTid cpuid) with rfl | hne
      · have heq : some o = some o' := by simpa [SchedNode.setSlot] using ho'
        exact Option.some.inj heq ▸ hacc
      · exact h.slot u o' (by simpa [SchedNode.setSlot, Function.update_of_ne hne] using ho')
    · rcases List.mem_append.mp hmem with hmem | hmem
      · obtain rfl := List.mem_singleton.mp hmem
        exact Or.inr (callAccept_of_noHands rfl)
      · exact Or.inl (List.mem_of_mem_erase hmem)
    · refine congrArg (fun n : ℕ => s.eventNum k e + (n : ℤ)) ?_
      symm
      exact refusing_keep [.found cpuid owner _] hc rfl (fun _ => rfl) fun _ _ => rfl

theorem AcceptInv.fill {event : SchedEvent} (h : AcceptInv cfg s)
    (hc : .alloced event o ∈ s.calls) (ok : Bool) :
    AcceptInv cfg (schedPublishFillEvent s event o ok) := by
  obtain ⟨-, hnolist, hnoslot, -, -⟩ := hn.in_hand hc (o := o) (by simp [Call.hands])
  have hnone : s.accepted o = none := h.call _ hc o (by simp [Call.hands])
  -- the event is filled, and the call goes on with it
  have hfilled (n : Call) (hhands : n.hands = [o]) (hpending : n.pending = true)
      (hrefuses : ∀ obj k e, n.refuses obj k e = false) :
      AcceptInv cfg (SchedNode.become { s with obj := Function.update s.obj o event }
        (.alloced event o) [n]) := by
    refine h.move o (fun _ _ => rfl) (fun o' ho' => ?_) (fun _ hp => hp)
      (fun q o' ho' => Or.inr (h.free q o' ho')) (fun l o' ho' => Or.inl ⟨?_, ho'⟩)
      (fun t o' ho' => Or.inl ⟨?_, ho'⟩) (fun m hm => ?_) rfl fun k hk e hold => ?_
    · simp [account, Function.update_of_ne ho']
    · rintro rfl
      exact hnolist l ho'
    · rintro rfl
      exact hnoslot t ho'
    · rcases List.mem_append.mp hm with hm | hm
      · obtain rfl := List.mem_singleton.mp hm
        right
        intro o' ho'
        rw [hhands, List.mem_singleton] at ho'
        subst ho'
        rw [if_pos hpending]
        exact hnone
      · exact Or.inl ⟨List.mem_of_mem_erase hm, hn.not_other hc rfl hm⟩
    · have hrest : (s.calls.erase (.alloced event o)).countP
          (Call.refuses (Function.update s.obj o event) k e) =
            (s.calls.erase (.alloced event o)).countP (Call.refuses s.obj k e) := by
        refine List.countP_congr fun m hm => ?_
        have hnot := hn.not_other hc rfl hm
        cases m with
        | refused k' o' =>
            have hne : o' ≠ o := by
              rintro rfl
              exact hnot (by simp [Call.hands])
            simp [Call.refuses, Function.update_of_ne hne]
        | _ => simp [Call.refuses]
      have herase := AtMostOne.countP_erase (p := Call.refuses s.obj k e) hc
      simp only [Call.refuses, Bool.false_eq_true, if_false, add_zero] at herase
      refine hold.trans (congrArg (fun n : ℕ => (outstanding cfg s k e : ℤ) + (n : ℤ)) ?_)
      change s.calls.countP _ = ([n] ++ s.calls.erase (.alloced event o)).countP _
      rw [List.singleton_append, List.countP_cons_of_neg (by simp [hrefuses])]
      exact (hrest.trans herase).symm
  dsimp only [schedPublishFillEvent]
  split_ifs with hok htimeout hhandle
  · refine h.keepBecome hc ⟨rfl, rfl, rfl, rfl, rfl, rfl, rfl, fun _ hp => hp⟩ rfl
      (fun n hmem => ?_) fun _ _ => rfl
    obtain rfl := List.mem_singleton.mp hmem
    exact h.call (.alloced event o) hc
  · exact hfilled (.failed event.grpId o) rfl rfl fun _ _ _ => rfl
  · exact hfilled (.failed event.grpId o) rfl rfl fun _ _ _ => rfl
  · exact hfilled (.checked event.grpId o) rfl rfl fun _ _ _ => rfl

/-- A publish is accepted, or refused when the quota is used up. -/
theorem AcceptInv.raise (h : AcceptInv cfg s) (hc : .checked k o ∈ s.calls) (self : Bool)
    (hquota : s.gone k.1 = false →
      outstanding cfg s k (s.obj o).eventId < s.maxEventNum k (s.obj o).eventId →
        refusing s k (s.obj o).eventId = 0) :
    AcceptInv cfg (schedGrpEventNumRaise cfg s k o self) := by
  obtain ⟨hlt, hnolist, hnoslot, -, hnofree⟩ := hn.in_hand hc (o := o) (by simp [Call.hands])
  have hnone : s.accepted o = none := h.call _ hc o (by simp [Call.hands])
  have hnamed : Named s k o := hn.event.call _ hc
  have hraise (k' : GrpId) (e : ℕ) := eventNum_update s.eventNum k (s.obj o).eventId 1 k' e
  unfold schedGrpEventNumRaise
  dsimp only
  by_cases hover : ((s.maxEventNum k (s.obj o).eventId : ℕ) : ℤ) <
      (s.eventNum k (s.obj o).eventId + 1) % 2 ^ 32 ∧
        ¬ ((s.eventNum k (s.obj o).eventId + 1) % 2 ^ 32 =
          s.maxEventNum k (s.obj o).eventId + 1 ∧ self = true)
  · rw [if_pos hover]
    refine h.same rfl (fun _ => rfl) (fun _ hp => hp) h.free h.list h.slot (fun n hmem => ?_)
      (fun r hr => ?_) fun k' e => ?_
    · rcases List.mem_append.mp hmem with hmem | hmem
      · obtain rfl := List.mem_singleton.mp hmem
        exact Or.inr (h.call (.checked k o) hc)
      · exact Or.inl (List.mem_of_mem_erase hmem)
    · rcases List.mem_cons.mp hr with rfl | hr
      · right
        intro hlive
        have hnum := h.num k hlive (s.obj o).eventId
        have hused := hquota hlive
        have hlt := hover.1
        dsimp only
        omega
      · exact Or.inl hr
    · refine (congrArg (· + (refusing s k' e : ℤ)) (hraise k' e)).trans ?_
      have hbecome := refusing_become [.refused k o] hc
        (rfl : (s.become (.checked k o) [.refused k o]).calls = _) (fun _ => rfl) (k := k') (e := e)
      simp only [Call.refuses, Bool.false_eq_true, if_false, List.countP_singleton,
        decide_eq_true_eq, add_zero] at hbecome
      change _ = s.eventNum k' e + (refusing (s.become (.checked k o) [.refused k o]) k' e : ℤ)
      rw [hbecome]
      split
      · push_cast
        omega
      · push_cast
        omega
  · rw [if_neg hover]
    have hkeep : ∀ o' ≠ o, Function.update s.accepted o (some (k, (s.obj o).eventId)) o' =
        s.accepted o' := fun o' ho' => Function.update_of_ne ho' _ _
    refine h.move o hkeep (fun _ _ => rfl) (fun _ hp => hp) (fun q o' ho' => Or.inl ⟨?_, ho'⟩)
      (fun l o' ho' => Or.inl ⟨?_, ho'⟩) (fun t o' ho' => Or.inl ⟨?_, ho'⟩) (fun n hmem => ?_) rfl
      fun k' hk e hold => ?_
    · rintro rfl
      exact hnofree q ho'
    · rintro rfl
      exact hnolist l ho'
    · rintro rfl
      exact hnoslot t ho'
    · rcases List.mem_append.mp hmem with hmem | hmem
      · obtain rfl := List.mem_singleton.mp hmem
        right
        intro o' ho'
        obtain rfl : o' = o := by simpa [Call.hands] using ho'
        have haccount : account s o' = (k, (s.obj o').eventId) := by rw [account, hnamed.grpId]
        exact (Function.update_self o' _ _).trans (congrArg some haccount.symm)
      · exact Or.inl ⟨List.mem_of_mem_erase hmem, hn.not_other hc rfl hmem⟩
    · let accepted := Function.update s.accepted o (some (k, (s.obj o).eventId))
      have hout : outstanding cfg { s with accepted } k' e + _ = _ :=
        outstanding_update hlt hkeep k' e
      have hself : accepted o = some (k, (s.obj o).eventId) := Function.update_self ..
      simp only [hnone, reduceCtorEq, if_false, add_zero, hself, Option.some.injEq,
        Prod.mk.injEq] at hout
      have hrefusing : refusing (s.become (.checked k o) [.adding k o]) k' e = refusing s k' e :=
        refusing_keep [.adding k o] hc rfl (fun _ => rfl) fun _ _ => rfl
      refine (hraise k' e).trans ?_
      change _ = (outstanding cfg { s with accepted } k' e : ℤ) +
        (refusing (s.become (.checked k o) [.adding k o]) k' e : ℤ)
      rw [hrefusing, hold]
      by_cases heq : k = k' ∧ (s.obj o).eventId = e
      · rw [if_pos heq] at hout ⊢
        omega
      · rw [if_neg heq] at hout ⊢
        omega

/-- An accepted event is queued, or the process of its group is deleted. -/
theorem AcceptInv.add {procPri eventPri : ℕ} (h : AcceptInv cfg s) (hc : .adding k o ∈ s.calls)
    (hroom : s.gone k.1 = true ∨
      (schedEventAddTail (s.list (publishList s k procPri eventPri)) o).isSome = true) :
    AcceptInv cfg (schedPublishAdd s k o procPri eventPri) := by
  obtain ⟨hlt, hnolist, hnoslot, -, hnofree⟩ := hn.in_hand hc (o := o) (by simp [Call.hands])
  have hacc : s.accepted o = some (account s o) := h.call _ hc o (by simp [Call.hands])
  have hnamed : Named s k o := hn.event.call _ hc
  unfold schedPublishAdd
  dsimp only
  split
  · next hfull =>
      have hgone : s.gone k.1 = true := hroom.resolve_right (by simp [hfull])
      have hkeep : ∀ o' ≠ o, Function.update s.accepted o none o' = s.accepted o' :=
        fun o' ho' => Function.update_of_ne ho' _ _
      refine h.move o hkeep (fun _ _ => rfl) (fun _ hp => hp) (fun q o' ho' => Or.inl ⟨?_, ho'⟩)
        (fun l o' ho' => Or.inl ⟨?_, ho'⟩) (fun t o' ho' => Or.inl ⟨?_, ho'⟩) (fun n hmem => ?_) rfl
        fun k' hk e hold => ?_
      · rintro rfl
        exact hnofree q ho'
      · rintro rfl
        exact hnolist l ho'
      · rintro rfl
        exact hnoslot t ho'
      · rcases List.mem_append.mp hmem with hmem | hmem
        · obtain rfl := List.mem_singleton.mp hmem
          right
          intro o' ho'
          obtain rfl : o' = o := by simpa [Call.hands] using ho'
          exact Function.update_self o' _ _
        · exact Or.inl ⟨List.mem_of_mem_erase hmem, hn.not_other hc rfl hmem⟩
      · let accepted := Function.update s.accepted o none
        have hout : outstanding cfg { s with accepted } k' e + _ = _ :=
          outstanding_update hlt hkeep k' e
        have hne : s.accepted o ≠ some (k', e) := by
          rw [hacc, account, hnamed.grpId]
          intro heq
          obtain rfl := (Prod.mk.inj (Option.some.inj heq)).1
          rw [show s.gone k.1 = false from hk] at hgone
          cases hgone
        have hself : accepted o = none := Function.update_self ..
        simp only [hne, if_false, add_zero, hself, reduceCtorEq] at hout
        have hrefusing : refusing (s.become (.adding k o) [.failed k o]) k' e = refusing s k' e :=
          refusing_keep [.failed k o] hc rfl (fun _ => rfl) fun _ _ => rfl
        change s.eventNum k' e = (outstanding cfg { s with accepted } k' e : ℤ) +
          (refusing (s.become (.adding k o) [.failed k o]) k' e : ℤ)
        rw [hrefusing, hold, hout]
  · next eventList hadd =>
      refine h.same rfl (fun _ => rfl) (fun _ hp => hp) h.free (fun l o' ho' => ?_) h.slot
        (fun n hmem => ?_) (fun r hr => Or.inl hr) fun k' e => ?_
      · rcases eq_or_ne l (publishList s k procPri eventPri) with rfl | hne
        · have hmem : o' ∈ eventList.head := by simpa [SchedNode.setList] using ho'
          rcases (mem_of_addTail hadd).mp hmem with hold | rfl
          · exact h.list _ o' hold
          · exact hacc
        · exact h.list l o' (by simpa [SchedNode.setList, Function.update_of_ne hne] using ho')
      · rcases List.mem_append.mp hmem with hmem | hmem
        · right
          refine callAccept_of_noHands ?_
          split at hmem
          · obtain rfl := List.mem_singleton.mp hmem
            rfl
          · cases hmem
        · exact Or.inl (List.mem_of_mem_erase hmem)
      · refine congrArg (fun n : ℕ => s.eventNum k' e + (n : ℤ)) ?_
        symm
        refine refusing_keep _ hc rfl (fun _ => rfl) fun k e => ?_
        split
        · rfl
        · rfl

theorem AcceptInv.searchList {procPri eventPri curTime : ℕ} (h : AcceptInv cfg s)
    (hc : .search cpuid owner ∈ s.calls) :
    AcceptInv cfg (schedSearchList s cpuid owner procPri eventPri curTime) := by
  unfold schedSearchList
  split
  · exact h.keepCalls ⟨rfl, rfl, rfl, rfl, rfl, rfl, rfl, fun _ hp => hp⟩ rfl
  next o eventList runStatus hsearch =>
  obtain ⟨hmem, hhead, -, -⟩ := eventSearch_erase (hn.custody.head_nodup _) hsearch
  have hacc : s.accepted o = some (account s o) := h.list _ o hmem
  refine h.same rfl (fun _ => rfl) (fun _ hp => hp) h.free (h.take hhead) h.slot
    (fun n hmem => ?_) (fun r hr => Or.inl hr) fun k' e => ?_
  · rcases List.mem_append.mp hmem with hmem | hmem
    · obtain rfl := List.mem_singleton.mp hmem
      exact Or.inr (by simpa [CallAccept, Call.hands, Call.pending] using hacc)
    · exact Or.inl (List.mem_of_mem_erase hmem)
  · refine congrArg (fun n : ℕ => s.eventNum k' e + (n : ℤ)) ?_
    symm
    exact refusing_keep [.took cpuid owner o] hc rfl (fun _ => rfl) fun _ _ => rfl

theorem AcceptInv.exact {eventId procPri eventPri : ℕ} (h : AcceptInv cfg s)
    (hexact : schedGetExact s t eventId cpuid procPri eventPri = some s') : AcceptInv cfg s' := by
  rcases schedGetExact_cases hexact with rfl | ⟨o, eventList, old, htake, -, -, rfl⟩
  · exact h
  apply AcceptInv.exclusiveFinish
  obtain ⟨hmem, hhead, -, -⟩ := takeFirst_erase htake
  have hacc : s.accepted o = some (account s o) := h.list _ o hmem
  refine h.same rfl (fun _ => rfl) (fun _ hp => hp) h.free (h.take hhead) h.slot
    (fun n hmem => ?_) (fun r hr => Or.inl hr) fun k' e => ?_
  · rcases List.mem_cons.mp hmem with rfl | hmem
    · exact Or.inr (by simpa [CallAccept, Call.hands, Call.pending] using hacc)
    · exact Or.inl hmem
  · refine congrArg (fun n : ℕ => s.eventNum k' e + (n : ℤ)) ?_
    exact (List.countP_cons_of_neg (by simp [Call.refuses])).symm

theorem AcceptInv.freeProcess {pid : ℕ} (h : AcceptInv cfg s)
    (hfree : ∀ n ∈ s.calls, n.holdsProc pid = false) (hcleared : ProcCleared cfg s pid) :
    AcceptInv cfg (schedFreeProcess cfg s pid) := by
  refine h.same rfl (fun _ => rfl) (fun _ hp => hp) h.free (fun l o ho => ?_) (fun u o ho => ?_)
    (fun n hmem => Or.inl hmem) (fun r hr => Or.inl hr) fun k e => rfl
  · rw [hn.head_free hcleared] at ho
    exact h.list l o ho
  · rw [hn.slot_free hfree hcleared] at ho
    exact h.slot u o ho

end Give

end OpiaiKernel.Esched
