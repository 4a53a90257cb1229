import OpiaiKernel.Esched.ExclusiveInv

/-!
# One event at a time

The search of a list marks an exclusive group as running with the event that it
takes, so a list holds no second event that can be taken for the group.
-/

namespace OpiaiKernel.Esched

variable {cfg : NodeCfg} {s s' : SchedNode} {k : GrpId} {t : ThreadId} {o cpuid : ℕ}
  {owner : Option ThreadId}

/-! ## The search -/

/-- A test that takes no event leaves the groups as they are. -/
theorem schedSearch_state {σ : Type*} {canHandle : σ → ℕ → Bool × σ}
    (hfalse : ∀ st a st', canHandle st a = (false, st') → st' = st) {cnt : ℕ} {st st' : σ}
    {events rest : List ℕ} {found : Option ℕ}
    (hsearch : schedSearch canHandle cnt st events = (found, rest, st')) :
    (found = none → st' = st) ∧ ∀ o ∈ found, canHandle st o = (true, st') := by
  induction cnt generalizing st events rest with
  | zero =>
      simp only [schedSearch, Prod.mk.injEq] at hsearch
      obtain ⟨rfl, -, rfl⟩ := hsearch
      exact ⟨fun _ => rfl, fun o ho => by cases ho⟩
  | succ cnt ih =>
      cases events with
      | nil =>
          simp only [schedSearch, Prod.mk.injEq] at hsearch
          obtain ⟨rfl, -, rfl⟩ := hsearch
          exact ⟨fun _ => rfl, fun o ho => by cases ho⟩
      | cons a events =>
          simp only [schedSearch] at hsearch
          split at hsearch
          · next st₁ hcan =>
              simp only [Prod.mk.injEq] at hsearch
              obtain ⟨rfl, -, rfl⟩ := hsearch
              refine ⟨fun hnone => (by cases hnone), fun o ho => ?_⟩
              obtain rfl := Option.mem_some_iff.mp ho
              exact hcan
          · next st₁ hcan =>
              obtain rfl := hfalse st a st₁ hcan
              simp only [Prod.mk.injEq] at hsearch
              obtain ⟨hfound, -, hst⟩ := hsearch
              exact ih (Prod.ext hfound (Prod.ext rfl hst))

theorem nodeCanHandle_false {curTime : ℕ} {st st' : GrpId → RunStatus} {a : ℕ}
    (hcan : nodeCanHandle s cpuid curTime st a = (false, st')) : st' = st := by
  dsimp only [nodeCanHandle] at hcan
  by_cases hgone : s.gone (s.obj a).pid = true
  · rw [if_pos hgone] at hcan
    cases hcan
  rw [if_neg hgone] at hcan
  simp only [Prod.mk.injEq] at hcan
  obtain ⟨hfst, rfl⟩ := hcan
  refine Function.update_eq_self_iff.mpr ?_
  unfold schedIsEventCanHandle at hfst ⊢
  by_cases hex : (s.grp (s.obj a).grpId).isExclusive = false
  · rw [if_pos hex]
  · rw [if_neg hex] at hfst ⊢
    by_cases hrun : st (s.obj a).grpId = .run
    · rw [if_pos hrun, hrun]
    · rw [if_neg hrun] at hfst ⊢
      by_cases hcpu : schedIsCpuHandleEvent (s.grp (s.obj a).grpId) true (s.obj a) cpuid curTime =
          true
      · rw [if_pos hcpu] at hfst
        cases hfst
      · rw [if_neg hcpu]
        cases hst : st (s.obj a).grpId with
        | idle => rfl
        | run => exact absurd hst hrun

/-- A group that is not exclusive stays as it is, and an exclusive one that was
idle gets to run. -/
theorem nodeCanHandle_true {curTime : ℕ} {st st' : GrpId → RunStatus} {a : ℕ}
    (hlive : s.gone (s.obj a).pid = false)
    (hcan : nodeCanHandle s cpuid curTime st a = (true, st')) :
    (s.exclusive (s.obj a).grpId = false ∧ st' = st) ∨
      (s.exclusive (s.obj a).grpId = true ∧ st (s.obj a).grpId ≠ .run ∧
        st' = Function.update st (s.obj a).grpId .run) := by
  dsimp only [nodeCanHandle] at hcan
  rw [if_neg (by simp [hlive])] at hcan
  simp only [Prod.mk.injEq] at hcan
  obtain ⟨hfst, rfl⟩ := hcan
  unfold schedIsEventCanHandle at hfst ⊢
  by_cases hex : (s.grp (s.obj a).grpId).isExclusive = false
  · rw [if_pos hex]
    exact Or.inl ⟨hex, Function.update_eq_self _ st⟩
  · rw [if_neg hex] at hfst ⊢
    by_cases hrun : st (s.obj a).grpId = .run
    · rw [if_pos hrun] at hfst
      cases hfst
    · rw [if_neg hrun] at hfst ⊢
      by_cases hcpu : schedIsCpuHandleEvent (s.grp (s.obj a).grpId) true (s.obj a) cpuid curTime =
          true
      · rw [if_pos hcpu]
        exact Or.inr ⟨by simpa [SchedNode.exclusive] using hex, hrun, rfl⟩
      · rw [if_neg hcpu] at hfst
        cases hfst

theorem eventSearch_state {curTime : ℕ} {l : ListId} {found : Option ℕ}
    {eventList : SchedEventList ℕ} {runStatus : GrpId → RunStatus}
    (hsearch : schedEventSearch (nodeCanHandle s cpuid curTime) s.runStatus (s.list l) =
      (found, eventList, runStatus)) :
    (found = none → runStatus = s.runStatus) ∧
      ∀ o ∈ found, nodeCanHandle s cpuid curTime s.runStatus o = (true, runStatus) := by
  unfold schedEventSearch at hsearch
  split at hsearch
  · next rest st hrest =>
      simp only [Prod.mk.injEq] at hsearch
      obtain ⟨rfl, -, rfl⟩ := hsearch
      exact schedSearch_state (fun _ _ _ => nodeCanHandle_false) hrest
  · next o rest st hrest =>
      simp only [Prod.mk.injEq] at hsearch
      obtain ⟨rfl, -, rfl⟩ := hsearch
      exact schedSearch_state (fun _ _ _ => nodeCanHandle_false) hrest

theorem ExclusiveInv.searchList {procPri eventPri curTime : ℕ} (h : ExclusiveInv s) :
    ExclusiveInv (schedSearchList s cpuid owner procPri eventPri curTime) := by
  unfold schedSearchList
  split
  · next eventList runStatus hsearch =>
      have hsame : runStatus = s.runStatus := (eventSearch_state hsearch).1 rfl
      exact h.keep rfl (fun _ => rfl) (fun _ _ => rfl) hsame (fun _ _ _ hmem => hmem)
        fun _ _ _ => Iff.rfl
  next o eventList runStatus hsearch =>
  have hcan := nodeCanHandle_true (h.live _) ((eventSearch_state hsearch).2 o rfl)
  -- the event that was taken is the only new one
  have hactive (k : GrpId) (o' : ℕ) :
      Active { (s.setList (.sched procPri eventPri) eventList).become (.search cpuid owner)
        [.took cpuid owner o] with runStatus, curEventNum := s.curEventNum - 1 } k o' ↔
          Active s k o' ∨ (o' = o ∧ (s.obj o).grpId = k) := by
    have hfinish (u : ThreadId) :
        (∀ n ∈ [Call.took cpuid owner o] ++ s.calls.erase (.search cpuid owner),
          n.finishes u = false) ↔ ∀ n ∈ s.calls, n.finishes u = false := by
      constructor
      · intro hall n hmem
        by_cases heq : n = .search cpuid owner
        · subst heq
          rfl
        · exact hall n (List.mem_append_right _ ((List.mem_erase_of_ne heq).mpr hmem))
      · intro hall n hmem
        rcases List.mem_append.mp hmem with hmem | hmem
        · obtain rfl := List.mem_singleton.mp hmem
          rfl
        · exact hall n (List.mem_of_mem_erase hmem)
    constructor
    · rintro (⟨c, ow, hmem, hgrpId⟩ | ⟨u, hu, hslot, hfin⟩)
      · rcases List.mem_append.mp hmem with hmem | hmem
        · obtain ⟨rfl, rfl, rfl⟩ := by simpa using hmem
          exact Or.inr ⟨rfl, hgrpId⟩
        · exact Or.inl (Or.inl ⟨c, ow, List.mem_of_mem_erase hmem, hgrpId⟩)
      · exact Or.inl (Or.inr ⟨u, hu, hslot, (hfinish u).mp hfin⟩)
    · rintro ((⟨c, ow, hmem, hgrpId⟩ | ⟨u, hu, hslot, hfin⟩) | ⟨rfl, hgrpId⟩)
      · exact Or.inl ⟨c, ow, List.mem_append_right _
          ((List.mem_erase_of_ne (by simp)).mpr hmem), hgrpId⟩
      · exact Or.inr ⟨u, hu, hslot, (hfinish u).mpr hfin⟩
      · exact Or.inl ⟨cpuid, owner, List.mem_append_left _ (List.mem_singleton_self _), hgrpId⟩
  have hexact (u : ThreadId) (o' old : ℕ) (hmem : .exact u o' old ∈
      [Call.took cpuid owner o] ++ s.calls.erase (.search cpuid owner)) :
      .exact u o' old ∈ s.calls := by
    rcases List.mem_append.mp hmem with hmem | hmem
    · simp at hmem
    · exact List.mem_of_mem_erase hmem
  rcases hcan with ⟨hex, hsame⟩ | ⟨hex, hidle, hrun⟩
  · refine h.keep rfl (fun _ => rfl) (fun _ _ => rfl) hsame hexact fun k hk o' => ?_
    rw [hactive]
    refine or_iff_left ?_
    rintro ⟨-, rfl⟩
    rw [hex] at hk
    cases hk
  · have hnone (o' : ℕ) : ¬ Active s (s.obj o).grpId o' := fun ho' =>
      hidle ((h.run _ hex).mpr ⟨o', ho'⟩)
    refine ⟨h.live, h.sched, fun k hk => ?_, fun u o' old hmem => h.exact u o' old
      (hexact u o' old hmem), fun k hk => ?_, fun k hk o' o'' ho' ho'' => ?_⟩
    · have hne : k ≠ (s.obj o).grpId := by
        rintro rfl
        rw [show s.exclusive (s.obj o).grpId = false from hk] at hex
        cases hex
      exact (congrFun hrun k).trans ((Function.update_of_ne hne _ _).trans (h.idle k hk))
    · refine Iff.trans ?_ (exists_congr fun o' => hactive k o').symm
      change runStatus k = .run ↔ _
      rw [hrun]
      rcases eq_or_ne k (s.obj o).grpId with rfl | hne
      · rw [Function.update_self]
        exact iff_of_true rfl ⟨o, Or.inr ⟨rfl, rfl⟩⟩
      · rw [Function.update_of_ne hne]
        refine (h.run k hk).trans (exists_congr fun o' => (or_iff_left ?_).symm)
        exact fun hand => hne hand.2.symm
    · rw [hactive] at ho' ho''
      rcases eq_or_ne k (s.obj o).grpId with rfl | hne
      · rw [(ho'.resolve_left (hnone o')).1, (ho''.resolve_left (hnone o'')).1]
      · exact h.one k hk o' o'' (ho'.resolve_right fun hand => hne hand.2.symm)
          (ho''.resolve_right fun hand => hne hand.2.symm)

/-! ## Other events -/

/-- A thread that is not scheduled is in no exclusive group. -/
theorem ExclusiveInv.takeNonSched (h : ExclusiveInv s) (hmode : s.mode t.1 = .nonSchedCpu)
    (eventPri : ℕ) : ExclusiveInv (schedTakeNonSched s t cpuid eventPri) := by
  unfold schedTakeNonSched
  split
  · exact h
  next o eventList htake =>
  refine ExclusiveInv.become ?_ rfl (by simp)
  refine ExclusiveInv.setThread ?_ _ _
  refine h.keep rfl (fun _ => rfl) (fun _ _ => rfl) rfl (fun _ _ _ hmem => hmem) fun k hk o' => ?_
  have hne : t.1 ≠ k := by
    rintro rfl
    rw [h.sched t.1 hk] at hmode
    cases hmode
  exact active_setSlot (Or.inr hne) _ (Or.inr hne)

theorem ExclusiveInv.exactTake {eventId procPri eventPri : ℕ} (h : ExclusiveInv s)
    (hex : s.exclusive t.1 = false ∨ schedTakeFirst
      (fun o => schedIsSpecifiedEvent t.1 eventId (s.obj o))
        (s.list (publishList s t.1 procPri eventPri)) = none)
    (hexact : schedGetExact s t eventId cpuid procPri eventPri = some s') : ExclusiveInv s' := by
  rcases schedGetExact_cases hexact with rfl | ⟨o, eventList, old, htake, -, -, rfl⟩
  · exact h
  have hno : s.exclusive t.1 = false := hex.resolve_right (by simp [htake])
  have hlist : ExclusiveInv { s.setList (publishList s t.1 procPri eventPri) eventList with
      curEventNum := if s.mode t.1 = .schedCpu then s.curEventNum - 1 else s.curEventNum } :=
    h.keep rfl (fun _ => rfl) (fun _ _ => rfl) rfl (fun _ _ _ hmem => hmem) fun _ _ _ => Iff.rfl
  rw [exclusiveFinish_of_not]
  · refine hlist.start rfl fun u o' old' heq => ?_
    cases heq
    exact hno
  · exact hno

theorem ExclusiveInv.exactEnd {old : ℕ} (h : ExclusiveInv s) (hc : .exact t o old ∈ s.calls) :
    ExclusiveInv (schedExactEnd cfg s t o old) := by
  have hex := h.exact t o old hc
  have hset : ExclusiveInv ((schedFreeThreadEvent cfg s t old).setSlot t (some o)) := by
    refine h.keep rfl (fun _ => rfl) (fun _ _ => rfl) rfl (fun _ _ _ hmem => hmem) fun k hk o' => ?_
    have hne : t.1 ≠ k := by
      rintro rfl
      rw [hex] at hk
      cases hk
    refine active_congr (fun _ _ => Iff.rfl) (fun _ _ _ => grpId_enque cfg s old o') fun u hu => ?_
    have hut : u ≠ t := by
      rintro rfl
      exact hne hu
    simp [SchedNode.setSlot, schedFreeThreadEvent, schedEventEnqueLock, Function.update_of_ne hut]
  have hend : ExclusiveInv
      (((schedFreeThreadEvent cfg s t old).setSlot t (some o)).become (.exact t o old) []) :=
    hset.become rfl (by simp)
  exact hend.keep rfl (fun _ => rfl) (fun _ _ => rfl) rfl (fun _ _ _ hmem => hmem)
    fun _ _ _ => Iff.rfl

section Other

variable (hn : NodeInv cfg s)
include hn

theorem ExclusiveInv.fill {event : SchedEvent} (h : ExclusiveInv s)
    (hc : .alloced event o ∈ s.calls) (ok : Bool) :
    ExclusiveInv (schedPublishFillEvent s event o ok) := by
  have hfilled : ExclusiveInv { s with obj := Function.update s.obj o event } := by
    refine h.keep rfl (fun _ => rfl) (fun _ _ => rfl) rfl (fun _ _ _ hmem => hmem) fun k _ o' => ?_
    refine active_congr (fun _ _ => Iff.rfl) (fun c ow hmem => ?_) fun _ _ => Iff.rfl
    have hne : o' ≠ o := by
      rintro rfl
      have hother : Call.took c ow o' ∈ s.calls.erase (.alloced event o') :=
        (List.mem_erase_of_ne (by simp)).mpr hmem
      obtain ⟨-, -, -, hnoother, -⟩ := hn.in_hand hc (o := o') (by simp [Call.hands])
      exact hnoother (List.mem_flatMap.mpr ⟨_, hother, by simp [Call.hands]⟩)
    simp [Function.update_of_ne hne]
  dsimp only [schedPublishFillEvent]
  split_ifs
  · exact h.become rfl (by simp [Call.claims])
  · exact hfilled.become rfl (by simp [Call.claims])
  · exact hfilled.become rfl (by simp [Call.claims])
  · exact hfilled.become rfl (by simp [Call.claims])

/-- A group that is created is idle and has no active event. -/
theorem ExclusiveInv.addGrp (h : ExclusiveInv s) (mode : GroupType) (threadNum : ℕ)
    (alloc : Bool) :
    ExclusiveInv (s.setGrp k (schedProcAddGrp (s.grp k) mode threadNum alloc).2) := by
  by_cases huninit : s.mode k = .uninit
  swap
  · refine h.setGrp ?_
    unfold schedProcAddGrp
    split_ifs with hnum hnew halloc
    · exact ⟨rfl, rfl⟩
    · exact ⟨rfl, rfl⟩
    · exact ⟨rfl, rfl⟩
    all_goals exact absurd (not_not.mp hnew) huninit
  have hnot : s.exclusive k = false := by
    by_contra hex
    have hsched := h.sched k (by simpa using hex)
    rw [huninit] at hsched
    cases hsched
  have hnone (o : ℕ) : ¬ Active s k o := by
    rintro (⟨c, ow, hmem, hgrpId⟩ | ⟨t, ht, hslot, -⟩)
    · obtain ⟨t, ht, hb⟩ := (hn.event.call _ hmem).resolve_left (by simp [h.live])
      have hsched : s.mode t.1 = .schedCpu := hb.mode
      rw [ht, hgrpId, huninit] at hsched
      cases hsched
    · have hvalid := (hn.thread.slot t (by rw [show s.view.slot t = some o from hslot]; simp)).1
      exact hn.init_of_valid hvalid (ht ▸ huninit)
  have hother {k' : GrpId} (hne : k' ≠ k) :
      (s.setGrp k (schedProcAddGrp (s.grp k) mode threadNum alloc).2).exclusive k' =
        s.exclusive k' := by
    simp [SchedNode.exclusive, SchedNode.setGrp, Function.update_of_ne hne]
  refine ⟨h.live, fun k' hk' => ?_, fun k' hk' => ?_, fun t o old hmem => ?_, fun k' hk' => ?_,
    fun k' hk' o o' ho ho' => ?_⟩
  · rcases eq_or_ne k' k with rfl | hne
    · simp only [SchedNode.exclusive, SchedNode.setGrp, SchedNode.mode, Function.update_self] at *
      unfold schedProcAddGrp at hk' ⊢
      split_ifs at hk' ⊢ <;> simp_all
    · rw [hother hne] at hk'
      have hsched := h.sched k' hk'
      simpa [SchedNode.mode, SchedNode.setGrp, Function.update_of_ne hne] using hsched
  · rcases eq_or_ne k' k with rfl | hne
    · exact h.idle k' hnot
    · exact h.idle k' (hother hne ▸ hk')
  · have hne : t.1 ≠ k := by
      intro ht
      exact hn.init_of_valid (hn.thread.call _ hmem).1 (ht ▸ huninit)
    rw [hother hne]
    exact h.exact t o old hmem
  · rcases eq_or_ne k' k with rfl | hne
    · have hidle : s.runStatus k' = .idle := h.idle k' hnot
      refine iff_of_false (fun hrun => ?_) (not_exists_of_forall_not hnone)
      rw [show s.runStatus k' = .run from hrun] at hidle
      cases hidle
    · exact h.run k' (hother hne ▸ hk')
  · rcases eq_or_ne k' k with rfl | hne
    · exact absurd ho (hnone o)
    · exact h.one k' (hother hne ▸ hk') o o' ho ho'

end Other

theorem ExclusiveInv.threadFinish (h : ExclusiveInv s)
    (hcustody : Custody cfg s.que s.list s.slot s.hands) (hfree : s.mutexFree t) (why : Finish) :
    ExclusiveInv (threadFinish s t why) := by
  unfold Esched.threadFinish
  split
  · exact h.finishNext why
  · next o hslot =>
      refine h.finishBegin hcustody hslot fun n hmem => ?_
      have hlocks := locks_of_mutexFree hfree hmem
      cases n with
      | finish u why' o' => simpa [Call.locks, Call.finishes] using hlocks
      | _ => rfl

theorem ExclusiveInv.wait (h : ExclusiveInv s) (hn : NodeInv cfg s) (hfree : s.mutexFree t)
    (pid : ℕ) (swapout : Bool) : ExclusiveInv (schedWait s t cpuid pid swapout) := by
  have hkind := schedWaitEvent_kind (s.grp t.1) t.2 (some cpuid) pid swapout
  dsimp only [schedWait]
  split
  · next heq =>
      rw [heq] at hkind
      exact h.setGrp hkind
  · next grp heq =>
      rw [heq] at hkind
      have hset : ExclusiveInv (s.setGrp t.1 grp) := h.setGrp hkind
      split_ifs
      · exact hset.threadFinish hn.custody hfree _
      · exact hset.waitEnter

theorem ExclusiveInv.publish (h : ExclusiveInv s) (k : GrpId) (eventId : ℕ) (tid : Option ℕ) :
    ExclusiveInv (schedPublishEvent s k eventId tid) := by
  dsimp only [schedPublishEvent]
  split_ifs
  · exact h
  · exact h
  · exact h
  · exact h.start rfl (by simp)

theorem ExclusiveInv.alloc {event : SchedEvent} {q : QueId} (h : ExclusiveInv s)
    (halloc : schedAllocEvent s event q = some s') : ExclusiveInv s' := by
  unfold schedAllocEvent at halloc
  split at halloc
  · cases halloc
  · next o ring hring =>
      obtain rfl := Option.some.inj halloc
      have hque : ExclusiveInv { s with que := Function.update s.que q { s.que q with ring } } :=
        h.keep rfl (fun _ => rfl) (fun _ _ => rfl) rfl (fun _ _ _ hmem => hmem) fun _ _ _ => Iff.rfl
      exact hque.become rfl (by simp [Call.claims])

theorem ExclusiveInv.raise (h : ExclusiveInv s) (self : Bool) :
    ExclusiveInv (schedGrpEventNumRaise cfg s k o self) := by
  have hrefuse : ExclusiveInv (s.become (.checked k o) [.refused k o]) :=
    h.become rfl (by simp [Call.claims])
  have haccept : ExclusiveInv (s.become (.checked k o) [.adding k o]) :=
    h.become rfl (by simp [Call.claims])
  unfold schedGrpEventNumRaise
  dsimp only
  split
  · exact hrefuse.keep rfl (fun _ => rfl) (fun _ _ => rfl) rfl (fun _ _ _ hmem => hmem)
      fun _ _ _ => Iff.rfl
  · exact haccept.keep rfl (fun _ => rfl) (fun _ _ => rfl) rfl (fun _ _ _ hmem => hmem)
      fun _ _ _ => Iff.rfl

theorem ExclusiveInv.add {procPri eventPri : ℕ} (h : ExclusiveInv s) :
    ExclusiveInv (schedPublishAdd s k o procPri eventPri) := by
  have hfail : ExclusiveInv (s.become (.adding k o) [.failed k o]) :=
    h.become rfl (by simp [Call.claims])
  unfold schedPublishAdd
  dsimp only
  split
  · exact hfail.keep rfl (fun _ => rfl) (fun _ _ => rfl) rfl (fun _ _ _ hmem => hmem)
      fun _ _ _ => Iff.rfl
  · next eventList hadd =>
      have hset : ExclusiveInv (s.setList (publishList s k procPri eventPri) eventList) :=
        h.keep rfl (fun _ => rfl) (fun _ _ => rfl) rfl (fun _ _ _ hmem => hmem) fun _ _ _ => Iff.rfl
      refine hset.become rfl fun n hmem => ?_
      split at hmem
      · obtain rfl := List.mem_singleton.mp hmem
        exact ⟨rfl, by simp⟩
      · cases hmem

theorem ExclusiveInv.giveBack (h : ExclusiveInv s) :
    ExclusiveInv ((schedEventEnqueLock cfg s o).become (.failed k o) []) := by
  have hque : ExclusiveInv (schedEventEnqueLock cfg s o) :=
    h.keep rfl (fun _ => rfl) (fun _ _ => rfl) rfl (fun _ _ _ hmem => hmem) fun _ _ o' =>
      active_congr (fun _ _ => Iff.rfl) (fun _ _ _ => grpId_enque cfg s o o') fun _ _ => Iff.rfl
  exact hque.become rfl (by simp)

/-! ## Runs -/

/-- An exclusive group has at most one thread with an event that is not being
given back, or one event that a cpu has taken for it, and it runs exactly then. -/
structure OneAtATime (s : SchedNode) : Prop where
  thread : ∀ t t' : ThreadId, t.1 = t'.1 → s.exclusive t.1 = true → ∀ o o',
    Processing s t o → Processing s t' o' → t = t'
  select : ∀ k, s.exclusive k = true → ∀ o o', Selecting s k o →
    (Selecting s k o' → o = o') ∧ ∀ t : ThreadId, t.1 = k → ¬ Processing s t o'
  run : ∀ k, s.exclusive k = true → (s.runStatus k = .run ↔
    (∃ o, Selecting s k o) ∨ ∃ t : ThreadId, t.1 = k ∧ ∃ o, Processing s t o)

/-- The steps of publishes, waits and exact fetches; a thread of an exclusive
group takes no event by a fetch. -/
def NoExclusiveFetch (s : SchedNode) : NodeOp → Prop
  | .timeout .. | .delete .. | .exitCheck .. => False
  | .exact t eventId cpuid procPri eventPri =>
      Undisturbed s (.exact t eventId cpuid procPri eventPri) ∧
        (s.exclusive t.1 = false ∨
          schedTakeFirst (fun o => schedIsSpecifiedEvent t.1 eventId (s.obj o))
            (s.list (publishList s t.1 procPri eventPri)) = none)
  | op => Undisturbed s op

instance (s : SchedNode) : ∀ op, Decidable (NoExclusiveFetch s op)
  | .exact .. | .wait .. | .waitReturn .. => by
      unfold NoExclusiveFetch Undisturbed
      infer_instance
  | .timeout .. | .exitCheck .. | .delete .. => isFalse fun h => h
  | .addGrp .. | .subscribe .. | .setMaxEventNum .. | .publish .. | .alloc .. | .allocFail ..
  | .fill .. | .raise .. | .lower .. | .add .. | .count .. | .giveBack .. | .wakeup ..
  | .select .. | .searchList .. | .hand .. | .wakeupNext .. | .toIdle .. | .finishEnd ..
  | .switch .. | .takeNonSched .. | .sleep .. | .quit .. | .resume .. | .awake .. | .waitFail ..
  | .exactEnd .. | .clearThread .. | .clearEvent .. | .free .. => isTrue trivial

theorem NoExclusiveFetch.undisturbed {op : NodeOp} (h : NoExclusiveFetch s op) :
    Undisturbed s op := by
  cases op with
  | timeout | delete | exitCheck => exact h.elim
  | exact => exact h.1
  | _ => exact h

theorem nodeStep_exclusive {op : NodeOp} (hn : NodeInv cfg s) (h : ExclusiveInv s)
    (hok : NoExclusiveFetch s op) (hstep : nodeStep cfg s op = some s') : ExclusiveInv s' := by
  cases op with
  | addGrp k schedMode threadNum alloc =>
      simp only [nodeStep] at hstep
      split_ifs at hstep
      · exact Option.some.inj hstep ▸ h
      · exact Option.some.inj hstep ▸ h.addGrp hn schedMode threadNum alloc
  | subscribe k tid eventBitmap =>
      simp only [nodeStep] at hstep
      split_ifs at hstep
      · exact Option.some.inj hstep ▸ h
      · exact Option.some.inj hstep ▸ h.setGrp (schedThreadSubscribeEvent_kind _ tid eventBitmap)
  | setMaxEventNum k eventId maxNum =>
      simp only [nodeStep] at hstep
      split_ifs at hstep
      · exact Option.some.inj hstep ▸ h
      · refine Option.some.inj hstep ▸ ?_
        exact h.keep rfl (fun _ => rfl) (fun _ _ => rfl) rfl (fun _ _ _ hmem => hmem)
          fun _ _ _ => Iff.rfl
  | publish k eventId tid => exact Option.some.inj hstep ▸ h.publish k eventId tid
  | alloc event q => exact h.alloc (whenCall_eq_some.mp hstep).2
  | allocFail event =>
      obtain ⟨-, hstep⟩ := whenCall_eq_some.mp hstep
      exact Option.some.inj hstep ▸ h.become rfl (by simp)
  | fill event o ok =>
      obtain ⟨⟨hc, -⟩, hstep⟩ := whenCall_eq_some.mp hstep
      exact Option.some.inj hstep ▸ h.fill hn hc ok
  | raise k o self =>
      obtain ⟨-, hstep⟩ := whenCall_eq_some.mp hstep
      exact Option.some.inj hstep ▸ h.raise self
  | lower k o =>
      obtain ⟨-, hstep⟩ := whenCall_eq_some.mp hstep
      refine Option.some.inj hstep ▸ ?_
      have hgo : ExclusiveInv (s.become (.refused k o) [.failed k o]) :=
        h.become rfl (by simp [Call.claims])
      exact hgo.keep rfl (fun _ => rfl) (fun _ _ => rfl) rfl (fun _ _ _ hmem => hmem)
        fun _ _ _ => Iff.rfl
  | add k o procPri eventPri =>
      obtain ⟨-, hstep⟩ := whenCall_eq_some.mp hstep
      exact Option.some.inj hstep ▸ h.add
  | count k =>
      obtain ⟨-, hstep⟩ := whenCall_eq_some.mp hstep
      refine Option.some.inj hstep ▸ ?_
      have hgo : ExclusiveInv (s.become (.added k) []) := h.become rfl (by simp)
      exact hgo.keep rfl (fun _ => rfl) (fun _ _ => rfl) rfl (fun _ _ _ hmem => hmem)
        fun _ _ _ => Iff.rfl
  | giveBack k o =>
      obtain ⟨-, hstep⟩ := whenCall_eq_some.mp hstep
      exact Option.some.inj hstep ▸ h.giveBack
  | wakeup t =>
      simp only [nodeStep, Option.ite_none_right_eq_some, Option.some.injEq] at hstep
      obtain ⟨-, rfl⟩ := hstep
      unfold schedWakeupNonSchedGrp
      split_ifs
      · exact h.setThread _ _
      · exact h
  | select cpuid =>
      simp only [nodeStep, Option.ite_none_right_eq_some, Option.some.injEq] at hstep
      exact hstep.2 ▸ h.start rfl (by simp)
  | searchList cpuid owner procPri eventPri curTime =>
      obtain ⟨-, hstep⟩ := whenCall_eq_some.mp hstep
      exact Option.some.inj hstep ▸ h.searchList
  | hand cpuid owner o =>
      obtain ⟨⟨hc, -⟩, hstep⟩ := whenCall_eq_some.mp hstep
      exact Option.some.inj hstep ▸ h.hand hn hc
  | wakeupNext cpuid owner t =>
      obtain ⟨-, hstep⟩ := whenCall_eq_some.mp hstep
      exact Option.some.inj hstep ▸ h.wakeupNext
  | toIdle cpuid owner =>
      obtain ⟨-, hstep⟩ := whenCall_eq_some.mp hstep
      exact Option.some.inj hstep ▸ h.toIdle
  | wait t cpuid pid swapout =>
      simp only [nodeStep, Option.ite_none_right_eq_some, Option.some.injEq] at hstep
      obtain ⟨⟨-, -, hfree⟩, rfl⟩ := hstep
      exact h.wait hn hfree pid swapout
  | finishEnd t why o =>
      obtain ⟨⟨hc, -⟩, hstep⟩ := whenCall_eq_some.mp hstep
      exact Option.some.inj hstep ▸ h.finishEnd hc
  | switch t cpuid =>
      obtain ⟨-, hstep⟩ := whenCall_eq_some.mp hstep
      exact Option.some.inj hstep ▸ h.become rfl (by simp [Call.claims])
  | takeNonSched t cpuid eventPri =>
      obtain ⟨⟨-, hmode, -⟩, hstep⟩ := whenCall_eq_some.mp hstep
      exact Option.some.inj hstep ▸ h.takeNonSched hmode eventPri
  | sleep t cpuid reset =>
      obtain ⟨-, hstep⟩ := whenCall_eq_some.mp hstep
      have hgo : ExclusiveInv (s.become (.entered t cpuid) [.sleeping t cpuid]) :=
        h.become rfl (by simp [Call.claims])
      dsimp only at hstep
      by_cases hreset : reset = true
      · rw [if_pos hreset] at hstep
        exact Option.some.inj hstep ▸ hgo.setThread _ _
      · rw [if_neg hreset] at hstep
        exact Option.some.inj hstep ▸ hgo
  | quit t cpuid =>
      obtain ⟨-, hstep⟩ := whenCall_eq_some.mp hstep
      refine Option.some.inj hstep ▸ ?_
      exact (h.become rfl (by simp)).setThread _ _
  | resume t cpuid =>
      obtain ⟨-, hstep⟩ := whenCall_eq_some.mp hstep
      exact Option.some.inj hstep ▸ h.become rfl (by simp [Call.claims])
  | awake t cpuid =>
      obtain ⟨-, hstep⟩ := whenCall_eq_some.mp hstep
      exact Option.some.inj hstep ▸ h.become rfl (by simp [Call.claims])
  | waitReturn t cpuid =>
      obtain ⟨-, hstep⟩ := whenCall_eq_some.mp hstep
      exact Option.some.inj hstep ▸ h.waitReturn
  | waitFail t cpuid =>
      obtain ⟨-, hstep⟩ := whenCall_eq_some.mp hstep
      refine Option.some.inj hstep ▸ ?_
      exact (h.become rfl (by simp)).setThread _ _
  | exact t eventId cpuid procPri eventPri =>
      simp only [nodeStep, Option.ite_none_right_eq_some] at hstep
      exact h.exactTake hok.2 hstep.2
  | exactEnd t o old =>
      obtain ⟨⟨hc, -⟩, hstep⟩ := whenCall_eq_some.mp hstep
      exact Option.some.inj hstep ▸ h.exactEnd hc
  | timeout | delete | exitCheck => exact hok.elim
  | clearThread t =>
      simp only [nodeStep, Option.ite_none_right_eq_some] at hstep
      have hgone := hstep.1.1.1
      rw [h.live] at hgone
      cases hgone
  | clearEvent k eventPri =>
      simp only [nodeStep, Option.ite_none_right_eq_some] at hstep
      have hgone := hstep.1.1.1
      rw [h.live] at hgone
      cases hgone
  | free pid =>
      simp only [nodeStep, Option.ite_none_right_eq_some] at hstep
      have hgone := hstep.1.1.1
      rw [h.live] at hgone
      cases hgone

theorem initNode_exclusive (cfg : NodeCfg) : ExclusiveInv (initNode cfg) := by
  have hnot (k : GrpId) : (initNode cfg).exclusive k = false := rfl
  refine ⟨fun _ => rfl, fun k hk => ?_, fun _ _ => rfl, fun t o old hmem => ?_, fun k hk => ?_,
    fun k hk => ?_⟩
  · rw [hnot] at hk
    cases hk
  · cases hmem
  · rw [hnot] at hk
    cases hk
  · rw [hnot] at hk
    cases hk

theorem ExclusiveInv.oneAtATime (h : ExclusiveInv s) (hn : NodeInv cfg s) : OneAtATime s where
  thread t t' htt hex o o' ho ho' := by
    obtain rfl := h.one t.1 hex o o' (Or.inr ⟨t, rfl, ho⟩) (Or.inr ⟨t', htt.symm, ho'⟩)
    exact hn.custody.slot_inj ho.1 ho'.1
  select k hk o o' ho := by
    refine ⟨fun ho' => h.one k hk o o' (Or.inl ho) (Or.inl ho'), fun t ht ho' => ?_⟩
    obtain rfl := h.one k hk o o' (Or.inl ho) (Or.inr ⟨t, ht, ho'⟩)
    obtain ⟨c, ow, hmem, -⟩ := ho
    obtain ⟨-, -, hnoslot, -, -⟩ := hn.in_hand hmem (o := o) (by simp [Call.hands])
    exact hnoslot t ho'.1
  run k hk := by
    refine (h.run k hk).trans ⟨?_, ?_⟩
    · rintro ⟨o, ho | ⟨t, ht, ho⟩⟩
      · exact Or.inl ⟨o, ho⟩
      · exact Or.inr ⟨t, ht, o, ho⟩
    · rintro (⟨o, ho⟩ | ⟨t, ht, o, ho⟩)
      · exact ⟨o, Or.inl ho⟩
      · exact ⟨o, Or.inr ⟨t, ht, ho⟩⟩

/-- In a run of publishes and waits, an exclusive group has one event at a
time. -/
theorem exclusive_one_at_a_time (h : (nodeMachine cfg).ReachIf NoExclusiveFetch s) :
    OneAtATime s := by
  have hinv : NodeInv cfg s ∧ ExclusiveInv s := by
    refine h.invariant (P := fun s => NodeInv cfg s ∧ ExclusiveInv s) ?_ ?_
    · rintro s rfl
      exact ⟨initNode_inv cfg, initNode_exclusive cfg⟩
    · rintro s op s' ⟨hn, hex⟩ hok hstep
      exact ⟨nodeStep_inv hn hok.undisturbed hstep, nodeStep_exclusive hn hex hok hstep⟩
  exact hinv.2.oneAtATime hinv.1

/-- A node with two cpus. -/
def twoCpus : NodeCfg := { twoEvents with eventNum := 3, cpus := [0, 1] }

/-- The thread of an idle cpu is found for an event. -/
def findRun (cpuid o : ℕ) : List NodeOp :=
  [.select cpuid, .searchList cpuid none 0 0 0, .hand cpuid none o,
    .wakeupNext cpuid none ((7, 0), cpuid)]

/-- An exclusive group with a thread on each cpu; the first one runs on an
event. -/
def exclusiveRun : List NodeOp :=
  [.addGrp (7, 0) .bindDpCpuExclusive 2 true, .subscribe (7, 0) 0 3, .subscribe (7, 0) 1 3,
    .wait ((7, 0), 0) 0 100 false, .sleep ((7, 0), 0) 0 false,
    .wait ((7, 0), 1) 1 101 false, .sleep ((7, 0), 1) 1 false] ++
      publishRun (7, 0) 0 0 ++ [.count (7, 0)] ++ findRun 0 0 ++
        [.awake ((7, 0), 0) 0, .waitReturn ((7, 0), 0) 0] ++
          publishRun (7, 0) 1 1 ++ [.count (7, 0)]

theorem exclusive_one_at_a_time_waits :
    let s := (nodeMachine twoCpus).final (initNode twoCpus)
      (exclusiveRun ++ [.wait ((7, 0), 0) 0 100 false, .finishEnd ((7, 0), 0) (.wait 0) 0] ++
        findRun 1 1)
    s.runStatus (7, 0) = .run ∧ s.slot ((7, 0), 1) = some 1 ∧ OneAtATime s := by
  have hreach : (nodeMachine twoCpus).ReachIf NoExclusiveFetch ((nodeMachine twoCpus).final
      (initNode twoCpus) (exclusiveRun ++ [.wait ((7, 0), 0) 0 100 false,
        .finishEnd ((7, 0), 0) (.wait 0) 0] ++ findRun 1 1)) :=
    Machine.ReachIf.final (.start rfl) (by decide +kernel) (by decide +kernel)
  exact ⟨by decide +kernel, by decide +kernel, exclusive_one_at_a_time hreach⟩

/-- The other cpu takes an event while the first one is being given back. -/
def finishRun : List NodeOp :=
  exclusiveRun ++ [.wait ((7, 0), 0) 0 100 false] ++ findRun 1 1

/-- The other cpu takes an event while the first thread runs on one that it has
fetched. -/
def fetchExclusiveRun : List NodeOp :=
  exclusiveRun ++ publishRun (7, 0) 0 2 ++ [.count (7, 0), .exact ((7, 0), 0) 1 0 0 0,
    .exactEnd ((7, 0), 0) 1 0] ++ findRun 1 2

/-- Both threads of the exclusive group have an event and are not idle. -/
def BothBusy (s : SchedNode) : Prop :=
  s.exclusive (7, 0) = true ∧ (s.slot ((7, 0), 0)).isSome = true ∧
    (s.slot ((7, 0), 1)).isSome = true ∧ (s.thread ((7, 0), 0)).status ≠ .idle ∧
      (s.thread ((7, 0), 1)).status ≠ .idle

instance (s : SchedNode) : Decidable (BothBusy s) := by
  unfold BothBusy
  infer_instance

theorem two_exclusive_events :
    let s := (nodeMachine twoCpus).final (initNode twoCpus) finishRun
    let s' := (nodeMachine twoCpus).final (initNode twoCpus) fetchExclusiveRun
    (nodeMachine twoCpus).Reach s ∧ BothBusy s ∧ (nodeMachine twoCpus).Reach s' ∧ BothBusy s' := by
  refine ⟨Machine.Reach.final (.start rfl) ?_, ?_, Machine.Reach.final (.start rfl) ?_, ?_⟩
  all_goals decide +kernel

end OpiaiKernel.Esched
