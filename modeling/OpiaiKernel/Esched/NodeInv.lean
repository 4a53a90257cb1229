import OpiaiKernel.Esched.NodeCount
import OpiaiKernel.Esched.NodeEvent

/-!
# The invariant of a node

What holds of the threads, the groups, the events and the counters of a node,
and how a step keeps it: a step that leaves the groups alone moves events, or
changes a group and moves none.
-/

namespace OpiaiKernel.Esched

structure NodeInv (cfg : NodeCfg) (s : SchedNode) : Prop where
  thread : ThreadInv cfg s.view
  group : ∀ k, GrpMapInv (s.grp k)
  small : ∀ k, cfg.grpNum ≤ k.2 → s.mode k = .uninit
  event : EventInv s
  custody : Custody cfg s.que s.list s.slot s.hands
  count : CountInv cfg s

/-! ## Hands -/

section Hands

variable {s : SchedNode} {c : Call}

theorem hands_perm (hc : c ∈ s.calls) :
    s.hands.Perm (c.hands ++ (s.calls.erase c).flatMap Call.hands) :=
  (List.perm_cons_erase hc).flatMap_right Call.hands

@[simp] theorem hands_append (next rest : List Call) :
    (next ++ rest).flatMap Call.hands = next.flatMap Call.hands ++ rest.flatMap Call.hands :=
  List.flatMap_append

end Hands

/-! ## Counters -/

section Count

variable {cfg : NodeCfg} {s s' : SchedNode} {c : Call}

/-- The lists and the counters stay. -/
theorem CountInv.calls (h : CountInv cfg s) (hlist : s'.list = s.list)
    (hcur : s'.curEventNum = s.curEventNum) (hgrp : s'.grpEventNum = s.grpEventNum)
    (hmode : ∀ k, s'.mode k = s.mode k ∨ s.calls.countP (Call.counted k) = 0)
    (huncounted : s'.calls.countP Call.uncounted = s.calls.countP Call.uncounted)
    (hcounted : ∀ k, s'.calls.countP (Call.counted k) = s.calls.countP (Call.counted k)) :
    CountInv cfg s' := by
  refine ⟨hlist ▸ h.inRange, ?_, fun k => ?_⟩
  · rw [hcur, huncounted, hlist]
    exact h.node
  · rw [hgrp, hcounted, hlist, h.grp k]
    rcases hmode k with heq | hzero
    · rw [heq]
    · simp [hzero]

theorem countP_become {p : Call → Bool} {next : List Call} (hc : c ∈ s.calls)
    (hcalls : s'.calls = next ++ s.calls.erase c) :
    s'.calls.countP p + (if p c = true then 1 else 0) = s.calls.countP p + next.countP p := by
  have herase := AtMostOne.countP_erase (p := p) hc
  rw [hcalls, List.countP_append]
  omega

/-- The call goes on, and events are queued or taken. -/
theorem CountInv.move (h : CountInv cfg s) {next : List Call} (hc : c ∈ s.calls)
    (hcalls : s'.calls = next ++ s.calls.erase c) (hmode : s'.mode = s.mode)
    (hinRange : ∀ l, ¬ l.InRange cfg → (s'.list l).head = [])
    (hnode : s'.curEventNum + next.countP Call.uncounted + schedListNum cfg s.list =
      s.curEventNum + (if c.uncounted = true then 1 else 0) + schedListNum cfg s'.list)
    (hgrp : ∀ k, s'.grpEventNum k + nonSchedListNum cfg s.list k +
        (if s.mode k = .schedCpu then 0 else if c.counted k = true then 1 else 0) =
      s.grpEventNum k + nonSchedListNum cfg s'.list k +
        if s.mode k = .schedCpu then 0 else (next.countP (Call.counted k) : ℤ)) :
    CountInv cfg s' := by
  refine ⟨hinRange, ?_, fun k => ?_⟩
  · have hnum := countP_become (p := Call.uncounted) hc hcalls
    have hold := h.node
    split at hnum <;> simp_all <;> omega
  · have hnum := countP_become (p := Call.counted k) hc hcalls
    have hold := h.grp k
    have hnew := hgrp k
    rw [hmode]
    split
    · next hsched =>
      rw [if_pos hsched] at hold hnew
      rw [if_pos hsched] at hnew
      omega
    · next hsched =>
      rw [if_neg hsched] at hold hnew
      rw [if_neg hsched] at hnew
      split at hnew <;> simp_all <;> omega

end Count

/-! ## Steps that leave the groups alone -/

section Same

variable {cfg : NodeCfg} {s s' : SchedNode} {c : Call} {next : List Call}

theorem Later.of_same (hsame : ∀ k, SameThreads (s.grp k) (s'.grp k))
    (hgone : ∀ pid, s.gone pid = true → s'.gone pid = true) : Later s s' :=
  ⟨fun k _ => (hsame k).schedMode,
    fun t ht => ⟨((hsame t.1).valid t.2).trans ht, (hsame t.1).bindCpuid t.2⟩, hgone⟩

theorem NodeInv.step (h : NodeInv cfg s) (hsame : ∀ k, SameThreads (s.grp k) (s'.grp k))
    (hgone : ∀ pid, s.gone pid = true → s'.gone pid = true) (hobj : ∀ o, SameEvent s s' o)
    (hcalls : ∀ n ∈ s'.calls, n ∈ s.calls ∨ CallEvent s' n)
    (hlist : ∀ l, ∀ o ∈ (s'.list l).head, o ∈ (s.list l).head ∨ ListEvent s' l o)
    (hslot : ∀ t, ∀ o ∈ s'.slot t, o ∈ s.slot t ∨ (s'.obj o).grpId = t.1)
    (hthread : ThreadInv cfg s'.view) (hcustody : Custody cfg s'.que s'.list s'.slot s'.hands)
    (hcount : CountInv cfg s') : NodeInv cfg s' where
  thread := hthread
  group k := (h.group k).same (hsame k)
  small k hk := (hsame k).schedMode.trans (h.small k hk)
  event := h.event.step (.of_same hsame hgone) hobj hcalls hlist hslot
  custody := hcustody
  count := hcount

/-- No event moves. -/
structure Stays (s s' : SchedNode) : Prop where
  que : s'.que = s.que
  list : s'.list = s.list
  slot : s'.slot = s.slot
  obj : s'.obj = s.obj
  curEventNum : s'.curEventNum = s.curEventNum
  grpEventNum : s'.grpEventNum = s.grpEventNum
  gone : ∀ pid, s.gone pid = true → s'.gone pid = true

theorem Stays.refl (s : SchedNode) : Stays s s := ⟨rfl, rfl, rfl, rfl, rfl, rfl, fun _ h => h⟩

theorem NodeInv.stay (h : NodeInv cfg s) (hstay : Stays s s')
    (hsame : ∀ k, SameThreads (s.grp k) (s'.grp k))
    (hcalls : ∀ n ∈ s'.calls, n ∈ s.calls ∨ CallEvent s' n)
    (hhands : s.hands.Perm s'.hands)
    (huncounted : s'.calls.countP Call.uncounted = s.calls.countP Call.uncounted)
    (hcounted : ∀ k, s'.calls.countP (Call.counted k) = s.calls.countP (Call.counted k))
    (hthread : ThreadInv cfg s'.view) : NodeInv cfg s' := by
  refine h.step hsame hstay.gone (fun o => ?_) hcalls (fun l o ho => ?_) (fun t o ho => ?_)
    hthread ?_ ?_
  · rw [SameEvent, hstay.obj]
    exact ⟨rfl, fun _ hmap => hmap⟩
  · exact Or.inl (hstay.list ▸ ho)
  · exact Or.inl (hstay.slot ▸ ho)
  · rw [hstay.que, hstay.list, hstay.slot]
    exact h.custody.perm hhands
  · exact h.count.calls hstay.list hstay.curEventNum hstay.grpEventNum
      (fun k => Or.inl (hsame k).schedMode) huncounted hcounted

/-- The call goes on, and its event stays in its hands. -/
theorem NodeInv.become (h : NodeInv cfg s) (hc : c ∈ s.calls) (hstay : Stays s s')
    (hsame : ∀ k, SameThreads (s.grp k) (s'.grp k))
    (hcalls : s'.calls = next ++ s.calls.erase c) (hnext : ∀ n ∈ next, CallEvent s' n)
    (hhands : next.flatMap Call.hands = c.hands)
    (huncounted : next.countP Call.uncounted = if c.uncounted = true then 1 else 0)
    (hcounted : ∀ k, next.countP (Call.counted k) = if c.counted k = true then 1 else 0)
    (hthread : ThreadInv cfg s'.view) : NodeInv cfg s' := by
  refine h.stay hstay hsame (fun n hn => ?_) ?_ ?_ (fun k => ?_) hthread
  · rw [hcalls] at hn
    rcases List.mem_append.mp hn with hn | hn
    · exact Or.inr (hnext n hn)
    · exact Or.inl (List.mem_of_mem_erase hn)
  · rw [SchedNode.hands, SchedNode.hands, hcalls, hands_append, hhands]
    exact hands_perm hc
  · have hnum := countP_become (p := Call.uncounted) hc hcalls
    omega
  · have hnum := countP_become (p := Call.counted k) hc hcalls
    have := hcounted k
    omega

/-- A call starts that has no event. -/
theorem NodeInv.start (h : NodeInv cfg s) {n : Call} (hstay : Stays s s')
    (hsame : ∀ k, SameThreads (s.grp k) (s'.grp k)) (hcalls : s'.calls = n :: s.calls)
    (hn : CallEvent s' n) (hhands : n.hands = []) (huncounted : n.uncounted = false)
    (hcounted : ∀ k, n.counted k = false) (hthread : ThreadInv cfg s'.view) :
    NodeInv cfg s' := by
  refine h.stay hstay hsame (fun m hm => ?_) ?_ ?_ (fun k => ?_) hthread
  · rw [hcalls] at hm
    rcases List.mem_cons.mp hm with rfl | hm
    · exact Or.inr hn
    · exact Or.inl hm
  · rw [SchedNode.hands, SchedNode.hands, hcalls, List.flatMap_cons, hhands, List.nil_append]
  · rw [hcalls, List.countP_cons_of_neg (by simp [huncounted])]
  · rw [hcalls, List.countP_cons_of_neg (by simp [hcounted k])]

/-- Only the threads change. -/
theorem NodeInv.threads (h : NodeInv cfg s) (hstay : Stays s s')
    (hsame : ∀ k, SameThreads (s.grp k) (s'.grp k)) (hcalls : s'.calls = s.calls)
    (hthread : ThreadInv cfg s'.view) : NodeInv cfg s' := by
  refine h.stay hstay hsame (fun n hn => Or.inl (hcalls ▸ hn)) ?_ (by rw [hcalls])
    (fun k => by rw [hcalls]) hthread
  rw [SchedNode.hands, SchedNode.hands, hcalls]

end Same

/-! ## Groups -/

section Groups

variable {cfg : NodeCfg} {s : SchedNode} {k : GrpId} {grp : SchedGrpCtx}

theorem NodeInv.init_of_valid (h : NodeInv cfg s) {t : ThreadId} (ht : (s.thread t).valid = true) :
    s.mode t.1 ≠ .uninit := by
  intro hmode
  have hnone := ((h.group t.1).uninit hmode).2.1 t.2
  rw [show registered (s.grp t.1) t.2 = true from ht] at hnone
  cases hnone

theorem NodeInv.fresh (h : NodeInv cfg s) (k : GrpId) : Fresh (s.grp k) :=
  fun tid ht => h.thread.fresh (k, tid) ht

/-- A group that does not exist has no counted call. -/
theorem NodeInv.counted_uninit (h : NodeInv cfg s) (hmode : s.mode k = .uninit) :
    s.calls.countP (Call.counted k) = 0 := by
  refine List.countP_eq_zero.mpr fun n hn hcounted => ?_
  cases n <;> simp only [Call.counted, decide_eq_true_eq, Bool.false_eq_true] at hcounted
  · subst hcounted
    exact (h.event.call _ hn).mode hmode
  · subst hcounted
    exact h.init_of_valid (h.thread.call _ hn).1 hmode

/-- A group changes, and its registered threads stay as they are. -/
theorem NodeInv.setGrp (h : NodeInv cfg s) (hgrows : Grows (s.grp k) grp) (hinv : GrpMapInv grp)
    (hsmall : cfg.grpNum ≤ k.2 → grp.schedMode = (s.grp k).schedMode) :
    NodeInv cfg (s.setGrp k grp) := by
  have hgrp (k' : GrpId) : Grows (s.grp k') ((s.setGrp k grp).grp k') := by
    rcases eq_or_ne k' k with rfl | hne
    · simpa [SchedNode.setGrp] using hgrows
    · simpa [SchedNode.setGrp, Function.update_of_ne hne] using Grows.refl (h.fresh k')
  have hlater : Later s (s.setGrp k grp) :=
    ⟨fun k' hmode => (hgrp k').schedMode hmode,
      fun t ht => ⟨((hgrp t.1).keep t.2 ht).1, ((hgrp t.1).keep t.2 ht).2.1⟩, fun _ hp => hp⟩
  refine ⟨?_, fun k' => ?_, fun k' hk => ?_, ?_, h.custody, ?_⟩
  · exact h.thread.setGroups (fun t ht => h.init_of_valid ht) (fun k' hmode => hlater.mode k' hmode)
      (fun t ht => (hgrp t.1).keep t.2 ht) (fun t ht => (hgrp t.1).fresh t.2 ht) rfl rfl rfl
  · rcases eq_or_ne k' k with rfl | hne
    · simpa [SchedNode.setGrp] using hinv
    · simpa [SchedNode.setGrp, Function.update_of_ne hne] using h.group k'
  · rcases eq_or_ne k' k with rfl | hne
    · have hmode := h.small k' hk
      rw [SchedNode.mode] at hmode ⊢
      simpa [SchedNode.setGrp, hsmall hk] using hmode
    · have hmode := h.small k' hk
      rw [SchedNode.mode] at hmode ⊢
      simpa [SchedNode.setGrp, Function.update_of_ne hne] using hmode
  · exact h.event.step hlater (fun o => ⟨rfl, fun _ hmap => hmap⟩) (fun n hn => Or.inl hn)
      (fun l o ho => Or.inl ho) fun t o ho => Or.inl ho
  · refine h.count.calls rfl rfl rfl (fun k' => ?_) rfl fun k' => rfl
    by_cases hmode : s.mode k' = .uninit
    · exact Or.inr (h.counted_uninit hmode)
    · exact Or.inl (hlater.mode k' hmode)

end Groups

end OpiaiKernel.Esched
