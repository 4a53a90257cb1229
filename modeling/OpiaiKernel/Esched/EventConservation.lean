import OpiaiKernel.Esched.NodeClear
import OpiaiKernel.Lib.Machine

/-!
# Every event of a node is in one place

In a run in which a thread is left alone while it fetches an event, no event is
lost and none is given back twice.
-/

namespace OpiaiKernel.Esched

/-- Every event is in one place and there once, the lists know their lengths,
and an event finds room when it is given back. -/
structure Conserved (cfg : NodeCfg) (s : SchedNode) : Prop where
  place : Placement (· < cfg.eventNum) (InPlace s.que s.list s.slot s.hands)
  home : ∀ q, ∀ o ∈ (s.que q).ring, cfg.que o = q
  ring_nodup : ∀ q, (s.que q).ring.Nodup
  head_nodup : ∀ l, (s.list l).head.Nodup
  hands_nodup : s.hands.Nodup
  curNum : ∀ l, (s.list l).curNum = (s.list l).head.length
  room : ∀ o < cfg.eventNum, o ∉ (s.que (cfg.que o)).ring →
    (schedEventEnque (s.que (cfg.que o)) o).ring = (s.que (cfg.que o)).ring ++ [o]
  total : (∀ k, .added k ∉ s.calls) → s.curEventNum = schedListNum cfg s.list

/-- The step leaves a thread alone that fetches an event, and a woken thread
finds its cpu as it was left to it. -/
def Undisturbed (s : SchedNode) : NodeOp → Prop
  | .exact t .. => ∀ n ∈ s.calls, n.busy t = false
  | .wait t .. => (s.thread t).status = .run → ∀ n ∈ s.calls, n.isExact t = false
  | .timeout cpuid _ | .exitCheck cpuid =>
      ∀ t ∈ s.cur cpuid, ∀ n ∈ s.calls, n.isExact t = false
  | .waitReturn t cpuid => s.cur cpuid = some t ∨ (s.slot t = none ∧ s.cur cpuid = none)
  | _ => True

instance (s : SchedNode) : ∀ op, Decidable (Undisturbed s op)
  | .exact .. | .wait .. | .timeout .. | .exitCheck .. | .waitReturn .. => by
      unfold Undisturbed
      infer_instance
  | .addGrp .. | .subscribe .. | .setMaxEventNum .. | .publish .. | .alloc .. | .allocFail ..
  | .fill .. | .raise .. | .lower .. | .add .. | .count .. | .giveBack .. | .wakeup ..
  | .select .. | .searchList .. | .hand .. | .wakeupNext .. | .toIdle .. | .finishEnd ..
  | .switch .. | .takeNonSched .. | .sleep .. | .quit .. | .resume .. | .awake .. | .waitFail ..
  | .exactEnd .. | .delete .. | .clearThread .. | .clearEvent .. | .free .. => isTrue trivial

variable {cfg : NodeCfg} {s s' : SchedNode}

theorem whenCall_eq_some {c : Call} {p : Prop} [Decidable p] {x : Option SchedNode} :
    s.whenCall c p x = some s' ↔ (c ∈ s.calls ∧ p) ∧ x = some s' := by
  rw [SchedNode.whenCall, Option.ite_none_right_eq_some]

theorem SchedNode.Unreferenced.free {pid : ℕ} (h : s.Unreferenced pid) {n : Call}
    (hn : n ∈ s.calls) : n.holdsProc pid = false := by
  simpa using List.all_eq_true.mp h.2 n hn

theorem nodeStep_inv {op : NodeOp} (h : NodeInv cfg s) (hok : Undisturbed s op)
    (hstep : nodeStep cfg s op = some s') : NodeInv cfg s' := by
  cases op with
  | addGrp k schedMode threadNum alloc =>
      simp only [nodeStep] at hstep
      split_ifs at hstep with hk
      · exact Option.some.inj hstep ▸ h
      · exact Option.some.inj hstep ▸ h.addGrp (by omega) schedMode threadNum alloc
  | subscribe k tid eventBitmap =>
      simp only [nodeStep] at hstep
      split_ifs at hstep
      · exact Option.some.inj hstep ▸ h
      · exact Option.some.inj hstep ▸ h.subscribe tid eventBitmap
  | setMaxEventNum k eventId maxNum =>
      simp only [nodeStep] at hstep
      split_ifs at hstep
      · exact Option.some.inj hstep ▸ h
      · exact Option.some.inj hstep ▸ h.setMaxEventNum _
  | publish k eventId tid => exact Option.some.inj hstep ▸ h.publish eventId tid
  | alloc event q =>
      obtain ⟨⟨hc, -⟩, hstep⟩ := whenCall_eq_some.mp hstep
      exact h.alloc hc hstep
  | allocFail event =>
      obtain ⟨⟨hc, -⟩, hstep⟩ := whenCall_eq_some.mp hstep
      exact Option.some.inj hstep ▸ h.allocFail hc
  | fill event o ok =>
      obtain ⟨⟨hc, -⟩, hstep⟩ := whenCall_eq_some.mp hstep
      exact Option.some.inj hstep ▸ h.fill hc ok
  | raise k o self =>
      obtain ⟨⟨hc, -⟩, hstep⟩ := whenCall_eq_some.mp hstep
      exact Option.some.inj hstep ▸ h.raise hc self
  | lower k o =>
      obtain ⟨⟨hc, -⟩, hstep⟩ := whenCall_eq_some.mp hstep
      exact Option.some.inj hstep ▸ h.lower hc
  | add k o procPri eventPri =>
      obtain ⟨⟨hc, hproc, hevent⟩, hstep⟩ := whenCall_eq_some.mp hstep
      exact Option.some.inj hstep ▸ h.add hc hproc hevent
  | count k =>
      obtain ⟨⟨hc, -⟩, hstep⟩ := whenCall_eq_some.mp hstep
      exact Option.some.inj hstep ▸ h.count_added hc
  | giveBack k o =>
      obtain ⟨⟨hc, -⟩, hstep⟩ := whenCall_eq_some.mp hstep
      exact Option.some.inj hstep ▸ h.giveBack hc
  | wakeup t =>
      simp only [nodeStep, Option.ite_none_right_eq_some, Option.some.injEq] at hstep
      obtain ⟨⟨hmode, hvalid⟩, rfl⟩ := hstep
      exact h.wakeup hmode hvalid
  | select cpuid =>
      simp only [nodeStep, Option.ite_none_right_eq_some, Option.some.injEq] at hstep
      obtain ⟨⟨hcpu, hcur, hfree⟩, rfl⟩ := hstep
      exact h.select hcpu hcur hfree
  | searchList cpuid owner procPri eventPri curTime =>
      obtain ⟨⟨hc, -⟩, hstep⟩ := whenCall_eq_some.mp hstep
      exact Option.some.inj hstep ▸ h.searchList hc
  | hand cpuid owner o =>
      obtain ⟨⟨hc, -⟩, hstep⟩ := whenCall_eq_some.mp hstep
      exact Option.some.inj hstep ▸ h.hand hc
  | wakeupNext cpuid owner t =>
      obtain ⟨⟨hc, -⟩, hstep⟩ := whenCall_eq_some.mp hstep
      exact Option.some.inj hstep ▸ h.wakeupNext hc
  | toIdle cpuid owner =>
      obtain ⟨⟨hc, -⟩, hstep⟩ := whenCall_eq_some.mp hstep
      exact Option.some.inj hstep ▸ h.toIdle hc
  | wait t cpuid pid swapout =>
      simp only [nodeStep, Option.ite_none_right_eq_some, Option.some.injEq] at hstep
      obtain ⟨⟨-, -, hfree⟩, rfl⟩ := hstep
      exact h.wait hfree hok cpuid pid swapout
  | finishEnd t why o =>
      obtain ⟨⟨hc, -⟩, hstep⟩ := whenCall_eq_some.mp hstep
      exact Option.some.inj hstep ▸ h.finishEnd hc
  | switch t cpuid =>
      obtain ⟨⟨hc, hmode, hbind, hrun⟩, hstep⟩ := whenCall_eq_some.mp hstep
      exact Option.some.inj hstep ▸ h.switch hc hmode hbind hrun
  | takeNonSched t cpuid eventPri =>
      obtain ⟨⟨hc, hmode, -⟩, hstep⟩ := whenCall_eq_some.mp hstep
      exact Option.some.inj hstep ▸ h.takeNonSched hc hmode eventPri
  | sleep t cpuid reset =>
      obtain ⟨⟨hc, hsleep⟩, hstep⟩ := whenCall_eq_some.mp hstep
      have hinv := h.sleep hc reset fun hreset => by
        rcases hsleep with hmode | ⟨hno, -⟩
        · exact hmode
        · rw [hreset] at hno
          cases hno
      dsimp only at hstep
      by_cases hreset : reset = true
      · rw [if_pos hreset] at hinv hstep
        exact Option.some.inj hstep ▸ hinv
      · rw [if_neg hreset] at hinv hstep
        exact Option.some.inj hstep ▸ hinv
  | quit t cpuid =>
      obtain ⟨⟨hc, -⟩, hstep⟩ := whenCall_eq_some.mp hstep
      exact Option.some.inj hstep ▸ h.quit hc
  | resume t cpuid =>
      obtain ⟨⟨hc, hmode, hfree⟩, hstep⟩ := whenCall_eq_some.mp hstep
      exact Option.some.inj hstep ▸ h.resume hc hmode hfree
  | awake t cpuid =>
      obtain ⟨⟨hc, hmode, -⟩, hstep⟩ := whenCall_eq_some.mp hstep
      exact Option.some.inj hstep ▸ h.awake hc hmode
  | waitReturn t cpuid =>
      obtain ⟨⟨hc, hfree⟩, hstep⟩ := whenCall_eq_some.mp hstep
      exact Option.some.inj hstep ▸ h.waitReturn hc hfree hok
  | waitFail t cpuid =>
      obtain ⟨⟨hc, hfree⟩, hstep⟩ := whenCall_eq_some.mp hstep
      exact Option.some.inj hstep ▸ h.waitFail hc hfree
  | exact t eventId cpuid procPri eventPri =>
      simp only [nodeStep, Option.ite_none_right_eq_some] at hstep
      exact h.exact hok hstep.2
  | exactEnd t o old =>
      obtain ⟨⟨hc, -⟩, hstep⟩ := whenCall_eq_some.mp hstep
      exact Option.some.inj hstep ▸ h.exactEnd hc
  | timeout cpuid timestamp =>
      obtain ⟨t, hcur, hstep⟩ := Option.bind_eq_some_iff.mp hstep
      simp only [Option.ite_none_right_eq_some, Option.some.injEq] at hstep
      obtain ⟨⟨-, -, -, hfree⟩, rfl⟩ := hstep
      exact h.finishCur hcur hfree (hok t hcur) (.inl ⟨timestamp, rfl⟩)
  | delete pid => exact Option.some.inj hstep ▸ h.delete pid
  | exitCheck cpuid =>
      obtain ⟨t, hcur, hstep⟩ := Option.bind_eq_some_iff.mp hstep
      simp only [Option.ite_none_right_eq_some, Option.some.injEq] at hstep
      obtain ⟨⟨-, hfree⟩, rfl⟩ := hstep
      exact h.finishCur hcur hfree (hok t hcur) (.inr rfl)
  | clearThread t =>
      simp only [nodeStep, Option.ite_none_right_eq_some, Option.some.injEq] at hstep
      obtain ⟨⟨hnone, -, ht⟩, rfl⟩ := hstep
      exact h.clearThread (fun n hn => hnone.free hn) ht
  | clearEvent k eventPri =>
      simp only [nodeStep, Option.ite_none_right_eq_some, Option.some.injEq] at hstep
      obtain ⟨⟨-, hmode, -⟩, rfl⟩ := hstep
      exact h.clearEvent hmode eventPri
  | free pid =>
      simp only [nodeStep, Option.ite_none_right_eq_some, Option.some.injEq] at hstep
      obtain ⟨⟨hnone, hcleared⟩, rfl⟩ := hstep
      exact h.free hnone.1 (fun n hn => hnone.free hn) hcleared

/-! ## Runs -/

theorem initNode_inv (cfg : NodeCfg) : NodeInv cfg (initNode cfg) := by
  refine ⟨?_, fun k => zeroGrpCtx_mapInv, fun k _ => rfl, ?_, ?_, ?_⟩
  · refine ⟨fun t => Nat.zero_le _, fun c => Nat.zero_le _, fun t _ => Nat.zero_le _,
      fun n hn => ?_, fun c t hcur => ?_, fun t _ => rfl, fun t _ hne => absurd rfl hne,
      fun t hsome => absurd rfl hsome⟩
    · cases hn
    · cases hcur
  · refine ⟨fun n hn => ?_, fun l o ho => ?_, fun t o ho => ?_⟩
    · cases hn
    · cases ho
    · cases ho
  · refine ⟨⟨fun p o ho => ?_, fun o ho => ⟨.free (cfg.que o), ?_, fun p hp => ?_⟩⟩,
      fun q o ho => ?_, fun q => rfl, fun q => ?_, fun l => List.nodup_nil, fun l => rfl,
      List.nodup_nil⟩
    · cases p with
      | free q => exact List.mem_range.mp (List.mem_filter.mp ho).1
      | listed l => cases ho
      | slot t => cases ho
      | hand => cases ho
    · exact List.mem_filter.mpr ⟨List.mem_range.mpr ho, by simp⟩
    · cases p with
      | free q =>
          have hq : cfg.que o = q := by simpa using (List.mem_filter.mp hp).2
          rw [hq]
      | listed l => cases hp
      | slot t => cases hp
      | hand => cases hp
    · simpa using (List.mem_filter.mp ho).2
    · exact List.nodup_range.filter _
  · refine ⟨fun l _ => rfl, ?_, fun k => ?_⟩
    · simp [initNode, schedListNum]
    · rw [show (initNode cfg).calls = [] from rfl, List.countP_nil, ite_self]
      simp [initNode, nonSchedListNum]

theorem NodeInv.conserved (h : NodeInv cfg s) : Conserved cfg s where
  place := h.custody.place
  home := h.custody.home
  ring_nodup := h.custody.ring_nodup
  head_nodup := h.custody.head_nodup
  hands_nodup := h.custody.hands_nodup
  curNum := h.custody.curNum
  room o ho hout := by
    obtain ⟨p, hp, -⟩ := h.custody.place.sole o ho
    have hne : p ≠ .free (cfg.que o) := by
      rintro rfl
      exact hout hp
    rw [schedEventEnque, if_neg (h.custody.not_full hne hp)]
  total hadded := by
    have hzero : s.calls.countP Call.uncounted = 0 := by
      refine List.countP_eq_zero.mpr fun n hn hun => ?_
      cases n with
      | added k => exact hadded k hn
      | _ => cases hun
    have hnode := h.count.node
    rw [hzero] at hnode
    simpa using hnode

/-- In a run that leaves a thread alone while it fetches an event, every event
is in one place. -/
theorem conserved_of_undisturbed (h : (nodeMachine cfg).ReachIf Undisturbed s) :
    Conserved cfg s := by
  refine NodeInv.conserved (h.invariant ?_ ?_)
  · rintro s rfl
    exact initNode_inv cfg
  · intro s op s' hinv hok hstep
    exact nodeStep_inv hinv hok hstep

/-- A node with two events. -/
def twoEvents : NodeCfg where
  eventNum := 2
  que _ := .node
  cpus := [0]
  depth _ := 8
  procPriNum := 1
  eventPriNum := 1
  grpNum := 1

def publishRun (k : GrpId) (eventId o : ℕ) : List NodeOp :=
  let event : SchedEvent := ⟨k.1, k.2, eventId, none⟩
  [.publish k eventId none, .alloc event .node, .fill event o true, .raise k o false,
    .add k o 0 0]

/-- A thread runs on its first event, and fetches the second one. -/
def fetchRun : List NodeOp :=
  [.addGrp (7, 0) .bindCpCpu 1 true, .subscribe (7, 0) 0 3, .wait ((7, 0), 0) 0 100 false] ++
    publishRun (7, 0) 0 0 ++ [.takeNonSched ((7, 0), 0) 0 0] ++ publishRun (7, 0) 1 1 ++
      [.exact ((7, 0), 0) 1 0 0 0]

theorem conserved_of_undisturbed_fetched :
    let s := (nodeMachine twoEvents).final (initNode twoEvents)
      (fetchRun ++ [.exactEnd ((7, 0), 0) 1 0])
    s.slot ((7, 0), 0) = some 1 ∧ (s.que .node).ring = [0] ∧ Conserved twoEvents s := by
  refine ⟨by decide +kernel, by decide +kernel, conserved_of_undisturbed ?_⟩
  exact Machine.ReachIf.final (.start rfl) (by decide +kernel) (by decide +kernel)

/-- While a thread fetches an event, a second caller waits with the same thread
number, and the first event goes back twice. -/
def doubleFreeRun : List NodeOp :=
  fetchRun ++ [.wait ((7, 0), 0) 0 101 false, .finishEnd ((7, 0), 0) (.wait 0) 0,
    .exactEnd ((7, 0), 0) 1 0]

theorem event_freed_twice :
    let s := (nodeMachine twoEvents).final (initNode twoEvents) doubleFreeRun
    (nodeMachine twoEvents).Reach s ∧ (s.que .node).ring = [0, 0] ∧ ¬ Conserved twoEvents s := by
  have hring : (((nodeMachine twoEvents).final (initNode twoEvents) doubleFreeRun).que .node).ring =
      [0, 0] := by decide +kernel
  refine ⟨Machine.Reach.final (.start rfl) (by decide +kernel), hring, fun h => ?_⟩
  have hnodup := h.ring_nodup .node
  rw [hring] at hnodup
  revert hnodup
  decide

end OpiaiKernel.Esched
