import OpiaiKernel.Esched.EventConservation
import OpiaiKernel.Esched.NodeFinished

/-!
# The quota of a group

The count of an event id is raised before the event is queued.  It is exact as
long as no event finds its list full: then the publish fails, and the count
stays raised.
-/

namespace OpiaiKernel.Esched

variable {cfg : NodeCfg} {s s' : SchedNode}

/-! ## Runs -/

/-- The count of an id is the number of accepted events that are not finished,
with the publishes that are being refused, and a publish is refused when the
quota is used up. -/
structure QuotaKept (cfg : NodeCfg) (s : SchedNode) : Prop where
  num : ∀ k, s.gone k.1 = false → ∀ e,
    s.eventNum k e = outstanding cfg s k e + refusing s k e
  refusal : ∀ r ∈ s.refusals, s.gone r.k.1 = false → r.maxEventNum ≤ r.outstanding

/-- An event finds room in its list, and no other publish is being refused when
the quota is not used up. -/
def Roomy (cfg : NodeCfg) (s : SchedNode) : NodeOp → Prop
  | .add k o procPri eventPri =>
      s.gone k.1 = true ∨
        (schedEventAddTail (s.list (publishList s k procPri eventPri)) o).isSome = true
  | .raise k o _ =>
      s.gone k.1 = false →
        outstanding cfg s k (s.obj o).eventId < s.maxEventNum k (s.obj o).eventId →
          refusing s k (s.obj o).eventId = 0
  | op => Undisturbed s op

instance (cfg : NodeCfg) (s : SchedNode) : ∀ op, Decidable (Roomy cfg s op)
  | .add .. | .raise .. => by
      unfold Roomy
      infer_instance
  | .exact .. | .wait .. | .timeout .. | .exitCheck .. | .waitReturn .. => by
      unfold Roomy Undisturbed
      infer_instance
  | .addGrp .. | .subscribe .. | .setMaxEventNum .. | .publish .. | .alloc .. | .allocFail ..
  | .fill .. | .lower .. | .count .. | .giveBack .. | .wakeup .. | .select .. | .searchList ..
  | .hand .. | .wakeupNext .. | .toIdle .. | .finishEnd .. | .switch .. | .takeNonSched ..
  | .sleep .. | .quit .. | .resume .. | .awake .. | .waitFail .. | .exactEnd .. | .delete ..
  | .clearThread .. | .clearEvent .. | .free .. => isTrue trivial

theorem Roomy.undisturbed {op : NodeOp} (h : Roomy cfg s op) : Undisturbed s op := by
  cases op with
  | add | raise => trivial
  | _ => exact h

theorem nodeStep_accept {op : NodeOp} (hn : NodeInv cfg s) (h : AcceptInv cfg s)
    (hok : Roomy cfg s op) (hstep : nodeStep cfg s op = some s') : AcceptInv cfg s' := by
  cases op with
  | addGrp k schedMode threadNum alloc =>
      simp only [nodeStep] at hstep
      split_ifs at hstep
      · exact Option.some.inj hstep ▸ h
      · exact Option.some.inj hstep ▸ h.setGrp _ _
  | subscribe k tid eventBitmap =>
      simp only [nodeStep] at hstep
      split_ifs at hstep
      · exact Option.some.inj hstep ▸ h
      · exact Option.some.inj hstep ▸ h.setGrp _ _
  | setMaxEventNum k eventId maxNum =>
      simp only [nodeStep] at hstep
      split_ifs at hstep
      · exact Option.some.inj hstep ▸ h
      · refine Option.some.inj hstep ▸ ?_
        exact h.keepCalls ⟨rfl, rfl, rfl, rfl, rfl, rfl, rfl, fun _ hp => hp⟩ rfl
  | publish k eventId tid => exact Option.some.inj hstep ▸ h.publish k eventId tid
  | alloc event q =>
      obtain ⟨⟨hc, -⟩, hstep⟩ := whenCall_eq_some.mp hstep
      exact h.alloc hc hstep
  | allocFail event =>
      obtain ⟨⟨hc, -⟩, hstep⟩ := whenCall_eq_some.mp hstep
      exact Option.some.inj hstep ▸ h.become hc rfl (by simp)
  | fill event o ok =>
      obtain ⟨⟨hc, -⟩, hstep⟩ := whenCall_eq_some.mp hstep
      exact Option.some.inj hstep ▸ h.fill hn hc ok
  | raise k o self =>
      obtain ⟨⟨hc, -⟩, hstep⟩ := whenCall_eq_some.mp hstep
      exact Option.some.inj hstep ▸ h.raise hn hc self hok
  | lower k o =>
      obtain ⟨⟨hc, -⟩, hstep⟩ := whenCall_eq_some.mp hstep
      exact Option.some.inj hstep ▸ h.lower hc
  | add k o procPri eventPri =>
      obtain ⟨⟨hc, -⟩, hstep⟩ := whenCall_eq_some.mp hstep
      exact Option.some.inj hstep ▸ h.add hn hc hok
  | count k =>
      obtain ⟨⟨hc, -⟩, hstep⟩ := whenCall_eq_some.mp hstep
      refine Option.some.inj hstep ▸ ?_
      have hgo : AcceptInv cfg (s.become (.added k) []) := h.become hc rfl (by simp)
      exact hgo.keepCalls ⟨rfl, rfl, rfl, rfl, rfl, rfl, rfl, fun _ hp => hp⟩ rfl
  | giveBack k o =>
      obtain ⟨⟨hc, -⟩, hstep⟩ := whenCall_eq_some.mp hstep
      exact Option.some.inj hstep ▸ h.giveBack hn hc
  | wakeup t =>
      simp only [nodeStep, Option.ite_none_right_eq_some, Option.some.injEq] at hstep
      exact hstep.2 ▸ h.wakeup t
  | select cpuid =>
      simp only [nodeStep, Option.ite_none_right_eq_some, Option.some.injEq] at hstep
      exact hstep.2 ▸ h.start rfl
  | searchList cpuid owner procPri eventPri curTime =>
      obtain ⟨⟨hc, -⟩, hstep⟩ := whenCall_eq_some.mp hstep
      exact Option.some.inj hstep ▸ h.searchList hn hc
  | hand cpuid owner o =>
      obtain ⟨⟨hc, -⟩, hstep⟩ := whenCall_eq_some.mp hstep
      exact Option.some.inj hstep ▸ h.hand hn hc
  | wakeupNext cpuid owner t =>
      obtain ⟨⟨hc, -⟩, hstep⟩ := whenCall_eq_some.mp hstep
      exact Option.some.inj hstep ▸ h.wakeupNext hc
  | toIdle cpuid owner =>
      obtain ⟨⟨hc, -⟩, hstep⟩ := whenCall_eq_some.mp hstep
      exact Option.some.inj hstep ▸ h.toIdle hc
  | wait t cpuid pid swapout =>
      simp only [nodeStep, Option.ite_none_right_eq_some, Option.some.injEq] at hstep
      exact hstep.2 ▸ h.wait t cpuid pid swapout
  | finishEnd t why o =>
      obtain ⟨⟨hc, -⟩, hstep⟩ := whenCall_eq_some.mp hstep
      exact Option.some.inj hstep ▸ h.finishEnd hn hc
  | switch t cpuid =>
      obtain ⟨⟨hc, -⟩, hstep⟩ := whenCall_eq_some.mp hstep
      exact Option.some.inj hstep ▸ h.become hc rfl (by simp [Call.hands])
  | takeNonSched t cpuid eventPri =>
      obtain ⟨⟨hc, -⟩, hstep⟩ := whenCall_eq_some.mp hstep
      exact Option.some.inj hstep ▸ h.takeNonSched hc eventPri
  | sleep t cpuid reset =>
      obtain ⟨⟨hc, -⟩, hstep⟩ := whenCall_eq_some.mp hstep
      have hgo : AcceptInv cfg (s.become (.entered t cpuid) [.sleeping t cpuid]) :=
        h.become hc rfl (by simp [Call.hands])
      dsimp only at hstep
      by_cases hreset : reset = true
      · rw [if_pos hreset] at hstep
        exact Option.some.inj hstep ▸ hgo.setGrp _ _
      · rw [if_neg hreset] at hstep
        exact Option.some.inj hstep ▸ hgo
  | quit t cpuid =>
      obtain ⟨⟨hc, -⟩, hstep⟩ := whenCall_eq_some.mp hstep
      refine Option.some.inj hstep ▸ ?_
      exact (h.become hc rfl (by simp)).setGrp _ _
  | resume t cpuid =>
      obtain ⟨⟨hc, -⟩, hstep⟩ := whenCall_eq_some.mp hstep
      exact Option.some.inj hstep ▸ h.become hc rfl (by simp [Call.hands])
  | awake t cpuid =>
      obtain ⟨⟨hc, -⟩, hstep⟩ := whenCall_eq_some.mp hstep
      exact Option.some.inj hstep ▸ h.become hc rfl (by simp [Call.hands])
  | waitReturn t cpuid =>
      obtain ⟨⟨hc, -⟩, hstep⟩ := whenCall_eq_some.mp hstep
      exact Option.some.inj hstep ▸ h.waitReturn hc
  | waitFail t cpuid =>
      obtain ⟨⟨hc, -⟩, hstep⟩ := whenCall_eq_some.mp hstep
      refine Option.some.inj hstep ▸ ?_
      exact (h.become hc rfl (by simp)).setGrp _ _
  | exact t eventId cpuid procPri eventPri =>
      simp only [nodeStep, Option.ite_none_right_eq_some] at hstep
      exact h.exact hn hstep.2
  | exactEnd t o old =>
      obtain ⟨⟨hc, -⟩, hstep⟩ := whenCall_eq_some.mp hstep
      exact Option.some.inj hstep ▸ h.exactEnd hn hc
  | timeout cpuid timestamp =>
      obtain ⟨t, -, hstep⟩ := Option.bind_eq_some_iff.mp hstep
      simp only [Option.ite_none_right_eq_some, Option.some.injEq] at hstep
      exact hstep.2 ▸ h.threadFinish t _
  | delete pid =>
      refine Option.some.inj hstep ▸ ?_
      refine h.keepCalls ⟨rfl, rfl, rfl, rfl, rfl, rfl, rfl, fun p hp => ?_⟩ rfl
      rcases eq_or_ne p pid with rfl | hne
      · simp
      · simpa [Function.update_of_ne hne] using hp
  | exitCheck cpuid =>
      obtain ⟨t, -, hstep⟩ := Option.bind_eq_some_iff.mp hstep
      simp only [Option.ite_none_right_eq_some, Option.some.injEq] at hstep
      exact hstep.2 ▸ h.threadFinish t _
  | clearThread t =>
      simp only [nodeStep, Option.ite_none_right_eq_some, Option.some.injEq] at hstep
      exact hstep.2 ▸ h.clearThread hn
  | clearEvent k eventPri =>
      simp only [nodeStep, Option.ite_none_right_eq_some, Option.some.injEq] at hstep
      exact hstep.2 ▸ h.clearEvent hn hstep.1.1.1 eventPri
  | free pid =>
      simp only [nodeStep, Option.ite_none_right_eq_some, Option.some.injEq] at hstep
      obtain ⟨⟨hnone, hcleared⟩, rfl⟩ := hstep
      exact h.freeProcess hn (fun n hmem => hnone.free hmem) hcleared

theorem initNode_accept (cfg : NodeCfg) : AcceptInv cfg (initNode cfg) where
  free _ _ _ := rfl
  list l o ho := by cases ho
  slot t o ho := by cases ho
  call n hmem := by cases hmem
  num k _ e := by simp [initNode, outstanding, refusing]
  refusal r hr := by cases hr

/-- In a run whose published events find room, the count of an id is exact. -/
theorem quotaKept_of_roomy (h : (nodeMachine cfg).ReachIf (Roomy cfg) s) : QuotaKept cfg s := by
  have hinv : NodeInv cfg s ∧ AcceptInv cfg s := by
    refine h.invariant (P := fun s => NodeInv cfg s ∧ AcceptInv cfg s) ?_ ?_
    · rintro s rfl
      exact ⟨initNode_inv cfg, initNode_accept cfg⟩
    · rintro s op s' ⟨hn, ha⟩ hok hstep
      exact ⟨nodeStep_inv hn hok.undisturbed hstep, nodeStep_accept hn ha hok hstep⟩
  exact ⟨hinv.2.num, hinv.2.refusal⟩

/-- A publish that the quota refuses. -/
def refusedRun (k : GrpId) (eventId o : ℕ) : List NodeOp :=
  let event : SchedEvent := ⟨k.1, k.2, eventId, none⟩
  [.publish k eventId none, .alloc event .node, .fill event o true, .raise k o false, .lower k o,
    .giveBack k o]

/-- A group with a quota of one event has one that a thread processes, and
refuses another. -/
def quotaRun : List NodeOp :=
  [.addGrp (7, 0) .bindCpCpu 1 true, .subscribe (7, 0) 0 3, .setMaxEventNum (7, 0) 0 1,
    .wait ((7, 0), 0) 0 100 false] ++ publishRun (7, 0) 0 0 ++ [.takeNonSched ((7, 0), 0) 0 0] ++
      refusedRun (7, 0) 0 1

theorem quotaKept_of_roomy_refused :
    let s := (nodeMachine twoEvents).final (initNode twoEvents) quotaRun
    s.eventNum (7, 0) 0 = 1 ∧ s.refusals = [⟨(7, 0), 0, 1, 1⟩] ∧ QuotaKept twoEvents s := by
  refine ⟨by decide +kernel, by decide +kernel, quotaKept_of_roomy ?_⟩
  exact Machine.ReachIf.final (.start rfl) (by decide +kernel) (by decide +kernel)

/-- A node whose lists hold one event. -/
def shortLists : NodeCfg := { twoEvents with eventNum := 3, depth := fun _ => 1 }

/-- The second event finds the list full, and the third one is refused although
the quota is two. -/
def leakRun : List NodeOp :=
  [.addGrp (7, 0) .bindCpCpu 1 true, .subscribe (7, 0) 0 3, .setMaxEventNum (7, 0) 0 2,
    .wait ((7, 0), 0) 0 100 false] ++ publishRun (7, 0) 0 0 ++ publishRun (7, 0) 0 1 ++
      [.giveBack (7, 0) 1] ++ refusedRun (7, 0) 0 2

theorem full_list_leaks_count :
    let s := (nodeMachine shortLists).final (initNode shortLists) leakRun
    (nodeMachine shortLists).Reach s ∧ s.eventNum (7, 0) 0 = 2 ∧
      outstanding shortLists s (7, 0) 0 = 1 ∧ refusing s (7, 0) 0 = 0 ∧
        s.refusals = [⟨(7, 0), 0, 1, 2⟩] ∧ ¬ QuotaKept shortLists s := by
  have hnum :
      ((nodeMachine shortLists).final (initNode shortLists) leakRun).eventNum (7, 0) 0 = 2 := by
    decide +kernel
  have hout : outstanding shortLists
      ((nodeMachine shortLists).final (initNode shortLists) leakRun) (7, 0) 0 = 1 := by
    decide +kernel
  have hrefusing : refusing
      ((nodeMachine shortLists).final (initNode shortLists) leakRun) (7, 0) 0 = 0 := by
    decide +kernel
  refine ⟨Machine.Reach.final (.start rfl) (by decide +kernel), hnum, hout, hrefusing,
    by decide +kernel, fun h => ?_⟩
  have hkept := h.num (7, 0) (by decide +kernel) 0
  rw [hnum, hout, hrefusing] at hkept
  revert hkept
  decide

end OpiaiKernel.Esched
