import OpiaiKernel.Esched.EventConservation

/-!
# Exclusive groups

A cpu that takes an event of an exclusive group marks the group as running, and
the wait that finishes the event marks it as idle.  In between no other event of
the group is taken.
-/

namespace OpiaiKernel.Esched

namespace Call

/-- The call has taken an event for its cpu, or gives the event of its thread
back. -/
def claims : Call → Bool
  | .took .. | .finish .. => true
  | _ => false

def finishes (t : ThreadId) : Call → Bool
  | .finish u _ _ => u = t
  | _ => false

end Call

/-- The thread has an event that is not being given back. -/
def Processing (s : SchedNode) (t : ThreadId) (o : ℕ) : Prop :=
  s.slot t = some o ∧ ∀ n ∈ s.calls, n.finishes t = false

/-- A cpu has taken the event for a thread of the group. -/
def Selecting (s : SchedNode) (k : GrpId) (o : ℕ) : Prop :=
  ∃ cpuid owner, .took cpuid owner o ∈ s.calls ∧ (s.obj o).grpId = k

def Active (s : SchedNode) (k : GrpId) (o : ℕ) : Prop :=
  Selecting s k o ∨ ∃ t : ThreadId, t.1 = k ∧ Processing s t o

def SchedNode.exclusive (s : SchedNode) (k : GrpId) : Bool := (s.grp k).isExclusive

/-- An exclusive group runs exactly when it has an active event, and it has one
at most. -/
structure ExclusiveInv (s : SchedNode) : Prop where
  live : ∀ pid, s.gone pid = false
  sched : ∀ k, s.exclusive k = true → s.mode k = .schedCpu
  idle : ∀ k, s.exclusive k = false → s.runStatus k = .idle
  exact : ∀ t o old, .exact t o old ∈ s.calls → s.exclusive t.1 = false
  run : ∀ k, s.exclusive k = true → (s.runStatus k = .run ↔ ∃ o, Active s k o)
  one : ∀ k, s.exclusive k = true → ∀ o o', Active s k o → Active s k o' → o = o'

variable {cfg : NodeCfg} {s s' : SchedNode} {k : GrpId} {t : ThreadId} {c : Call} {o cpuid : ℕ}
  {owner : Option ThreadId}

/-! ## Steps that leave the active events alone -/

theorem finishes_of_not_claims {n : Call} (hn : n.claims = false) (t : ThreadId) :
    n.finishes t = false := by
  cases n with
  | finish => cases hn
  | _ => rfl

theorem active_congr (hcalls : ∀ n, n.claims = true → (n ∈ s'.calls ↔ n ∈ s.calls))
    (hobj : ∀ cpuid owner, .took cpuid owner o ∈ s.calls → (s'.obj o).grpId = (s.obj o).grpId)
    (hslot : ∀ t : ThreadId, t.1 = k → (s'.slot t = some o ↔ s.slot t = some o)) :
    Active s' k o ↔ Active s k o := by
  have hfinish (t : ThreadId) : (∀ n ∈ s'.calls, n.finishes t = false) ↔
      ∀ n ∈ s.calls, n.finishes t = false := by
    have hclaim (n : Call) (hn : n.finishes t = true) : n.claims = true := by
      by_contra hnot
      rw [finishes_of_not_claims (by simpa using hnot)] at hn
      cases hn
    constructor
    · intro h n hn
      by_contra hnot
      have htrue : n.finishes t = true := by simpa using hnot
      rw [h n ((hcalls n (hclaim n htrue)).mpr hn)] at htrue
      cases htrue
    · intro h n hn
      by_contra hnot
      have htrue : n.finishes t = true := by simpa using hnot
      rw [h n ((hcalls n (hclaim n htrue)).mp hn)] at htrue
      cases htrue
  refine or_congr ⟨?_, ?_⟩ (exists_congr fun t => and_congr_right fun ht => ?_)
  · rintro ⟨c, ow, hmem, hk⟩
    have hold := (hcalls (.took c ow o) rfl).mp hmem
    exact ⟨c, ow, hold, (hobj c ow hold).symm.trans hk⟩
  · rintro ⟨c, ow, hmem, hk⟩
    exact ⟨c, ow, (hcalls (.took c ow o) rfl).mpr hmem, (hobj c ow hmem).trans hk⟩
  · rw [Processing, Processing, hslot t ht, hfinish t]

theorem claims_become {next : List Call} (hc : c.claims = false)
    (hnext : ∀ n ∈ next, n.claims = false) (n : Call) (hn : n.claims = true) :
    n ∈ (s.become c next).calls ↔ n ∈ s.calls := by
  have hne : n ≠ c := by
    rintro rfl
    rw [hc] at hn
    cases hn
  have hnot : n ∉ next := fun hmem => by
    rw [hnext n hmem] at hn
    cases hn
  rw [SchedNode.become, List.mem_append, List.mem_erase_of_ne hne]
  exact ⟨fun h => h.resolve_left hnot, Or.inr⟩

theorem ExclusiveInv.keep (h : ExclusiveInv s) (hgone : s'.gone = s.gone)
    (hexcl : ∀ k, s'.exclusive k = s.exclusive k)
    (hmode : ∀ k, s.mode k ≠ .uninit → s'.mode k = s.mode k)
    (hrun : s'.runStatus = s.runStatus)
    (hexact : ∀ t o old, .exact t o old ∈ s'.calls → .exact t o old ∈ s.calls)
    (hactive : ∀ k, s.exclusive k = true → ∀ o, Active s' k o ↔ Active s k o) :
    ExclusiveInv s' := by
  refine ⟨fun pid => hgone ▸ h.live pid, fun k hk => ?_, fun k hk => ?_, fun t o old hmem => ?_,
    fun k hk => ?_, fun k hk o o' ho ho' => ?_⟩
  · have hsched := h.sched k (hexcl k ▸ hk)
    rw [hmode k (by simp [hsched]), hsched]
  · rw [hrun]
    exact h.idle k (hexcl k ▸ hk)
  · rw [hexcl]
    exact h.exact t o old (hexact t o old hmem)
  · have hk' : s.exclusive k = true := hexcl k ▸ hk
    rw [hrun, h.run k hk']
    exact exists_congr fun o => (hactive k hk' o).symm
  · have hk' : s.exclusive k = true := hexcl k ▸ hk
    exact h.one k hk' o o' ((hactive k hk' o).mp ho) ((hactive k hk' o').mp ho')

/-- Calls that claim no event, slots and groups stay as they are. -/
theorem ExclusiveInv.become (h : ExclusiveInv s) {next : List Call} (hc : c.claims = false)
    (hnext : ∀ n ∈ next, n.claims = false ∧ ∀ t o old, n ≠ .exact t o old) :
    ExclusiveInv (s.become c next) := by
  refine h.keep rfl (fun k => rfl) (fun k _ => rfl) rfl (fun t o old hmem => ?_) fun k _ o => ?_
  · rcases List.mem_append.mp hmem with hmem | hmem
    · exact absurd rfl ((hnext _ hmem).2 t o old)
    · exact List.mem_of_mem_erase hmem
  · exact active_congr (claims_become hc fun n hn => (hnext n hn).1) (fun _ _ _ => rfl)
      fun _ _ => Iff.rfl

theorem ExclusiveInv.start (h : ExclusiveInv s) {n : Call} (hclaims : n.claims = false)
    (hexact : ∀ t o old, n = .exact t o old → s.exclusive t.1 = false) :
    ExclusiveInv { s with calls := n :: s.calls } := by
  have hactive (k : GrpId) (o : ℕ) :
      Active { s with calls := n :: s.calls } k o ↔ Active s k o := by
    refine active_congr (fun m hm => ?_) (fun _ _ _ => rfl) fun _ _ => Iff.rfl
    have hne : m ≠ n := by
      rintro rfl
      rw [hclaims] at hm
      cases hm
    simp [hne]
  refine ⟨h.live, h.sched, h.idle, fun t o old hmem => ?_, fun k hk => ?_,
    fun k hk o o' ho ho' => ?_⟩
  · rcases List.mem_cons.mp hmem with heq | hmem
    · exact hexact t o old heq.symm
    · exact h.exact t o old hmem
  · exact (h.run k hk).trans (exists_congr fun o => (hactive k o).symm)
  · exact h.one k hk o o' ((hactive k o).mp ho) ((hactive k o').mp ho')

/-- The group is of the same kind. -/
structure SameKind (grp grp' : SchedGrpCtx) : Prop where
  isExclusive : grp'.isExclusive = grp.isExclusive
  schedMode : grp'.schedMode = grp.schedMode

theorem ExclusiveInv.setGrp (h : ExclusiveInv s) {grp : SchedGrpCtx}
    (hkind : SameKind (s.grp k) grp) : ExclusiveInv (s.setGrp k grp) := by
  refine h.keep rfl (fun k' => ?_) (fun k' _ => ?_) rfl (fun _ _ _ hmem => hmem)
    fun _ _ _ => Iff.rfl
  · rcases eq_or_ne k' k with rfl | hne
    · simpa [SchedNode.exclusive, SchedNode.setGrp] using hkind.isExclusive
    · simp [SchedNode.exclusive, SchedNode.setGrp, Function.update_of_ne hne]
  · rcases eq_or_ne k' k with rfl | hne
    · simpa [SchedNode.mode, SchedNode.setGrp] using hkind.schedMode
    · simp [SchedNode.mode, SchedNode.setGrp, Function.update_of_ne hne]

theorem ExclusiveInv.setThread (h : ExclusiveInv s) (t : ThreadId)
    (f : SchedThreadCtx → SchedThreadCtx) : ExclusiveInv (s.setThread t f) :=
  h.setGrp ⟨rfl, rfl⟩

theorem ExclusiveInv.setCur (h : ExclusiveInv s) (cpuid : ℕ) (t : Option ThreadId) :
    ExclusiveInv (s.setCur cpuid t) :=
  h.keep rfl (fun _ => rfl) (fun _ _ => rfl) rfl (fun _ _ _ hmem => hmem) fun _ _ _ => Iff.rfl

/-! ## Groups -/

theorem schedThreadSubscribeEvent_kind (grp : SchedGrpCtx) (tid : ℕ) (bitmap : BitVec 64) :
    SameKind grp (schedThreadSubscribeEvent grp tid bitmap).2 := by
  unfold schedThreadSubscribeEvent schedThreadSubscribeEventCfg
  split_ifs <;> exact ⟨rfl, rfl⟩

theorem schedThreadStatusCheck_kind (grp : SchedGrpCtx) (tid pid : ℕ) :
    SameKind grp (schedThreadStatusCheck grp tid pid) := by
  unfold schedThreadStatusCheck
  dsimp only
  split_ifs <;> exact ⟨rfl, rfl⟩

theorem SameKind.trans {grp grp' grp'' : SchedGrpCtx} (h : SameKind grp grp')
    (h' : SameKind grp' grp'') : SameKind grp grp'' :=
  ⟨h'.isExclusive.trans h.isExclusive, h'.schedMode.trans h.schedMode⟩

theorem setThreadCtx_kind (grp : SchedGrpCtx) (tid : ℕ) (ctx : SchedThreadCtx) :
    SameKind grp (setThreadCtx grp tid ctx) := ⟨rfl, rfl⟩

theorem schedGrpAddThread_kind (grp : SchedGrpCtx) (tid cpuid pid : ℕ) :
    SameKind grp (schedGrpAddThread grp tid cpuid pid).2 := by
  unfold schedGrpAddThread
  dsimp only
  split_ifs <;> exact ⟨rfl, rfl⟩

theorem schedThreadUpdate_kind (grp : SchedGrpCtx) (tid cpuid pid : ℕ) (swapout : Bool) :
    SameKind grp (schedThreadUpdate grp tid cpuid pid swapout).2 := by
  have hwait := setThreadCtx_kind grp tid { grp.threadCtx tid with waitFlag := !swapout }
  unfold schedThreadUpdate
  dsimp only
  split_ifs
  · exact ⟨rfl, rfl⟩
  · exact hwait.trans (schedThreadStatusCheck_kind _ tid pid)
  · have hadd := schedGrpAddThread_kind
      (setThreadCtx grp tid { grp.threadCtx tid with waitFlag := !swapout }) tid cpuid pid
    split
    · next heq =>
        rw [heq] at hadd
        exact (hwait.trans hadd).trans (setThreadCtx_kind _ tid _)
    · next heq =>
        rw [heq] at hadd
        exact (hwait.trans hadd).trans (schedThreadStatusCheck_kind _ tid pid)

theorem schedWaitEvent_kind (grp : SchedGrpCtx) (tid : ℕ) (cpuid : Option ℕ) (pid : ℕ)
    (swapout : Bool) : SameKind grp (schedWaitEvent grp tid cpuid pid swapout).2 := by
  unfold schedWaitEvent
  split
  · exact ⟨rfl, rfl⟩
  · split_ifs
    · exact ⟨rfl, rfl⟩
    · exact ⟨rfl, rfl⟩
    · exact schedThreadUpdate_kind grp tid 0 pid swapout
  · split_ifs
    · exact ⟨rfl, rfl⟩
    · split
      · exact ⟨rfl, rfl⟩
      · exact schedThreadUpdate_kind grp tid _ pid swapout

/-! ## Steps -/

theorem ExclusiveInv.wakeUp (h : ExclusiveInv s) (t : ThreadId) :
    ExclusiveInv (schedWakeUpThread s t) := by
  unfold schedWakeUpThread
  split_ifs
  · exact h.setThread _ _
  · exact h.setCur _ _

theorem ExclusiveInv.waitEnter (h : ExclusiveInv s) :
    ExclusiveInv (Esched.waitEnter s t cpuid) := by
  have hstart : ExclusiveInv { s with calls := .entered t cpuid :: s.calls } :=
    h.start rfl (by simp)
  dsimp only [Esched.waitEnter]
  split_ifs
  · exact hstart.setThread _ _
  · exact hstart

theorem ExclusiveInv.wakeupNext (h : ExclusiveInv s) :
    ExclusiveInv (schedWakeupNextThread s cpuid owner t) := by
  cases owner with
  | none => exact ((h.setCur cpuid (some t)).become rfl (by simp)).wakeUp t
  | some cur =>
      have hgo : ExclusiveInv (s.become (.found cpuid (some cur) t) [.sleeping cur cpuid]) :=
        h.become rfl (by simp [Call.claims])
      dsimp only [schedWakeupNextThread]
      split_ifs
      · exact hgo.setThread _ _
      · exact ((hgo.setThread _ _).setCur _ _).wakeUp t

theorem ExclusiveInv.toIdle (h : ExclusiveInv s) : ExclusiveInv (schedCpuToIdle s cpuid owner) := by
  cases owner with
  | none => exact h.become rfl (by simp)
  | some cur =>
      have hgo : ExclusiveInv (s.become (.search cpuid (some cur)) [.sleeping cur cpuid]) :=
        h.become rfl (by simp [Call.claims])
      exact (hgo.setThread _ _).setCur _ _

theorem ExclusiveInv.waitReturn (h : ExclusiveInv s) :
    ExclusiveInv (schedWaitReturnEvent s t cpuid) := by
  have hgo : ExclusiveInv (s.become (.woken t cpuid) []) := h.become rfl (by simp)
  dsimp only [schedWaitReturnEvent]
  split
  · exact hgo.setThread _ _
  · exact (hgo.setThread _ _).setCur _ _

/-- A slot changes whose thread is not of an exclusive group, or that holds no
active event. -/
theorem active_setSlot (hn : s.slot t = none ∨ t.1 ≠ k) (p : Option ℕ) (hp : p = none ∨ t.1 ≠ k) :
    Active (s.setSlot t p) k o ↔ Active s k o := by
  refine active_congr (fun _ _ => Iff.rfl) (fun _ _ _ => rfl) fun u hu => ?_
  rcases eq_or_ne u t with rfl | hne
  · have hnone := hn.resolve_right fun hne => hne hu
    have hpnone := hp.resolve_right fun hne => hne hu
    simp [SchedNode.setSlot, hnone, hpnone]
  · simp [SchedNode.setSlot, Function.update_of_ne hne]

/-- The event of a group is released, and the group gets idle. -/
theorem ExclusiveInv.release (h : ExclusiveInv s) (hgone : s'.gone = s.gone) (hgrp : s'.grp = s.grp)
    (hrun : s'.runStatus = if s.exclusive k = true then Function.update s.runStatus k .idle
      else s.runStatus)
    (hexact : ∀ t o old, .exact t o old ∈ s'.calls → .exact t o old ∈ s.calls)
    (hother : ∀ k' ≠ k, ∀ o, Active s' k' o ↔ Active s k' o)
    (hnone : s.exclusive k = true → ∀ o, ¬ Active s' k o) : ExclusiveInv s' := by
  have hexcl (k' : GrpId) : s'.exclusive k' = s.exclusive k' := by
    rw [SchedNode.exclusive, hgrp, SchedNode.exclusive]
  have hmode (k' : GrpId) : s'.mode k' = s.mode k' := by rw [SchedNode.mode, hgrp, SchedNode.mode]
  by_cases hk : s.exclusive k = true
  · rw [if_pos hk] at hrun
    refine ⟨fun pid => hgone ▸ h.live pid, fun k' hk' => ?_, fun k' hk' => ?_,
      fun t o old hmem => ?_, fun k' hk' => ?_, fun k' hk' o o' ho ho' => ?_⟩
    · rw [hmode]
      exact h.sched k' (hexcl k' ▸ hk')
    · have hne : k' ≠ k := by
        rintro rfl
        rw [hexcl, hk] at hk'
        cases hk'
      rw [hrun, Function.update_of_ne hne]
      exact h.idle k' (hexcl k' ▸ hk')
    · rw [hexcl]
      exact h.exact t o old (hexact t o old hmem)
    · rcases eq_or_ne k' k with rfl | hne
      · rw [hrun, Function.update_self]
        exact iff_of_false (by simp) (not_exists_of_forall_not (hnone hk))
      · rw [hrun, Function.update_of_ne hne, h.run k' (hexcl k' ▸ hk')]
        exact exists_congr fun o => (hother k' hne o).symm
    · rcases eq_or_ne k' k with rfl | hne
      · exact absurd ho (hnone hk o)
      · exact h.one k' (hexcl k' ▸ hk') o o' ((hother k' hne o).mp ho) ((hother k' hne o').mp ho')
  · rw [if_neg hk] at hrun
    refine h.keep hgone hexcl (fun k' _ => hmode k') hrun hexact fun k' hk' o => hother k' ?_ o
    rintro rfl
    exact hk hk'

theorem exclusiveFinish_of_not (hk : s.exclusive k = false) :
    schedExclusiveGrpFinish s k = s := by
  rw [SchedNode.exclusive] at hk
  exact if_neg (by simp [hk])

theorem exclusiveFinish_runStatus (s : SchedNode) (k : GrpId) :
    (schedExclusiveGrpFinish s k).runStatus =
      if s.exclusive k = true then Function.update s.runStatus k .idle else s.runStatus := by
  unfold schedExclusiveGrpFinish SchedNode.exclusive
  split_ifs
  · rfl
  · rfl

theorem active_exclusiveFinish {k' : GrpId} :
    Active (schedExclusiveGrpFinish s k') k o ↔ Active s k o := by
  unfold schedExclusiveGrpFinish
  split_ifs
  · exact Iff.rfl
  · exact Iff.rfl

theorem exclusiveFinish_frame (s : SchedNode) (k : GrpId) :
    (schedExclusiveGrpFinish s k).gone = s.gone ∧ (schedExclusiveGrpFinish s k).grp = s.grp ∧
      (schedExclusiveGrpFinish s k).calls = s.calls := by
  unfold schedExclusiveGrpFinish
  split_ifs
  · exact ⟨rfl, rfl, rfl⟩
  · exact ⟨rfl, rfl, rfl⟩

/-- The event of a thread is taken in hand in order to be given back. -/
theorem ExclusiveInv.finishBegin {why : Finish} (h : ExclusiveInv s)
    (hcustody : Custody cfg s.que s.list s.slot s.hands) (hslot : s.slot t = some o)
    (hquiet : ∀ n ∈ s.calls, n.finishes t = false) : ExclusiveInv (finishBegin s t why o) := by
  have hactive : Active s t.1 o := Or.inr ⟨t, rfl, hslot, hquiet⟩
  have hnohand := (hcustody.place.notMem_of_ne (p := Place.slot t) (q := Place.hand) hslot
    (by simp) : o ∉ s.hands)
  obtain ⟨hgone, hgrp, hcalls⟩ :=
    exclusiveFinish_frame { s with calls := .finish t why o :: s.calls } t.1
  refine h.release (k := t.1) hgone hgrp
    (exclusiveFinish_runStatus { s with calls := .finish t why o :: s.calls } t.1)
    (fun u o' old hmem => ?_) (fun k hk o' => active_exclusiveFinish.trans ⟨?_, ?_⟩)
    fun hex o' ho' => ?_
  · rw [Esched.finishBegin, hcalls] at hmem
    rcases List.mem_cons.mp hmem with heq | hmem
    · cases heq
    · exact hmem
  · rintro (⟨c, ow, hmem, hgrpId⟩ | ⟨u, hu, hslot', hfinish⟩)
    · refine Or.inl ⟨c, ow, ?_, hgrpId⟩
      simpa using hmem
    · exact Or.inr ⟨u, hu, hslot', fun n hn => hfinish n (List.mem_cons_of_mem _ hn)⟩
  · rintro (⟨c, ow, hmem, hgrpId⟩ | ⟨u, hu, hslot', hfinish⟩)
    · exact Or.inl ⟨c, ow, List.mem_cons_of_mem _ hmem, hgrpId⟩
    · refine Or.inr ⟨u, hu, hslot', fun n hn => ?_⟩
      rcases List.mem_cons.mp hn with rfl | hn
      · simp only [Call.finishes, decide_eq_false_iff_not]
        rintro rfl
        exact hk hu.symm
      · exact hfinish n hn
  · rcases active_exclusiveFinish.mp ho' with ⟨c, ow, hmem, hgrpId⟩ | ⟨u, hu, hslot', hfinish⟩
    · have hold : .took c ow o' ∈ s.calls := by simpa using hmem
      have heq := h.one t.1 hex o' o (Or.inl ⟨c, ow, hold, hgrpId⟩) hactive
      subst heq
      exact hnohand (List.mem_flatMap.mpr ⟨_, hold, by simp [Call.hands]⟩)
    · have hold : Active s t.1 o' :=
        Or.inr ⟨u, hu, hslot', fun n hn => hfinish n (List.mem_cons_of_mem _ hn)⟩
      have heq := h.one t.1 hex o' o hold hactive
      subst heq
      have hut : u = t := hcustody.slot_inj hslot' hslot
      subst hut
      have hself := hfinish (.finish u why o') List.mem_cons_self
      simp [Call.finishes] at hself

section Release

variable (hn : NodeInv cfg s)
include hn

omit hn in
theorem not_finishes_erase {why : Finish} {u : ThreadId} (hu : u ≠ t) :
    (∀ n ∈ s.calls.erase (.finish t why o), n.finishes u = false) ↔
      ∀ n ∈ s.calls, n.finishes u = false := by
  constructor
  · intro h n hmem
    by_cases heq : n = .finish t why o
    · subst heq
      simpa [Call.finishes] using hu.symm
    · exact h n ((List.mem_erase_of_ne heq).mpr hmem)
  · exact fun h n hmem => h n (List.mem_of_mem_erase hmem)

omit hn in
theorem grpId_enque (cfg : NodeCfg) (s : SchedNode) (o o' : ℕ) :
    ((schedEventEnqueLock cfg s o).obj o').grpId = (s.obj o').grpId :=
  (sameEvent_enque cfg s o o').1

omit hn in
theorem threadTimedOut_kind (grp : SchedGrpCtx) (tid timestamp : ℕ) :
    SameKind grp (threadTimedOut grp tid timestamp) := ⟨rfl, rfl⟩

omit hn in
theorem ExclusiveInv.finishNext (h : ExclusiveInv s) (why : Finish) :
    ExclusiveInv (finishNext s t why) := by
  cases why with
  | wait c => exact h.waitEnter
  | timeout c timestamp => exact (h.setGrp (threadTimedOut_kind _ _ _)).setCur _ _
  | exit c => exact (h.setThread _ _).setCur _ _

omit hn in
theorem ExclusiveInv.finishEnd {why : Finish} (h : ExclusiveInv s)
    (hc : .finish t why o ∈ s.calls) : ExclusiveInv (finishEnd cfg s t why o) := by
  refine ExclusiveInv.finishNext ?_ why
  refine h.keep rfl (fun _ => rfl) (fun _ _ => rfl) rfl
    (fun u o' old hmem => List.mem_of_mem_erase hmem) fun k _ o' => ?_
  constructor
  · rintro (⟨c, ow, hmem, hgrpId⟩ | ⟨u, hu, hslot, hfinish⟩)
    · refine Or.inl ⟨c, ow, List.mem_of_mem_erase hmem, ?_⟩
      exact (grpId_enque cfg s o o').symm.trans hgrpId
    · have hne : u ≠ t := by
        rintro rfl
        simp [schedFreeThreadEvent, schedEventEnqueLock, SchedNode.setSlot] at hslot
      refine Or.inr ⟨u, hu, ?_, (not_finishes_erase hne).mp hfinish⟩
      simpa [schedFreeThreadEvent, schedEventEnqueLock, SchedNode.setSlot,
        Function.update_of_ne hne] using hslot
  · rintro (⟨c, ow, hmem, hgrpId⟩ | ⟨u, hu, hslot, hfinish⟩)
    · refine Or.inl ⟨c, ow, (List.mem_erase_of_ne (by simp)).mpr hmem, ?_⟩
      exact (grpId_enque cfg s o o').trans hgrpId
    · have hne : u ≠ t := by
        rintro rfl
        have hself := hfinish _ hc
        simp [Call.finishes] at hself
      refine Or.inr ⟨u, hu, ?_, (not_finishes_erase hne).mpr hfinish⟩
      simpa [schedFreeThreadEvent, schedEventEnqueLock, SchedNode.setSlot,
        Function.update_of_ne hne] using hslot

/-- No finish is under way of a thread without an event. -/
theorem NodeInv.not_finishes (hslot : s.slot t = none) : ∀ n ∈ s.calls, n.finishes t = false := by
  intro n hmem
  have hok := hn.thread.call n hmem
  cases n with
  | finish u why o =>
      simp only [Call.finishes, decide_eq_false_iff_not]
      rintro rfl
      have hsome : s.slot u = some o := hok.2.1
      rw [hslot] at hsome
      cases hsome
  | _ => rfl

/-- The event that a cpu has taken is in no other hands. -/
theorem NodeInv.took_iff (hc : .took cpuid owner o ∈ s.calls) {next : List Call}
    (hnext : ∀ n ∈ next, n.claims = false) {cpuid' o' : ℕ} {owner' : Option ThreadId} :
    .took cpuid' owner' o' ∈ next ++ s.calls.erase (.took cpuid owner o) ↔
      .took cpuid' owner' o' ∈ s.calls ∧ o' ≠ o := by
  obtain ⟨-, -, -, hnoother, -⟩ := hn.in_hand hc (o := o) (by simp [Call.hands])
  have hnot : .took cpuid' owner' o' ∉ next := fun hmem => by cases hnext _ hmem
  rw [List.mem_append]
  constructor
  · intro hmem
    have hrest := hmem.resolve_left hnot
    refine ⟨List.mem_of_mem_erase hrest, ?_⟩
    rintro rfl
    exact hnoother (List.mem_flatMap.mpr ⟨_, hrest, by simp [Call.hands]⟩)
  · rintro ⟨hmem, hne⟩
    have hcalls : Call.took cpuid' owner' o' ≠ .took cpuid owner o := fun heq => by
      cases heq
      exact hne rfl
    exact Or.inr ((List.mem_erase_of_ne hcalls).mpr hmem)

omit hn in
theorem not_finishes_hand {next : List Call} (hnext : ∀ n ∈ next, n.claims = false)
    (u : ThreadId) :
    (∀ n ∈ next ++ s.calls.erase (.took cpuid owner o), n.finishes u = false) ↔
      ∀ n ∈ s.calls, n.finishes u = false := by
  constructor
  · intro hall n hmem
    by_cases heq : n = .took cpuid owner o
    · subst heq
      rfl
    · exact hall n (List.mem_append_right _ ((List.mem_erase_of_ne heq).mpr hmem))
  · intro hall n hmem
    rcases List.mem_append.mp hmem with hmem | hmem
    · exact finishes_of_not_claims (hnext n hmem) u
    · exact hall n (List.mem_of_mem_erase hmem)

/-- The thread has timed out: its event is given back and the group released. -/
theorem ExclusiveInv.handBack (h : ExclusiveInv s) (hc : .took cpuid owner o ∈ s.calls)
    (ht : t.1 = (s.obj o).grpId) :
    ExclusiveInv (schedExclusiveGrpFinish ((schedFreeThreadEvent cfg s t o).become
      (.took cpuid owner o) [.search cpuid owner]) t.1) := by
  obtain ⟨-, -, hnoslot, -, -⟩ := hn.in_hand hc (o := o) (by simp [Call.hands])
  have hsearch : ∀ n ∈ [Call.search cpuid owner], n.claims = false := by simp [Call.claims]
  have hslots {u : ThreadId} {o' : ℕ} (hslot : ((schedFreeThreadEvent cfg s t o).become
      (.took cpuid owner o) [.search cpuid owner]).slot u = some o') : s.slot u = some o' :=
    mem_slot_free cfg hslot
  obtain ⟨hgone, hgrp, hcalls⟩ := exclusiveFinish_frame
    ((schedFreeThreadEvent cfg s t o).become (.took cpuid owner o) [.search cpuid owner]) t.1
  refine h.release (k := t.1) hgone hgrp (exclusiveFinish_runStatus _ t.1)
    (fun u o' old hmem => ?_) (fun k hk o' => active_exclusiveFinish.trans ⟨?_, ?_⟩)
    fun hex o' ho' => ?_
  · rw [hcalls] at hmem
    rcases List.mem_append.mp hmem with hmem | hmem
    · simp at hmem
    · exact List.mem_of_mem_erase hmem
  · rintro (⟨c, ow, hmem, hgrpId⟩ | ⟨u, hu, hslot, hfin⟩)
    · exact Or.inl ⟨c, ow, ((hn.took_iff hc hsearch).mp hmem).1,
        (grpId_enque cfg s o o').symm.trans hgrpId⟩
    · exact Or.inr ⟨u, hu, hslots hslot, (not_finishes_hand hsearch u).mp hfin⟩
  · rintro (⟨c, ow, hmem, hgrpId⟩ | ⟨u, hu, hslot, hfin⟩)
    · refine Or.inl ⟨c, ow, (hn.took_iff hc hsearch).mpr ⟨hmem, ?_⟩,
        (grpId_enque cfg s o o').trans hgrpId⟩
      rintro rfl
      exact hk (hgrpId.symm.trans ht.symm)
    · have hne : u ≠ t := by
        rintro rfl
        exact hk hu.symm
      refine Or.inr ⟨u, hu, ?_, (not_finishes_hand hsearch u).mpr hfin⟩
      simpa [schedFreeThreadEvent, schedEventEnqueLock, SchedNode.setSlot,
        Function.update_of_ne hne] using hslot
  · have hactive : Active s t.1 o := Or.inl ⟨cpuid, owner, hc, ht.symm⟩
    rcases active_exclusiveFinish.mp ho' with ⟨c, ow, hmem, hgrpId⟩ | ⟨u, hu, hslot, hfin⟩
    · obtain ⟨hold, hne⟩ := (hn.took_iff hc hsearch).mp hmem
      have hgrpId' := (grpId_enque cfg s o o').symm.trans hgrpId
      exact hne (h.one t.1 hex o' o (Or.inl ⟨c, ow, hold, hgrpId'⟩) hactive)
    · have hold : Active s t.1 o' :=
        Or.inr ⟨u, hu, hslots hslot, (not_finishes_hand hsearch u).mp hfin⟩
      have heq := h.one t.1 hex o' o hold hactive
      subst heq
      exact hnoslot u (hslots hslot)

/-- The thread gets the event, which stays the active one of the group. -/
theorem ExclusiveInv.handFound (h : ExclusiveInv s) (hc : .took cpuid owner o ∈ s.calls)
    (ht : t.1 = (s.obj o).grpId) (hempty : s.slot t = none) :
    ExclusiveInv ((s.setSlot t (some o)).become (.took cpuid owner o) [.found cpuid owner t]) := by
  have hquiet := hn.not_finishes hempty
  have hfound : ∀ n ∈ [Call.found cpuid owner t], n.claims = false := by simp [Call.claims]
  refine h.keep rfl (fun _ => rfl) (fun _ _ => rfl) rfl (fun u o' old hmem => ?_) fun k _ o' => ?_
  · rcases List.mem_append.mp hmem with hmem | hmem
    · simp at hmem
    · exact List.mem_of_mem_erase hmem
  constructor
  · rintro (⟨c, ow, hmem, hgrpId⟩ | ⟨u, hu, hslot, hfin⟩)
    · exact Or.inl ⟨c, ow, ((hn.took_iff hc hfound).mp hmem).1, hgrpId⟩
    · rcases eq_or_ne u t with rfl | hne
      · have heq : some o = some o' := by simpa [SchedNode.setSlot] using hslot
        obtain rfl := Option.some.inj heq
        exact Or.inl ⟨cpuid, owner, hc, ht.symm.trans hu⟩
      · refine Or.inr ⟨u, hu, ?_, (not_finishes_hand hfound u).mp hfin⟩
        simpa [SchedNode.setSlot, Function.update_of_ne hne] using hslot
  · rintro (⟨c, ow, hmem, hgrpId⟩ | ⟨u, hu, hslot, hfin⟩)
    · rcases eq_or_ne o' o with rfl | hne
      · refine Or.inr ⟨t, ht.trans hgrpId, ?_, (not_finishes_hand hfound t).mpr hquiet⟩
        simp [SchedNode.setSlot]
      · exact Or.inl ⟨c, ow, (hn.took_iff hc hfound).mpr ⟨hmem, hne⟩, hgrpId⟩
    · have hne : u ≠ t := by
        rintro rfl
        rw [hempty] at hslot
        cases hslot
      refine Or.inr ⟨u, hu, ?_, (not_finishes_hand hfound u).mpr hfin⟩
      simpa [SchedNode.setSlot, Function.update_of_ne hne] using hslot

theorem ExclusiveInv.hand (h : ExclusiveInv s) (hc : .took cpuid owner o ∈ s.calls) :
    ExclusiveInv (schedHandEvent cfg s cpuid owner o) := by
  have hlive : s.gone (s.obj o).grpId.1 ≠ true := by simp [h.live]
  obtain ⟨t, ht, hb⟩ := (hn.event.call _ hc).resolve_left hlive
  dsimp only [schedHandEvent]
  rw [if_neg hlive, ← ht, hn.tid_of_bound hb]
  split_ifs
  · exact h.handBack hn hc ht
  · exact h.handFound hn hc ht (hn.thread.slot_empty hc hb)

end Release

end OpiaiKernel.Esched
