import Mathlib.Data.List.Count
import OpiaiKernel.Esched.NodeClear

/-!
# The events that a group has accepted

An event that is queued, processed or in the hands of its cpu is accepted, and
one in its queue or in the hands of its publisher is not.  A group counts the
accepted events of each id.
-/

namespace OpiaiKernel.Esched

/-- The group and the id that an event counts under. -/
def account (s : SchedNode) (o : ℕ) : GrpId × ℕ := ((s.obj o).grpId, (s.obj o).eventId)

namespace Call

/-- The event in the hands of the call is not accepted. -/
def pending : Call → Bool
  | .alloced .. | .checked .. | .refused .. | .failed .. => true
  | _ => false

/-- The call is a publish of the id that the group has refused, and that has not
taken its count back. -/
def refuses (obj : ℕ → SchedEvent) (k : GrpId) (eventId : ℕ) : Call → Bool
  | .refused k' o => k' = k ∧ (obj o).eventId = eventId
  | _ => false

end Call

def refusing (s : SchedNode) (k : GrpId) (eventId : ℕ) : ℕ :=
  s.calls.countP (Call.refuses s.obj k eventId)

def CallAccept (s : SchedNode) (n : Call) : Prop :=
  ∀ o ∈ n.hands, s.accepted o = if n.pending = true then none else some (account s o)

/-- The events that are queued or processed are the accepted ones, and the count
of a live group is theirs and that of the publishes that are being refused. -/
structure AcceptInv (cfg : NodeCfg) (s : SchedNode) : Prop where
  free : ∀ q, ∀ o ∈ (s.que q).ring, s.accepted o = none
  list : ∀ l, ∀ o ∈ (s.list l).head, s.accepted o = some (account s o)
  slot : ∀ t, ∀ o ∈ s.slot t, s.accepted o = some (account s o)
  call : ∀ n ∈ s.calls, CallAccept s n
  num : ∀ k, s.gone k.1 = false → ∀ e,
    s.eventNum k e = outstanding cfg s k e + refusing s k e
  refusal : ∀ r ∈ s.refusals, s.gone r.k.1 = false → r.maxEventNum ≤ r.outstanding

variable {cfg : NodeCfg} {s s' : SchedNode} {k : GrpId} {t : ThreadId} {c : Call} {x : ℕ}

/-! ## Counts -/

theorem countP_update {l : List ℕ} {p p' : ℕ → Bool} (hl : l.Nodup) (hx : x ∈ l)
    (hp : ∀ o ≠ x, p' o = p o) :
    l.countP p' + (if p x = true then 1 else 0) = l.countP p + if p' x = true then 1 else 0 := by
  have hrest : (l.erase x).countP p' = (l.erase x).countP p := by
    refine List.countP_congr fun o ho => ?_
    rw [hp o (hl.mem_erase_iff.mp ho).1]
  have hnew := AtMostOne.countP_erase (p := p') hx
  have hold := AtMostOne.countP_erase (p := p) hx
  omega

theorem outstanding_congr (hacc : s'.accepted = s.accepted) (k : GrpId) (e : ℕ) :
    outstanding cfg s' k e = outstanding cfg s k e := by
  simp only [outstanding, hacc]

/-- One event is accepted or finished. -/
theorem outstanding_update (hx : x < cfg.eventNum)
    (hacc : ∀ o ≠ x, s'.accepted o = s.accepted o) (k : GrpId) (e : ℕ) :
    outstanding cfg s' k e + (if s.accepted x = some (k, e) then 1 else 0) =
      outstanding cfg s k e + if s'.accepted x = some (k, e) then 1 else 0 := by
  have hdec : ∀ o ≠ x, decide (s'.accepted o = some (k, e)) = decide (s.accepted o = some (k, e)) :=
    fun o ho => by rw [hacc o ho]
  have hnum := countP_update List.nodup_range (List.mem_range.mpr hx) hdec
  simp only [decide_eq_true_eq] at hnum
  exact hnum

theorem refusing_become {e : ℕ} (next : List Call) (hc : c ∈ s.calls)
    (hcalls : s'.calls = next ++ s.calls.erase c)
    (hid : ∀ o, (s'.obj o).eventId = (s.obj o).eventId) :
    refusing s' k e + (if c.refuses s.obj k e = true then 1 else 0) =
      refusing s k e + next.countP (Call.refuses s.obj k e) := by
  have hsame : Call.refuses s'.obj k e = Call.refuses s.obj k e := by
    funext n
    cases n <;> simp [Call.refuses, hid]
  rw [refusing, refusing, hsame]
  exact countP_become hc hcalls

theorem refusing_congr {e : ℕ} (hcalls : s'.calls = s.calls)
    (hid : ∀ o, (s'.obj o).eventId = (s.obj o).eventId) : refusing s' k e = refusing s k e := by
  have hsame : Call.refuses s'.obj k e = Call.refuses s.obj k e := by
    funext n
    cases n <;> simp [Call.refuses, hid]
  rw [refusing, refusing, hsame, hcalls]

theorem refusing_keep {e : ℕ} (next : List Call) (hc : c ∈ s.calls)
    (hcalls : s'.calls = next ++ s.calls.erase c)
    (hid : ∀ o, (s'.obj o).eventId = (s.obj o).eventId)
    (hrefuses : ∀ k e, next.countP (Call.refuses s.obj k e) =
      if c.refuses s.obj k e = true then 1 else 0) :
    refusing s' k e = refusing s k e := by
  have hnum := refusing_become next hc hcalls hid (k := k) (e := e)
  have := hrefuses k e
  omega

/-! ## Steps -/

theorem CallAccept.frame {n : Call} (h : CallAccept s n) (hx : x ∉ n.hands)
    (hacc : ∀ o ≠ x, s'.accepted o = s.accepted o) (hobj : ∀ o ≠ x, account s' o = account s o) :
    CallAccept s' n := by
  intro o ho
  have hne : o ≠ x := by
    rintro rfl
    exact hx ho
  rw [hacc o hne, hobj o hne]
  exact h o ho

/-- One event moves. -/
theorem AcceptInv.move (h : AcceptInv cfg s) (x : ℕ)
    (hacc : ∀ o ≠ x, s'.accepted o = s.accepted o) (hobj : ∀ o ≠ x, account s' o = account s o)
    (hgone : ∀ pid, s.gone pid = true → s'.gone pid = true)
    (hfree : ∀ q, ∀ o ∈ (s'.que q).ring, o ≠ x ∧ o ∈ (s.que q).ring ∨ s'.accepted o = none)
    (hlist : ∀ l, ∀ o ∈ (s'.list l).head,
      o ≠ x ∧ o ∈ (s.list l).head ∨ s'.accepted o = some (account s' o))
    (hslot : ∀ t, ∀ o ∈ s'.slot t, o ≠ x ∧ o ∈ s.slot t ∨ s'.accepted o = some (account s' o))
    (hcall : ∀ n ∈ s'.calls, n ∈ s.calls ∧ x ∉ n.hands ∨ CallAccept s' n)
    (hrefusals : s'.refusals = s.refusals)
    (hnum : ∀ k, s'.gone k.1 = false → ∀ e,
      s.eventNum k e = outstanding cfg s k e + refusing s k e →
        s'.eventNum k e = outstanding cfg s' k e + refusing s' k e) : AcceptInv cfg s' := by
  have hlive {pid : ℕ} (hp : s'.gone pid = false) : s.gone pid = false := by
    cases hg : s.gone pid with
    | false => rfl
    | true =>
        rw [hgone pid hg] at hp
        cases hp
  refine ⟨fun q o ho => ?_, fun l o ho => ?_, fun t o ho => ?_, fun n hn => ?_,
    fun k hk e => hnum k hk e (h.num k (hlive hk) e), fun r hr hg => ?_⟩
  · rcases hfree q o ho with ⟨hne, hold⟩ | hnew
    · rw [hacc o hne]
      exact h.free q o hold
    · exact hnew
  · rcases hlist l o ho with ⟨hne, hold⟩ | hnew
    · rw [hacc o hne, hobj o hne]
      exact h.list l o hold
    · exact hnew
  · rcases hslot t o ho with ⟨hne, hold⟩ | hnew
    · rw [hacc o hne, hobj o hne]
      exact h.slot t o hold
    · exact hnew
  · rcases hcall n hn with ⟨hold, hx⟩ | hnew
    · exact (h.call n hold).frame hx hacc hobj
    · exact hnew
  · rw [hrefusals] at hr
    exact h.refusal r hr (hlive hg)

/-- No event moves. -/
structure Keeps (s s' : SchedNode) : Prop where
  que : s'.que = s.que
  list : s'.list = s.list
  slot : s'.slot = s.slot
  obj : s'.obj = s.obj
  accepted : s'.accepted = s.accepted
  eventNum : s'.eventNum = s.eventNum
  refusals : s'.refusals = s.refusals
  gone : ∀ pid, s.gone pid = true → s'.gone pid = true

/-- Events move that stay accepted or not. -/
theorem AcceptInv.same (h : AcceptInv cfg s) (hacc : s'.accepted = s.accepted)
    (hobj : ∀ o, account s' o = account s o)
    (hgone : ∀ pid, s.gone pid = true → s'.gone pid = true)
    (hfree : ∀ q, ∀ o ∈ (s'.que q).ring, s.accepted o = none)
    (hlist : ∀ l, ∀ o ∈ (s'.list l).head, s.accepted o = some (account s o))
    (hslot : ∀ t, ∀ o ∈ s'.slot t, s.accepted o = some (account s o))
    (hcall : ∀ n ∈ s'.calls, n ∈ s.calls ∨ CallAccept s n)
    (hrefusal : ∀ r ∈ s'.refusals, r ∈ s.refusals ∨
      (s.gone r.k.1 = false → r.maxEventNum ≤ r.outstanding))
    (hnum : ∀ k e, s'.eventNum k e + refusing s k e = s.eventNum k e + refusing s' k e) :
    AcceptInv cfg s' := by
  have hlive {pid : ℕ} (hp : s'.gone pid = false) : s.gone pid = false := by
    cases hg : s.gone pid with
    | false => rfl
    | true =>
        rw [hgone pid hg] at hp
        cases hp
  refine ⟨fun q o ho => ?_, fun l o ho => ?_, fun t o ho => ?_, fun n hn o ho => ?_,
    fun k hk e => ?_, fun r hr hg => ?_⟩
  · rw [hacc]
    exact hfree q o ho
  · rw [hacc, hobj]
    exact hlist l o ho
  · rw [hacc, hobj]
    exact hslot t o ho
  · rw [hacc, hobj]
    rcases hcall n hn with hold | hnew
    · exact h.call n hold o ho
    · exact hnew o ho
  · have hold := h.num k (hlive hk) e
    have hnew := hnum k e
    rw [outstanding_congr hacc]
    omega
  · rcases hrefusal r hr with hold | hnew
    · exact h.refusal r hold (hlive hg)
    · exact hnew (hlive hg)

theorem AcceptInv.keep (h : AcceptInv cfg s) (hkeeps : Keeps s s')
    (hcall : ∀ n ∈ s'.calls, n ∈ s.calls ∨ CallAccept s n)
    (hrefusing : ∀ k e, refusing s' k e = refusing s k e) : AcceptInv cfg s' := by
  refine h.same hkeeps.accepted (fun o => by rw [account, account, hkeeps.obj]) hkeeps.gone
    (fun q o ho => h.free q o (hkeeps.que ▸ ho)) (fun l o ho => h.list l o (hkeeps.list ▸ ho))
    (fun t o ho => h.slot t o (hkeeps.slot ▸ ho)) hcall
    (fun r hr => Or.inl (hkeeps.refusals ▸ hr)) fun k e => ?_
  rw [hkeeps.eventNum, hrefusing]

/-- The call goes on, and no event moves. -/
theorem AcceptInv.keepBecome (h : AcceptInv cfg s) {next : List Call} (hc : c ∈ s.calls)
    (hkeeps : Keeps s s') (hcalls : s'.calls = next ++ s.calls.erase c)
    (hnext : ∀ n ∈ next, CallAccept s n)
    (hrefuses : ∀ k e, next.countP (Call.refuses s.obj k e) =
      if c.refuses s.obj k e = true then 1 else 0) : AcceptInv cfg s' := by
  refine h.keep hkeeps (fun n hn => ?_)
    fun _ _ => refusing_keep next hc hcalls (fun o => by rw [hkeeps.obj]) hrefuses
  rw [hcalls] at hn
  rcases List.mem_append.mp hn with hn | hn
  · exact Or.inr (hnext n hn)
  · exact Or.inl (List.mem_of_mem_erase hn)

theorem AcceptInv.keepStart (h : AcceptInv cfg s) {n : Call} (hkeeps : Keeps s s')
    (hcalls : s'.calls = n :: s.calls) (hn : CallAccept s n)
    (hrefuses : ∀ k e, n.refuses s.obj k e = false) : AcceptInv cfg s' := by
  refine h.keep hkeeps (fun m hm => ?_) fun k e => ?_
  · rw [hcalls] at hm
    rcases List.mem_cons.mp hm with rfl | hm
    · exact Or.inr hn
    · exact Or.inl hm
  · rw [refusing, refusing, hcalls, hkeeps.obj, List.countP_cons_of_neg (by simp [hrefuses])]

theorem AcceptInv.keepCalls (h : AcceptInv cfg s) (hkeeps : Keeps s s')
    (hcalls : s'.calls = s.calls) : AcceptInv cfg s' :=
  h.keep hkeeps (fun n hn => Or.inl (hcalls ▸ hn)) fun k e => by
    rw [refusing, refusing, hcalls, hkeeps.obj]

/-- A call without an event says nothing about one. -/
theorem callAccept_of_noHands {n : Call} (hn : n.hands = []) : CallAccept s n := by
  intro o ho
  rw [hn] at ho
  cases ho

theorem AcceptInv.setGrp (h : AcceptInv cfg s) (k : GrpId) (grp : SchedGrpCtx) :
    AcceptInv cfg (s.setGrp k grp) :=
  h.keepCalls ⟨rfl, rfl, rfl, rfl, rfl, rfl, rfl, fun _ hp => hp⟩ rfl

theorem AcceptInv.setCur (h : AcceptInv cfg s) (cpuid : ℕ) (t : Option ThreadId) :
    AcceptInv cfg (s.setCur cpuid t) :=
  h.keepCalls ⟨rfl, rfl, rfl, rfl, rfl, rfl, rfl, fun _ hp => hp⟩ rfl

theorem AcceptInv.exclusiveFinish (h : AcceptInv cfg s) (k : GrpId) :
    AcceptInv cfg (schedExclusiveGrpFinish s k) := by
  unfold schedExclusiveGrpFinish
  split_ifs
  · exact h.keepCalls ⟨rfl, rfl, rfl, rfl, rfl, rfl, rfl, fun _ hp => hp⟩ rfl
  · exact h

theorem AcceptInv.wakeUp (h : AcceptInv cfg s) (t : ThreadId) :
    AcceptInv cfg (schedWakeUpThread s t) := by
  unfold schedWakeUpThread
  split_ifs
  · exact h.setGrp _ _
  · exact h.setCur _ _

/-- A call without an event starts. -/
theorem AcceptInv.start (h : AcceptInv cfg s) {n : Call} (hn : n.hands = []) :
    AcceptInv cfg { s with calls := n :: s.calls } := by
  refine h.keepStart ⟨rfl, rfl, rfl, rfl, rfl, rfl, rfl, fun _ hp => hp⟩ rfl
    (callAccept_of_noHands hn) fun k e => ?_
  cases n <;> simp_all [Call.hands, Call.refuses]

/-- A call without an event goes on as calls without an event. -/
theorem AcceptInv.become (h : AcceptInv cfg s) {next : List Call} (hc : c ∈ s.calls)
    (hhands : c.hands = []) (hnext : ∀ n ∈ next, n.hands = []) :
    AcceptInv cfg (s.become c next) := by
  have hnot {n : Call} (hn : n.hands = []) (k : GrpId) (e : ℕ) : n.refuses s.obj k e = false := by
    cases n <;> simp_all [Call.hands, Call.refuses]
  refine h.keepBecome hc ⟨rfl, rfl, rfl, rfl, rfl, rfl, rfl, fun _ hp => hp⟩ rfl
    (fun n hn => callAccept_of_noHands (hnext n hn)) fun k e => ?_
  rw [hnot hhands, List.countP_eq_zero.mpr fun n hn => by simp [hnot (hnext n hn)]]
  rfl

theorem AcceptInv.waitEnter (h : AcceptInv cfg s) {cpuid : ℕ} :
    AcceptInv cfg (Esched.waitEnter s t cpuid) := by
  have hstart : AcceptInv cfg { s with calls := .entered t cpuid :: s.calls } := h.start rfl
  dsimp only [Esched.waitEnter]
  split_ifs
  · exact hstart.setGrp _ _
  · exact hstart

/-! ## Steps that move no event -/

theorem AcceptInv.publish (h : AcceptInv cfg s) (k : GrpId) (eventId : ℕ) (tid : Option ℕ) :
    AcceptInv cfg (schedPublishEvent s k eventId tid) := by
  dsimp only [schedPublishEvent]
  split_ifs
  · exact h
  · exact h
  · exact h
  · exact h.start rfl

theorem AcceptInv.wakeup (h : AcceptInv cfg s) (t : ThreadId) :
    AcceptInv cfg (schedWakeupNonSchedGrp s t) := by
  unfold schedWakeupNonSchedGrp
  split_ifs
  · exact h.setGrp _ _
  · exact h

theorem AcceptInv.wakeupNext (h : AcceptInv cfg s) {cpuid : ℕ} {owner : Option ThreadId}
    (hc : .found cpuid owner t ∈ s.calls) :
    AcceptInv cfg (schedWakeupNextThread s cpuid owner t) := by
  cases owner with
  | none => exact ((h.setCur cpuid (some t)).become hc rfl (by simp)).wakeUp t
  | some cur =>
      have hgo : AcceptInv cfg (s.become (.found cpuid (some cur) t) [.sleeping cur cpuid]) :=
        h.become hc rfl (by simp [Call.hands])
      dsimp only [schedWakeupNextThread]
      split_ifs
      · exact hgo.setGrp _ _
      · exact ((hgo.setGrp _ _).setCur _ _).wakeUp t

theorem AcceptInv.toIdle (h : AcceptInv cfg s) {cpuid : ℕ} {owner : Option ThreadId}
    (hc : .search cpuid owner ∈ s.calls) : AcceptInv cfg (schedCpuToIdle s cpuid owner) := by
  cases owner with
  | none => exact h.become hc rfl (by simp)
  | some cur =>
      have hgo : AcceptInv cfg (s.become (.search cpuid (some cur)) [.sleeping cur cpuid]) :=
        h.become hc rfl (by simp [Call.hands])
      exact (hgo.setGrp _ _).setCur _ _

theorem AcceptInv.threadFinish (h : AcceptInv cfg s) (t : ThreadId) (why : Finish) :
    AcceptInv cfg (threadFinish s t why) := by
  unfold Esched.threadFinish
  split
  · cases why with
    | wait cpuid => exact h.waitEnter
    | timeout c timestamp => exact (h.setGrp _ _).setCur _ _
    | exit c => exact (h.setGrp _ _).setCur _ _
  · exact (h.start rfl).exclusiveFinish t.1

theorem AcceptInv.wait (h : AcceptInv cfg s) (t : ThreadId) (cpuid pid : ℕ) (swapout : Bool) :
    AcceptInv cfg (schedWait s t cpuid pid swapout) := by
  dsimp only [schedWait]
  split
  · exact h.setGrp _ _
  · split_ifs
    · exact (h.setGrp _ _).threadFinish t (.wait cpuid)
    · exact (h.setGrp _ _).waitEnter

theorem AcceptInv.waitReturn (h : AcceptInv cfg s) {cpuid : ℕ} (hc : .woken t cpuid ∈ s.calls) :
    AcceptInv cfg (schedWaitReturnEvent s t cpuid) := by
  have hgo : AcceptInv cfg (s.become (.woken t cpuid) []) := h.become hc rfl (by simp)
  dsimp only [schedWaitReturnEvent]
  split
  · exact hgo.setGrp _ _
  · exact (hgo.setGrp _ _).setCur _ _

end OpiaiKernel.Esched
