import OpiaiKernel.Esched.NodeThread
import OpiaiKernel.Lib.AtMostOne

/-!
# The threads over a search

A search on a cpu hands an event to a thread that has none, and gives the cpu
to it.
-/

namespace OpiaiKernel.Esched

/-! ## Updates -/

section Updates

variable (s : SchedNode) (t : ThreadId) (f : SchedThreadCtx → SchedThreadCtx)

@[simp] theorem thread_setThread_self : (s.setThread t f).thread t = f (s.thread t) := by
  simp [SchedNode.setThread, SchedNode.setGrp, SchedNode.thread]

theorem thread_setThread_of_ne {u : ThreadId} (h : u ≠ t) :
    (s.setThread t f).thread u = s.thread u := by
  obtain ⟨k, i⟩ := u
  obtain ⟨k', i'⟩ := t
  rcases eq_or_ne k k' with rfl | hk
  · have hi : i ≠ i' := fun heq => h (by rw [heq])
    simp [SchedNode.setThread, SchedNode.setGrp, SchedNode.thread, setThreadCtx_of_ne _ _ hi]
  · simp [SchedNode.setThread, SchedNode.setGrp, SchedNode.thread, Function.update_of_ne hk]

@[simp] theorem mode_setThread (k : GrpId) : (s.setThread t f).mode k = s.mode k := by
  rcases eq_or_ne k t.1 with rfl | hk
  · simp [SchedNode.setThread, SchedNode.setGrp, SchedNode.mode, setThreadCtx]
  · simp [SchedNode.setThread, SchedNode.setGrp, SchedNode.mode, Function.update_of_ne hk]

/-- The view after the context of a thread is changed, but for its registration
and its cpu. -/
theorem view_setThread (hvalid : (f (s.thread t)).valid = (s.thread t).valid)
    (hbind : (f (s.thread t)).bindCpuid = (s.thread t).bindCpuid) :
    (s.setThread t f).view = { s.view with
      status := Function.update s.view.status t (f (s.thread t)).status
      wait := Function.update s.view.wait t (f (s.thread t)).waitFlag } := by
  have hmode : (s.setThread t f).view.mode = s.view.mode := funext (mode_setThread s t f)
  have hval : (s.setThread t f).view.valid = s.view.valid := by
    funext u
    rcases eq_or_ne u t with rfl | hne
    · simp [SchedNode.view, hvalid]
    · simp [SchedNode.view, thread_setThread_of_ne s t f hne]
  have hbnd : (s.setThread t f).view.bind = s.view.bind := by
    funext u
    rcases eq_or_ne u t with rfl | hne
    · simp [SchedNode.view, hbind]
    · simp [SchedNode.view, thread_setThread_of_ne s t f hne]
  have hstatus : (s.setThread t f).view.status =
      Function.update s.view.status t (f (s.thread t)).status := by
    funext u
    rcases eq_or_ne u t with rfl | hne
    · simp [SchedNode.view]
    · simp [SchedNode.view, thread_setThread_of_ne s t f hne, hne]
  have hwait : (s.setThread t f).view.wait =
      Function.update s.view.wait t (f (s.thread t)).waitFlag := by
    funext u
    rcases eq_or_ne u t with rfl | hne
    · simp [SchedNode.view]
    · simp [SchedNode.view, thread_setThread_of_ne s t f hne, hne]
  exact ThreadView.ext hmode hval hbnd hstatus hwait rfl rfl rfl

theorem view_setStatus (status : ThreadStatus) :
    (s.setStatus t status).view =
      { s.view with status := Function.update s.view.status t status } := by
  rw [SchedNode.setStatus, view_setThread s t _ rfl rfl]
  have hwait : Function.update s.view.wait t (s.thread t).waitFlag = s.view.wait :=
    Function.update_eq_self t s.view.wait
  rw [hwait]

theorem view_setWaitFlag (waitFlag : Bool) :
    (s.setWaitFlag t waitFlag).view =
      { s.view with wait := Function.update s.view.wait t waitFlag } := by
  rw [SchedNode.setWaitFlag, view_setThread s t _ rfl rfl]
  have hstatus : Function.update s.view.status t (s.thread t).status = s.view.status :=
    Function.update_eq_self t s.view.status
  rw [hstatus]

end Updates

/-! ## Calls alone -/

section Calls

variable {cfg : NodeCfg} {v : ThreadView} {t : ThreadId} {c n : Call}

namespace Call

/-- The call is one of a publisher. -/
def plain : Call → Bool
  | .publish .. | .alloced .. | .checked .. | .refused .. | .adding .. | .added ..
  | .failed .. => true
  | _ => false

theorem not_about (hbusy : n.busy t = false)
    (hwaits : v.mode t.1 = .nonSchedCpu → n.waits t = false) : ¬ n.About v t := by
  cases n <;> simp_all [About, Call.busy, locks, isExact, waits]
  grind

theorem plain_busy (h : n.plain = true) (t : ThreadId) : n.busy t = false := by
  cases n <;> simp_all [plain, Call.busy, locks, isExact]

theorem plain_selects (h : n.plain = true) (cpu : ℕ) : n.selects cpu = false := by
  cases n <;> simp_all [plain, selects]

theorem plain_waits (h : n.plain = true) (t : ThreadId) : n.waits t = false := by
  cases n <;> simp_all [plain, waits]

end Call

theorem callOk_of_plain (h : n.plain = true) : CallOk cfg v n := by
  cases n <;> simp_all [Call.plain, CallOk]

/-- A call goes on as calls that have no thread and no cpu that it does not
have. -/
theorem ThreadInv.become (h : ThreadInv cfg v) (hc : c ∈ v.calls) {next : List Call}
    (hnext : ∀ n ∈ next, CallOk cfg v n)
    (hfound : ∀ cpu owner u, c ≠ .found cpu owner u)
    (hbusy : ∀ u, next.countP (Call.busy u) ≤ if c.busy u = true then 1 else 0)
    (hselects : ∀ cpu, next.countP (Call.selects cpu) ≤ if c.selects cpu = true then 1 else 0)
    (hwaits : ∀ u, next.countP (Call.waits u) ≤ if c.waits u = true then 1 else 0) :
    ThreadInv cfg { v with calls := next ++ v.calls.erase c } := by
  refine h.setCalls (fun n hn => ?_) (fun cpu owner u hmem => ?_)
    (fun u => AtMostOne.replace (h.busy u) hc (hbusy u))
    (fun cpu => AtMostOne.replace (h.selects cpu) hc (hselects cpu))
    (fun u hu => AtMostOne.replace (h.waits u hu) hc (hwaits u))
  · rcases List.mem_append.mp hn with hn | hn
    · exact hnext n hn
    · exact h.call n (List.mem_of_mem_erase hn)
  · exact List.mem_append_right _ ((List.mem_erase_of_ne (hfound cpu owner u).symm).mpr hmem)

theorem ThreadInv.becomePlain (h : ThreadInv cfg v) (hc : c ∈ v.calls) (hplain : c.plain = true)
    {next : List Call} (hnext : ∀ n ∈ next, n.plain = true) :
    ThreadInv cfg { v with calls := next ++ v.calls.erase c } := by
  have hzero {p : Call → Bool} (hp : ∀ n : Call, n.plain = true → p n = false) :
      next.countP p = 0 :=
    List.countP_eq_zero.mpr fun n hn => by simp [hp n (hnext n hn)]
  refine h.become hc (fun n hn => callOk_of_plain (hnext n hn)) (fun cpu owner u heq => ?_)
    (fun u => ?_) (fun cpu => ?_) (fun u => ?_)
  · rw [heq] at hplain
    cases hplain
  · rw [hzero fun n hn => Call.plain_busy hn u]
    exact Nat.zero_le _
  · rw [hzero fun n hn => Call.plain_selects hn cpu]
    exact Nat.zero_le _
  · rw [hzero fun n hn => Call.plain_waits hn u]
    exact Nat.zero_le _

theorem ThreadInv.startPlain (h : ThreadInv cfg v) (hplain : n.plain = true) :
    ThreadInv cfg { v with calls := n :: v.calls } := by
  refine h.setCalls (fun m hm => ?_) (fun cpu owner u hmem => List.mem_cons_of_mem n hmem)
    (fun u => ?_) (fun cpu => ?_) (fun u hu => ?_)
  · rcases List.mem_cons.mp hm with rfl | hm
    · exact callOk_of_plain hplain
    · exact h.call m hm
  · rw [List.countP_cons_of_neg (by simp [Call.plain_busy hplain])]
    exact h.busy u
  · rw [List.countP_cons_of_neg (by simp [Call.plain_selects hplain])]
    exact h.selects cpu
  · rw [List.countP_cons_of_neg (by simp [Call.plain_waits hplain])]
    exact h.waits u hu

/-- A call goes on as another one with the same thread and cpu. -/
theorem ThreadInv.becomeOne (h : ThreadInv cfg v) (hc : c ∈ v.calls) (hn : CallOk cfg v n)
    (hfound : ∀ cpu owner u, c ≠ .found cpu owner u) (hbusy : ∀ u, n.busy u = c.busy u)
    (hselects : ∀ cpu, n.selects cpu = c.selects cpu) (hwaits : ∀ u, n.waits u = c.waits u) :
    ThreadInv cfg { v with calls := [n] ++ v.calls.erase c } := by
  refine h.become hc (by simpa using hn) hfound (fun u => ?_) (fun cpu => ?_) (fun u => ?_)
  · rw [List.countP_singleton, hbusy]
  · rw [List.countP_singleton, hselects]
  · rw [List.countP_singleton, hwaits]

/-- A call ends. -/
theorem ThreadInv.finishCall (h : ThreadInv cfg v) (hc : c ∈ v.calls)
    (hfound : ∀ cpu owner u, c ≠ .found cpu owner u) :
    ThreadInv cfg { v with calls := [] ++ v.calls.erase c } :=
  h.become hc (fun _ hn => nomatch hn) hfound (fun _ => Nat.zero_le _) (fun _ => Nat.zero_le _)
    fun _ => Nat.zero_le _

end Calls

/-! ## The search of a cpu -/

section Search

variable {cfg : NodeCfg} {v : ThreadView} {t u : ThreadId} {c : Call} {cpu o : ℕ}
  {owner : Option ThreadId}

/-- The thread of a call that has it to itself is not the thread of another
call. -/
theorem ThreadInv.not_about (h : ThreadInv cfg v) (hc : c ∈ v.calls) (hbusy : c.busy t = true)
    (hmode : v.mode t.1 = .schedCpu) {n : Call} (hn : n ∈ v.calls.erase c) : ¬ n.About v t :=
  Call.not_about (AtMostOne.other (h.busy t) hc hbusy hn) fun hnon => by
    rw [hmode] at hnon
    cases hnon

/-- A call on a cpu has its current thread. -/
theorem ThreadInv.busy_of_onCpu (h : ThreadInv cfg v) {n : Call} (hn : n ∈ v.calls)
    (hon : n.OnCpu cpu) (hcur : v.cur cpu = some t) : n.busy t = true := by
  have hok := h.call n hn
  cases n with
  | publish | alloced | checked | refused | adding | added | failed | entered | sleeping
  | woken | exact => exact hon.elim
  | search c' owner =>
      cases hon
      simp [Call.busy, Call.locks, ← hok.2.1, hcur]
  | took c' owner o' =>
      cases hon
      simp [Call.busy, Call.locks, ← hok.2.1, hcur]
  | found c' owner w =>
      cases hon
      simp [Call.busy, Call.locks, ← hok.2.1, hcur]
  | finish w why o' =>
      have hw : v.cur cpu = some w := by
        cases why with
        | wait => exact hon.elim
        | timeout c' timestamp =>
            cases hon
            exact hok.2.2.2
        | exit c' =>
            cases hon
            exact hok.2.2.2
      rw [hcur] at hw
      simp [Call.busy, Call.locks, Option.some.inj hw]

/-- While a call searches for a cpu, no other call is about the cpu. -/
theorem ThreadInv.onCpu_ne (h : ThreadInv cfg v) (hc : c ∈ v.calls) (hsel : c.selects cpu = true)
    (hcur : ∀ w, v.cur cpu = some w → c.busy w = true) {n : Call} (hn : n ∈ v.calls.erase c)
    {c' : ℕ} (hon : n.OnCpu c') : c' ≠ cpu := by
  rintro rfl
  have hnot : n.selects c' = false := AtMostOne.other (h.selects c') hc hsel hn
  cases hw : v.cur c' with
  | some w =>
      have hbusy := AtMostOne.other (h.busy w) hc (hcur w hw) hn
      rw [h.busy_of_onCpu (List.mem_of_mem_erase hn) hon hw] at hbusy
      cases hbusy
  | none =>
      -- only a search may be on an idle cpu
      have hok := h.call n (List.mem_of_mem_erase hn)
      cases n with
      | publish | alloced | checked | refused | adding | added | failed | entered | sleeping
      | woken | exact => exact hon.elim
      | search | took | found =>
          simp only [Call.selects, decide_eq_false_iff_not] at hnot
          exact hnot hon
      | finish w why o' =>
          cases why with
          | wait => exact hon.elim
          | timeout | exit =>
              cases hon
              have hsome : v.cur c' = some w := hok.2.2.2
              rw [hw] at hsome
              cases hsome

/-- An event is only handed to a thread that has none. -/
theorem ThreadInv.slot_empty (h : ThreadInv cfg v) (hc : .took cpu owner o ∈ v.calls)
    (hb : Bound v cpu t) : v.slot t = none := by
  by_contra hsome
  obtain ⟨-, howner, hslot⟩ := h.call _ hc
  rcases (h.slot t hsome).2.1 hb.mode with hcur | ⟨owner', hfnd⟩
  · rw [hb.bind, howner] at hcur
    exact hsome (hslot t hcur)
  · rw [hb.bind] at hfnd
    have heq := AtMostOne.unique (p := Call.selects cpu) (h.selects cpu) hc (by simp [Call.selects])
      hfnd (by simp [Call.selects])
    cases heq

/-- The search puts an event into the slot of its thread. -/
theorem ThreadInv.handFound (h : ThreadInv cfg v) (hc : .took cpu owner o ∈ v.calls)
    (hb : Bound v cpu t) :
    ThreadInv cfg { v with
      slot := Function.update v.slot t (some o)
      calls := [.found cpu owner t] ++ v.calls.erase (.took cpu owner o) } := by
  have hempty := h.slot_empty hc hb
  obtain ⟨hcpu, howner, hslot⟩ := h.call _ hc
  -- no other call searches for the cpu of the thread
  have hselects {n : Call} (hn : n ∈ v.calls.erase (.took cpu owner o)) :
      n.selects cpu = false :=
    AtMostOne.other (h.selects cpu) hc (by simp [Call.selects]) hn
  have hcurne {n : Call} {c' : ℕ} (hn : n ∈ v.calls.erase (.took cpu owner o))
      (hsel : n.selects c' = true) : v.cur c' ≠ some t := by
    intro hcur
    obtain ⟨-, hbound⟩ := h.cur c' t hcur
    rw [← hbound.bind, hb.bind, hselects hn] at hsel
    cases hsel
  refine h.change t rfl rfl rfl (fun u hu => ⟨rfl, rfl, Function.update_of_ne hu _ _⟩)
    (fun _ => Or.inl rfl) (fun n hn => ?_) (fun u hu c' ow hfnd => ?_)
    (fun u => AtMostOne.replace (h.busy u) hc ?_)
    (fun c' => AtMostOne.replace (h.selects c') hc ?_)
    (fun u hu => AtMostOne.replace (h.waits u hu) hc ?_) hb.valid (h.active t) fun _ => ?_
  · rcases List.mem_append.mp hn with hn | hn
    · obtain rfl := List.mem_singleton.mp hn
      refine Or.inl ⟨hcpu, howner, fun u hu hne => ?_, hb.mode, hb.valid, hb.bind⟩
      dsimp only
      rw [Function.update_of_ne hne]
      exact hslot u hu
    · have hmem := List.mem_of_mem_erase hn
      have hok := h.call n hmem
      by_cases habout : n.About v t
      · cases n with
        | publish | alloced | checked | refused | adding | added | failed => exact habout.elim
        | search c' ow =>
            exact absurd (hok.2.1.trans habout) (hcurne hn (by simp [Call.selects]))
        | took c' ow o' =>
            exact absurd (hok.2.1.trans habout) (hcurne hn (by simp [Call.selects]))
        | found c' ow w =>
            exact absurd (hok.2.1.trans habout) (hcurne hn (by simp [Call.selects]))
        | finish w why o' =>
            have hsome := hok.2.1
            rw [habout, hempty] at hsome
            cases hsome
        | entered w c' =>
            cases habout
            refine Or.inl ⟨hok.1, fun _ hrun => ?_, hok.2.2⟩
            -- a running thread is the owner of the search
            have hcur : v.cur cpu = some t := by
              rw [← hb.bind]
              refine h.active t hb.mode fun hidle => ?_
              rw [show v.status t = .run from hrun] at hidle
              cases hidle
            have hbusy := AtMostOne.other (h.busy t) hc
              (by simp [Call.busy, Call.locks, ← howner, hcur]) hn
            simp [Call.busy, Call.locks] at hbusy
        | sleeping w c' =>
            have hnon := habout.2
            rw [hb.mode] at hnon
            cases hnon
        | woken w c' => exact habout.elim
        | exact w o' old =>
            have hsome := hok.2.1
            rw [habout, hempty] at hsome
            cases hsome
      · exact Or.inr ⟨hmem, habout, fun _ _ => rfl⟩
  · exact Or.inl (List.mem_append_right _ ((List.mem_erase_of_ne (by simp)).mpr hfnd))
  · rw [List.countP_singleton]
    rfl
  · rw [List.countP_singleton]
    rfl
  · rw [List.countP_singleton]
    rfl
  · refine ⟨hb.valid, fun _ => Or.inr ⟨owner, ?_⟩, fun hne => absurd hb.mode hne⟩
    dsimp only
    rw [hb.bind]
    exact List.mem_append_left _ (List.mem_singleton_self _)

/-- An idle thread is made ready. -/
theorem ThreadInv.setReady (h : ThreadInv cfg v) (hvalid : v.valid t = true)
    (hidle : v.status t = .idle)
    (hcur : v.mode t.1 = .schedCpu → v.cur (v.bind t) = some t) :
    ThreadInv cfg { v with status := Function.update v.status t .ready } := by
  refine h.change t rfl rfl rfl
    (fun u hu => ⟨Function.update_of_ne hu _ _, rfl, rfl⟩) (fun _ => Or.inl rfl) (fun n hn => ?_)
    (fun u hu c' ow hfnd => Or.inl hfnd) h.busy h.selects h.waits hvalid (fun hs _ => hcur hs)
    fun hsome => ?_
  · have hok := h.call n hn
    by_cases habout : n.About v t
    · left
      cases n with
      | publish | alloced | checked | refused | adding | added | failed => trivial
      | search c' ow => exact hok
      | took c' ow o' => exact hok
      | found c' ow w =>
          obtain ⟨hc, howner, hslot, hb⟩ := hok
          exact ⟨hc, howner, hslot, hb.mode, hb.valid, hb.bind⟩
      | finish w why o' =>
          obtain ⟨hval, hslot, hwait, hwhy⟩ := hok
          refine ⟨hval, hslot, hwait, ?_⟩
          cases why with
          | wait cpuid =>
              cases habout
              rw [hidle] at hwhy
              cases hwhy
          | timeout cpuid timestamp => exact hwhy
          | exit cpuid => exact hwhy
      | entered w c' =>
          cases habout
          obtain ⟨hval, -, hnon⟩ := hok
          simp only [CallOk, Function.update_self, reduceCtorEq, false_implies, implies_true,
            ne_eq, not_false_eq_true, true_and]
          exact ⟨hval, fun hm => (hnon hm).2⟩
      | sleeping w c' =>
          obtain ⟨hval, hnon⟩ := hok
          obtain ⟨rfl, hm⟩ := habout
          simp only [CallOk, Function.update_self, reduceCtorEq, ne_eq, not_false_eq_true,
            true_and]
          exact ⟨hval, fun hm => (hnon hm).2⟩
      | woken w c' => exact hok
      | exact w o' old =>
          cases habout
          have hrun := hok.2.2
          rw [hidle] at hrun
          cases hrun
    · exact Or.inr ⟨hn, habout, fun _ _ => rfl⟩
  · obtain ⟨hval, hsched, hnon⟩ := h.slot t hsome
    refine ⟨hval, hsched, fun hne => ?_⟩
    have hrun := hnon hne
    rw [hidle] at hrun
    cases hrun

/-- The thread that was found on an idle cpu becomes its current thread. -/
theorem ThreadInv.takeCpu (h : ThreadInv cfg v) (hc : .found cpu none t ∈ v.calls) :
    v.status t = .idle ∧ ThreadInv cfg { v with
      cur := Function.update v.cur cpu (some t)
      calls := [] ++ v.calls.erase (.found cpu none t) } := by
  obtain ⟨hcpu, hnone, -, hb⟩ := h.call _ hc
  have hidle : v.status t = .idle := by
    by_contra hstatus
    have hcur := h.active t hb.mode hstatus
    rw [hb.bind, hnone] at hcur
    cases hcur
  refine ⟨hidle, h.change t rfl rfl rfl (fun _ _ => ⟨rfl, rfl, rfl⟩) (fun c => ?_)
    (fun n hn => ?_) (fun u hu c ow hfnd => ?_) (fun u => AtMostOne.replace (h.busy u) hc ?_)
    (fun c => AtMostOne.replace (h.selects c) hc ?_)
    (fun u hu => AtMostOne.replace (h.waits u hu) hc ?_) hb.valid (fun _ hne => absurd hidle hne)
    fun hsome => ?_⟩
  · rcases eq_or_ne c cpu with rfl | hne
    · refine Or.inr ⟨fun u hu => ?_, fun u hu => ?_⟩
      · rw [hnone] at hu
        cases hu
      · simp only [Function.update_self, Option.some.injEq] at hu
        exact ⟨hcpu, hu ▸ hb⟩
    · exact Or.inl (Function.update_of_ne hne _ _)
  · have hmem := List.mem_of_mem_erase hn
    have hok := h.call n hmem
    have hnotcur {c : ℕ} : v.cur c ≠ some t := by
      intro hcur
      have hbind := (h.cur c t hcur).2.bind
      rw [← hbind, hb.bind, hnone] at hcur
      cases hcur
    have hon {c : ℕ} (hc' : n.OnCpu c) : c ≠ cpu :=
      h.onCpu_ne hc (by simp [Call.selects]) (fun w hw => by simp [hnone] at hw) hn hc'
    by_cases habout : n.About v t
    · cases n with
      | publish | alloced | checked | refused | adding | added | failed => exact habout.elim
      | search c ow => exact absurd (hok.2.1.trans habout) hnotcur
      | took c ow o' => exact absurd (hok.2.1.trans habout) hnotcur
      | found c ow w => exact absurd (hok.2.1.trans habout) hnotcur
      | finish w why o' =>
          cases habout
          cases why with
          | wait cpuid =>
              have hrun : v.status t = .run := hok.2.2.2
              rw [hidle] at hrun
              cases hrun
          | timeout c timestamp => exact absurd hok.2.2.2 hnotcur
          | exit c => exact absurd hok.2.2.2 hnotcur
      | entered w c => exact Or.inl hok
      | sleeping w c => exact Or.inl hok
      | woken w c => exact Or.inl hok
      | exact w o' old =>
          cases habout
          have hrun : v.status t = .run := hok.2.2
          rw [hidle] at hrun
          cases hrun
    · exact Or.inr ⟨hmem, habout, fun c hc' => Function.update_of_ne (hon hc') _ _⟩
  · have hne : Call.found c ow u ≠ .found cpu none t := by
      intro heq
      cases heq
      exact hu rfl
    exact Or.inl ((List.mem_erase_of_ne hne).mpr hfnd)
  · simp
  · simp
  · simp
  · refine ⟨hb.valid, fun _ => Or.inl ?_, fun hne => absurd hb.mode hne⟩
    dsimp only
    rw [hb.bind, Function.update_self]

/-- The thread that waits on the cpu leaves it, to nobody or to the thread that
was found. -/
theorem ThreadInv.leaveCpu (h : ThreadInv cfg v) {x : Option ThreadId} (hc : c ∈ v.calls)
    (hlocks : c.locks u = true) (hsel : c.selects cpu = true) (hcur : v.cur cpu = some u)
    (hslot : v.slot u = none) (hx : ∀ t ∈ x, Bound v cpu t)
    (hfound : ∀ c' ow w, c = .found c' ow w → c' = cpu ∧ x = some w)
    (hwaits : ∀ w, c.waits w = false) :
    ThreadInv cfg { v with
      status := Function.update v.status u .idle
      cur := Function.update v.cur cpu x
      calls := [.sleeping u cpu] ++ v.calls.erase c } := by
  obtain ⟨hcpu, hb⟩ := h.cur cpu u hcur
  have hbusy : c.busy u = true := by simp [Call.busy, hlocks]
  refine h.change u rfl rfl rfl (fun w hw => ⟨Function.update_of_ne hw _ _, rfl, rfl⟩)
    (fun c' => ?_) (fun n hn => ?_) (fun w hw c' ow hfnd => ?_)
    (fun w => AtMostOne.replace (h.busy w) hc ?_)
    (fun c' => AtMostOne.replace (h.selects c') hc ?_) (fun w hw => ?_) hb.valid
    (fun _ hne => absurd (Function.update_self _ _ _) hne) fun hsome => absurd hslot hsome
  · rcases eq_or_ne c' cpu with rfl | hne
    · refine Or.inr ⟨fun w hw => ?_, fun w hw => ?_⟩
      · rw [hcur] at hw
        exact (Option.some.inj hw).symm
      · simp only [Function.update_self] at hw
        exact ⟨hcpu, hx w hw⟩
    · exact Or.inl (Function.update_of_ne hne _ _)
  · rcases List.mem_append.mp hn with hn | hn
    · obtain rfl := List.mem_singleton.mp hn
      refine Or.inl ⟨hb.valid, fun hnon => ?_⟩
      rw [show v.mode u.1 = .schedCpu from hb.mode] at hnon
      cases hnon
    · have hmem := List.mem_of_mem_erase hn
      have hown (w : ThreadId) (hw : v.cur cpu = some w) : c.busy w = true := by
        rw [hcur] at hw
        exact Option.some.inj hw ▸ hbusy
      exact Or.inr ⟨hmem, h.not_about hc hbusy hb.mode hn,
        fun c' hon => Function.update_of_ne (h.onCpu_ne hc hsel hown hn hon) _ _⟩
  · by_cases heq : c = .found c' ow w
    · obtain ⟨rfl, rfl⟩ := hfound c' ow w heq
      exact Or.inr (Function.update_self _ _ _)
    · exact Or.inl (List.mem_append_right _ ((List.mem_erase_of_ne (Ne.symm heq)).mpr hfnd))
  · simp [Call.busy, Call.locks, Call.isExact]
  · simp [Call.selects]
  · rw [List.countP_append, List.countP_singleton]
    have herase := AtMostOne.countP_erase (p := Call.waits w) hc
    have hle := h.waits w hw
    have hne : Call.waits w (.sleeping u cpu) = false := by
      simp only [Call.waits, decide_eq_false_iff_not]
      rintro rfl
      rw [show v.mode u.1 = .schedCpu from hb.mode] at hw
      cases hw
    rw [hwaits, if_neg (by simp)] at herase
    rw [hne, if_neg (by simp)]
    omega

/-- The thread that waits on the cpu finds an event of its own. -/
theorem ThreadInv.selfReady (h : ThreadInv cfg v) (hc : .found cpu (some t) t ∈ v.calls) :
    ThreadInv cfg { v with
      status := Function.update v.status t .ready
      calls := [.sleeping t cpu] ++ v.calls.erase (.found cpu (some t) t) } := by
  obtain ⟨-, hcur, -, hb⟩ := h.call _ hc
  have hbusy : Call.busy t (.found cpu (some t) t) = true := by simp [Call.busy, Call.locks]
  refine h.change t rfl rfl rfl (fun w hw => ⟨Function.update_of_ne hw _ _, rfl, rfl⟩)
    (fun _ => Or.inl rfl) (fun n hn => ?_) (fun w hw c' ow hfnd => ?_)
    (fun w => AtMostOne.replace (h.busy w) hc ?_)
    (fun c' => AtMostOne.replace (h.selects c') hc ?_) (fun w hw => ?_) hb.valid
    (fun _ _ => hb.bind.symm ▸ hcur) fun _ => ?_
  · rcases List.mem_append.mp hn with hn | hn
    · obtain rfl := List.mem_singleton.mp hn
      refine Or.inl ⟨hb.valid, fun hnon => ?_⟩
      rw [show v.mode t.1 = .schedCpu from hb.mode] at hnon
      cases hnon
    · exact Or.inr ⟨List.mem_of_mem_erase hn, h.not_about hc hbusy hb.mode hn, fun _ _ => rfl⟩
  · have hne : Call.found c' ow w ≠ .found cpu (some t) t := by
      intro heq
      cases heq
      exact hw rfl
    exact Or.inl (List.mem_append_right _ ((List.mem_erase_of_ne hne).mpr hfnd))
  · simp [Call.busy, Call.locks, Call.isExact]
  · simp [Call.selects]
  · rw [List.countP_append, List.countP_singleton]
    have herase := AtMostOne.countP_erase (p := Call.waits w) hc
    have hle := h.waits w hw
    have hne : Call.waits w (.sleeping t cpu) = false := by
      simp only [Call.waits, decide_eq_false_iff_not]
      rintro rfl
      rw [show v.mode t.1 = .schedCpu from hb.mode] at hw
      cases hw
    rw [if_neg (by simp [Call.waits])] at herase
    rw [hne, if_neg (by simp)]
    omega
  · exact ⟨hb.valid, fun _ => Or.inl (hb.bind.symm ▸ hcur), fun hne => absurd hb.mode hne⟩

/-- A search starts on a cpu that nobody searches for. -/
theorem ThreadInv.startSearch (h : ThreadInv cfg v) (hcpu : cpu ∈ cfg.cpus)
    (hcur : v.cur cpu = none) (hfree : ∀ n ∈ v.calls, n.selects cpu = false) :
    ThreadInv cfg { v with calls := .search cpu none :: v.calls } := by
  refine h.setCalls (fun n hn => ?_) (fun c ow w hfnd => List.mem_cons_of_mem _ hfnd)
    (fun w => ?_) (fun c => ?_) (fun w hw => ?_)
  · rcases List.mem_cons.mp hn with rfl | hn
    · exact ⟨hcpu, hcur, fun w hw => nomatch hw⟩
    · exact h.call n hn
  · rw [List.countP_cons_of_neg (by simp [Call.busy, Call.locks, Call.isExact])]
    exact h.busy w
  · rcases eq_or_ne cpu c with rfl | hne
    · exact AtMostOne.insert hfree
    · rw [List.countP_cons_of_neg (by simp [Call.selects, hne])]
      exact h.selects c
  · rw [List.countP_cons_of_neg (by simp [Call.waits])]
    exact h.waits w hw

/-- A running thread that waits on its cpu searches for the next thread. -/
theorem ThreadInv.switch (h : ThreadInv cfg v) (hc : .entered t cpu ∈ v.calls)
    (hmode : v.mode t.1 = .schedCpu) (hbind : v.bind t = cpu) (hrun : v.status t = .run) :
    ThreadInv cfg { v with
      calls := [.search cpu (some t)] ++ v.calls.erase (.entered t cpu) } := by
  obtain ⟨-, hslot, -⟩ := h.call _ hc
  have hbusy : Call.busy t (.entered t cpu) = true := by simp [Call.busy, Call.locks]
  have hcur : v.cur cpu = some t := by
    rw [← hbind]
    exact h.active t hmode (by simp [hrun])
  have hnone {n : Call} (hn : n ∈ v.calls.erase (.entered t cpu)) : n.selects cpu = false := by
    by_contra hsel
    have hok := h.call n (List.mem_of_mem_erase hn)
    have hother := AtMostOne.other (h.busy t) hc hbusy hn
    cases n <;> simp only [Call.selects, decide_eq_false_iff_not, not_not, not_true_eq_false] at hsel
    all_goals
      obtain rfl := hsel
      have how := hok.2.1
      rw [hcur] at how
      simp [Call.busy, Call.locks, ← how] at hother
  refine h.setCalls (fun n hn => ?_) (fun c ow w hfnd => ?_)
    (fun w => AtMostOne.replace (h.busy w) hc ?_) (fun c => ?_)
    (fun w hw => AtMostOne.replace (h.waits w hw) hc ?_)
  · rcases List.mem_append.mp hn with hn | hn
    · obtain rfl := List.mem_singleton.mp hn
      refine ⟨(h.cur cpu t hcur).1, hcur, fun w hw => ?_⟩
      obtain rfl := Option.mem_some_iff.mp hw
      exact hslot hmode hrun
    · exact h.call n (List.mem_of_mem_erase hn)
  · exact List.mem_append_right _ ((List.mem_erase_of_ne (by simp)).mpr hfnd)
  · rw [List.countP_singleton]
    simp [Call.busy, Call.locks, Call.isExact]
  · rcases eq_or_ne cpu c with rfl | hne
    · exact AtMostOne.insert fun n hn => hnone hn
    · refine AtMostOne.replace (h.selects c) hc ?_
      rw [List.countP_singleton]
      simp [Call.selects, hne]
  · rw [List.countP_singleton]
    simp [Call.waits]

end Search

end OpiaiKernel.Esched
