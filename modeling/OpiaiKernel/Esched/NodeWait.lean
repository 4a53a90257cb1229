import OpiaiKernel.Esched.NodeSteps

/-!
# The threads over a wait

A thread that waits or is finished has no other call on it.  A wait that was
woken is the exception: it goes on when the thread may be in other hands.
-/

namespace OpiaiKernel.Esched

variable {cfg : NodeCfg} {v : ThreadView} {t : ThreadId} {cpu o : ℕ} {c : Call} {calls : List Call}

/-- The other calls: none of them has the thread to itself, and none waits with
it unless it is scheduled. -/
structure Quiet (v : ThreadView) (t : ThreadId) (calls : List Call) : Prop where
  mem : ∀ n ∈ calls, n ∈ v.calls
  found : ∀ c owner u, .found c owner u ∈ v.calls → .found c owner u ∈ calls
  count : ∀ p : Call → Bool, calls.countP p ≤ v.calls.countP p
  busy : ∀ n ∈ calls, n.busy t = false
  waits : v.mode t.1 = .nonSchedCpu → ∀ n ∈ calls, n.waits t = false

theorem Quiet.not_about (h : Quiet v t calls) {n : Call} (hn : n ∈ calls) : ¬ n.About v t :=
  Call.not_about (h.busy n hn) fun hm => h.waits hm n hn

/-- The thread has no call to itself, and it does not wait unless it is
scheduled. -/
theorem Quiet.of_idle (hbusy : ∀ n ∈ v.calls, n.busy t = false)
    (hwaits : v.mode t.1 = .nonSchedCpu → ∀ n ∈ v.calls, n.waits t = false) :
    Quiet v t v.calls :=
  ⟨fun _ hn => hn, fun _ _ _ hfnd => hfnd, fun _ => le_rfl, hbusy, hwaits⟩

/-- The calls beside one that has the thread to itself. -/
theorem ThreadInv.quiet (h : ThreadInv cfg v) (hc : c ∈ v.calls) (hbusy : c.busy t = true)
    (hwaits : v.mode t.1 = .nonSchedCpu → c.waits t = true)
    (hfound : ∀ cpu owner u, c ≠ .found cpu owner u) : Quiet v t (v.calls.erase c) where
  mem _ hn := List.mem_of_mem_erase hn
  found cpu owner u hfnd := (List.mem_erase_of_ne (hfound cpu owner u).symm).mpr hfnd
  count p := by
    have := AtMostOne.countP_erase (p := p) hc
    omega
  busy _ hn := AtMostOne.other (h.busy t) hc hbusy hn
  waits hm _ hn := AtMostOne.other (h.waits t hm) hc (hwaits hm) hn

/-- A thread that is not scheduled and does not run its wait is in no wait. -/
theorem ThreadInv.not_waits (h : ThreadInv cfg v) (hmode : v.mode t.1 = .nonSchedCpu)
    (hwait : v.wait t = false) {n : Call} (hn : n ∈ v.calls) : n.waits t = false := by
  by_contra hw
  have hok := h.call n hn
  cases n <;> simp only [Call.waits, decide_eq_false_iff_not, not_not,
    not_true_eq_false] at hw
  · next u why o' =>
      cases why with
      | wait =>
          simp only [decide_eq_false_iff_not, not_not] at hw
          subst hw
          have := hok.2.2.1 hmode
          simp [hwait] at this
      | timeout | exit => simp at hw
  · subst hw
    have := (hok.2.2 hmode).2
    simp [hwait] at this
  · subst hw
    have := (hok.2 hmode).2
    simp [hwait] at this
  · subst hw
    have hsched : v.mode _ = .schedCpu := hok.2
    rw [hmode] at hsched
    cases hsched

/-- The thread and the call that has it change together. -/
theorem ThreadInv.changeQuiet (h : ThreadInv cfg v) (next : Option Call) (status : ThreadStatus)
    (wait : Bool) (slot : Option ℕ) (hquiet : Quiet v t calls)
    (hnext : ∀ n ∈ next, (∀ u ≠ t, n.busy u = false ∧ n.waits u = false) ∧
      ∀ c, n.selects c = false)
    (hok : ∀ n ∈ next, CallOk cfg { v with
      status := Function.update v.status t status
      wait := Function.update v.wait t wait
      slot := Function.update v.slot t slot } n)
    (hvalid : v.valid t = true)
    (hactive : v.mode t.1 = .schedCpu → status ≠ .idle → v.cur (v.bind t) = some t)
    (hslot : slot ≠ none →
      (v.mode t.1 = .schedCpu → v.cur (v.bind t) = some t ∨
        ∃ owner, .found (v.bind t) owner t ∈ v.calls) ∧
      (v.mode t.1 ≠ .schedCpu → status = .run)) :
    ThreadInv cfg { v with
      status := Function.update v.status t status
      wait := Function.update v.wait t wait
      slot := Function.update v.slot t slot
      calls := next.toList ++ calls } := by
  have hone {p : Call → Bool} : next.toList.countP p ≤ 1 :=
    List.countP_le_length.trans Option.length_toList_le
  have hnone {p : Call → Bool} (hp : ∀ n ∈ next, p n = false) : next.toList.countP p = 0 :=
    List.countP_eq_zero.mpr fun n hn => by simp [hp n (Option.mem_toList.mp hn)]
  have hzero {p : Call → Bool} (hp : ∀ n ∈ calls, p n = false) : calls.countP p = 0 :=
    List.countP_eq_zero.mpr fun n hn => by simp [hp n hn]
  refine h.change t rfl rfl rfl
    (fun u hu => ⟨Function.update_of_ne hu _ _, Function.update_of_ne hu _ _,
      Function.update_of_ne hu _ _⟩)
    (fun _ => Or.inl rfl) (fun n hn => ?_)
    (fun u _ c owner hfnd => Or.inl (List.mem_append_right _ (hquiet.found c owner u hfnd)))
    (fun u => ?_) (fun c => ?_) (fun u hu => ?_) hvalid (fun hs hne => ?_) fun hsome => ?_
  · rcases List.mem_append.mp hn with hn | hn
    · exact Or.inl ((hok n (Option.mem_toList.mp hn)).setCalls _)
    · exact Or.inr ⟨hquiet.mem n hn, hquiet.not_about hn, fun _ _ => rfl⟩
  · rw [List.countP_append]
    rcases eq_or_ne u t with rfl | hne
    · rw [hzero hquiet.busy]
      exact hone
    · rw [hnone fun n hn => ((hnext n hn).1 u hne).1]
      have := hquiet.count (Call.busy u)
      have := h.busy u
      omega
  · rw [List.countP_append, hnone fun n hn => (hnext n hn).2 c]
    have := hquiet.count (Call.selects c)
    have := h.selects c
    omega
  · rw [List.countP_append]
    rcases eq_or_ne u t with rfl | hne
    · rw [hzero (hquiet.waits hu)]
      exact hone
    · rw [hnone fun n hn => ((hnext n hn).1 u hne).2]
      have := hquiet.count (Call.waits u)
      have := h.waits u hu
      omega
  · simp only [Function.update_self] at hne
    exact hactive hs hne
  · simp only [Function.update_self] at hsome ⊢
    obtain ⟨hsched, hnon⟩ := hslot hsome
    exact ⟨hvalid, fun hs => (hsched hs).imp_right fun ⟨owner, hfnd⟩ =>
      ⟨owner, List.mem_append_right _ (hquiet.found _ _ _ hfnd)⟩, hnon⟩

/-! ## Finishing -/

/-- The event of a running thread is about to be finished. -/
theorem ThreadInv.finishBegin (h : ThreadInv cfg v) {why : Finish} (hquiet : Quiet v t v.calls)
    (hvalid : v.valid t = true) (hslot : v.slot t = some o)
    (hwait : v.mode t.1 = .nonSchedCpu → v.wait t = true)
    (hwhy : match why with
      | .wait _ => v.status t = .run
      | .timeout c _ | .exit c => v.cur c = some t) :
    ThreadInv cfg { v with calls := .finish t why o :: v.calls } := by
  refine h.setCalls (fun n hn => ?_) (fun c owner u hfnd => List.mem_cons_of_mem _ hfnd)
    (fun u => ?_) (fun c => ?_) (fun u hu => ?_)
  · rcases List.mem_cons.mp hn with rfl | hn
    · exact ⟨hvalid, hslot, hwait, hwhy⟩
    · exact h.call n hn
  · rcases eq_or_ne t u with rfl | hne
    · exact AtMostOne.insert hquiet.busy
    · rw [List.countP_cons_of_neg (by simp [Call.busy, Call.locks, Call.isExact, hne])]
      exact h.busy u
  · rw [List.countP_cons_of_neg (by simp [Call.selects])]
    exact h.selects c
  · rcases eq_or_ne t u with rfl | hne
    · exact AtMostOne.insert (hquiet.waits hu)
    · rw [List.countP_cons_of_neg]
      · exact h.waits u hu
      · cases why <;> simp [Call.waits, hne]

/-- The thread stops and leaves its cpu, without an event. -/
theorem ThreadInv.stop (h : ThreadInv cfg v) (hquiet : Quiet v t calls)
    (hcur : v.cur cpu = some t) :
    ThreadInv cfg { v with
      status := Function.update v.status t .idle
      slot := Function.update v.slot t none
      cur := Function.update v.cur cpu none
      calls } := by
  obtain ⟨-, hb⟩ := h.cur cpu t hcur
  refine h.change t rfl rfl rfl
    (fun u hu => ⟨Function.update_of_ne hu _ _, rfl, Function.update_of_ne hu _ _⟩)
    (fun c => ?_) (fun n hn => Or.inr ⟨hquiet.mem n hn, hquiet.not_about hn, fun c hon => ?_⟩)
    (fun u _ c owner hfnd => Or.inl (hquiet.found c owner u hfnd))
    (fun u => (hquiet.count _).trans (h.busy u)) (fun c => (hquiet.count _).trans (h.selects c))
    (fun u hu => (hquiet.count _).trans (h.waits u hu)) hb.valid
    (fun _ hne => absurd (Function.update_self _ _ _) hne)
    fun hsome => absurd (Function.update_self _ _ _) hsome
  · rcases eq_or_ne c cpu with rfl | hne
    · refine Or.inr ⟨fun u hu => ?_, fun u hu => ?_⟩
      · rw [hcur] at hu
        exact (Option.some.inj hu).symm
      · simp only [Function.update_self, reduceCtorEq] at hu
    · exact Or.inl (Function.update_of_ne hne _ _)
  · refine Function.update_of_ne ?_ _ _
    rintro rfl
    have hbusy := hquiet.busy n hn
    rw [h.busy_of_onCpu (hquiet.mem n hn) hon hcur] at hbusy
    cases hbusy

/-! ## The wait -/

/-- The wait goes on: the last event is finished, or there is none to be
finished. -/
theorem ThreadInv.enter (h : ThreadInv cfg v) {slot : Option ℕ} (hquiet : Quiet v t calls)
    (hvalid : v.valid t = true) (hwait : v.mode t.1 = .nonSchedCpu → v.wait t = true)
    (hslot : slot = none ∨ slot = v.slot t ∧ v.status t ≠ .run) (cpu : ℕ) :
    ThreadInv cfg { v with
      status := Function.update v.status t
        (if v.mode t.1 = .nonSchedCpu ∧ v.status t = .run then .idle else v.status t)
      slot := Function.update v.slot t slot
      calls := [.entered t cpu] ++ calls } := by
  have hself : Function.update v.wait t (v.wait t) = v.wait := Function.update_eq_self t v.wait
  have hchange := h.changeQuiet (some (.entered t cpu))
    (if v.mode t.1 = .nonSchedCpu ∧ v.status t = .run then .idle else v.status t) (v.wait t) slot
    hquiet (fun n hn => ?_) (fun n hn => ?_) hvalid (fun hs hne => ?_) fun hsome => ?_
  · rwa [hself] at hchange
  · obtain rfl := Option.mem_some_iff.mp hn
    refine ⟨fun u hu => ?_, fun c => rfl⟩
    simp [Call.busy, Call.locks, Call.isExact, Call.waits, hu.symm]
  · obtain rfl := Option.mem_some_iff.mp hn
    simp only [CallOk, Function.update_self]
    refine ⟨hvalid, fun hs hrun => ?_, fun hm => ⟨?_, hwait hm⟩⟩
    · rcases hslot with rfl | ⟨rfl, hstatus⟩
      · rfl
      · rw [if_neg fun hm => hstatus hm.2] at hrun
        exact absurd hrun hstatus
    · split
      · simp
      · next hnot => exact fun hrun => hnot ⟨hm, hrun⟩
  · rw [if_neg (by simp [hs])] at hne
    exact h.active t hs hne
  · rcases hslot with rfl | ⟨rfl, hstatus⟩
    · exact absurd rfl hsome
    · obtain ⟨-, hsched, hnon⟩ := h.slot t hsome
      exact ⟨hsched, fun hm => absurd (hnon hm) hstatus⟩

/-- A thread that is not scheduled takes an event. -/
theorem ThreadInv.takeNonSched (h : ThreadInv cfg v) (hc : .entered t cpu ∈ v.calls)
    (hmode : v.mode t.1 = .nonSchedCpu) (o : ℕ) :
    v.slot t = none ∧ ThreadInv cfg { v with
      status := Function.update v.status t .run
      wait := Function.update v.wait t false
      slot := Function.update v.slot t (some o)
      calls := [] ++ v.calls.erase (.entered t cpu) } := by
  obtain ⟨hvalid, -, hnon⟩ := h.call _ hc
  have hsched : v.mode t.1 ≠ .schedCpu := by simp [hmode]
  refine ⟨?_, h.changeQuiet none .run false (some o) ?_ (fun n hn => nomatch hn)
    (fun n hn => nomatch hn) hvalid (fun hs => absurd hs hsched)
    fun _ => ⟨fun hs => absurd hs hsched, fun _ => rfl⟩⟩
  · by_contra hsome
    exact (hnon hmode).1 ((h.slot t hsome).2.2 hsched)
  · exact h.quiet hc (by simp [Call.busy, Call.locks]) (fun _ => by simp [Call.waits]) (by simp)

/-- A thread goes to sleep; one that is not scheduled may be made idle first. -/
theorem ThreadInv.sleep (h : ThreadInv cfg v) (hc : .entered t cpu ∈ v.calls) (reset : Bool)
    (hreset : reset = true → v.mode t.1 = .nonSchedCpu) :
    ThreadInv cfg { v with
      status := Function.update v.status t (if reset = true then .idle else v.status t)
      calls := [.sleeping t cpu] ++ v.calls.erase (.entered t cpu) } := by
  obtain ⟨hvalid, -, hnon⟩ := h.call _ hc
  have hwait : Function.update v.wait t (v.wait t) = v.wait := Function.update_eq_self t v.wait
  have hslot : Function.update v.slot t (v.slot t) = v.slot := Function.update_eq_self t v.slot
  have hchange := h.changeQuiet (some (.sleeping t cpu)) (if reset = true then .idle else v.status t)
    (v.wait t) (v.slot t) (h.quiet hc (by simp [Call.busy, Call.locks])
      (fun _ => by simp [Call.waits]) (by simp))
    (fun n hn => ?_) (fun n hn => ?_) hvalid (fun hs hne => ?_) fun hsome => ?_
  · rwa [hwait, hslot] at hchange
  · obtain rfl := Option.mem_some_iff.mp hn
    refine ⟨fun u hu => ?_, fun c => rfl⟩
    simp [Call.busy, Call.locks, Call.isExact, Call.waits, hu.symm]
  · obtain rfl := Option.mem_some_iff.mp hn
    simp only [CallOk, Function.update_self]
    refine ⟨hvalid, fun hm => ⟨?_, (hnon hm).2⟩⟩
    split
    · simp
    · exact (hnon hm).1
  · split at hne
    · exact absurd rfl hne
    · exact h.active t hs hne
  · obtain ⟨-, hsched, hrun⟩ := h.slot t hsome
    refine ⟨hsched, fun hm => ?_⟩
    rw [if_neg fun hr => ?_]
    · exact hrun hm
    · have hm' := hreset hr
      exact (hnon hm').1 (hrun hm)

/-- The wait ends where it stands. -/
theorem ThreadInv.quit (h : ThreadInv cfg v) (hc : .entered t cpu ∈ v.calls) :
    ThreadInv cfg { v with
      wait := Function.update v.wait t false
      calls := [] ++ v.calls.erase (.entered t cpu) } := by
  obtain ⟨hvalid, -, hnon⟩ := h.call _ hc
  have hstatus : Function.update v.status t (v.status t) = v.status :=
    Function.update_eq_self t v.status
  have hslot : Function.update v.slot t (v.slot t) = v.slot := Function.update_eq_self t v.slot
  have hchange := h.changeQuiet none (v.status t) false (v.slot t)
    (h.quiet hc (by simp [Call.busy, Call.locks]) (fun _ => by simp [Call.waits]) (by simp))
    (fun n hn => nomatch hn) (fun n hn => nomatch hn) hvalid (h.active t)
    (fun hsome => (h.slot t hsome).2)
  rwa [hstatus, hslot] at hchange

/-- A thread that sleeps without a cpu has no other call on it. -/
theorem ThreadInv.quiet_sleeping (h : ThreadInv cfg v) (hc : .sleeping t cpu ∈ v.calls)
    (hmode : v.mode t.1 = .nonSchedCpu) (hfree : ∀ n ∈ v.calls, n.locks t = false) :
    Quiet v t (v.calls.erase (.sleeping t cpu)) where
  mem _ hn := List.mem_of_mem_erase hn
  found _ _ _ hfnd := (List.mem_erase_of_ne (by simp)).mpr hfnd
  count p := by
    have := AtMostOne.countP_erase (p := p) hc
    omega
  busy n hn := by
    have hmem := List.mem_of_mem_erase hn
    have hok := h.call n hmem
    have hexact : n.isExact t = false := by
      cases n with
      | exact u o old =>
          by_contra hu
          simp only [Call.isExact, decide_eq_false_iff_not, not_not] at hu
          subst hu
          exact ((h.call _ hc).2 hmode).1 hok.2.2
      | _ => rfl
    simp [Call.busy, hfree n hmem, hexact]
  waits _ n hn := AtMostOne.other (h.waits t hmode) hc (by simp [Call.waits]) hn

/-- A thread without a cpu searches again. -/
theorem ThreadInv.resume (h : ThreadInv cfg v) (hc : .sleeping t cpu ∈ v.calls)
    (hmode : v.mode t.1 = .nonSchedCpu) (hfree : ∀ n ∈ v.calls, n.locks t = false) :
    ThreadInv cfg { v with calls := [.entered t cpu] ++ v.calls.erase (.sleeping t cpu) } := by
  obtain ⟨hvalid, hnon⟩ := h.call _ hc
  have hrun : ¬ (v.mode t.1 = .nonSchedCpu ∧ v.status t = .run) := fun hm => (hnon hmode).1 hm.2
  have hstatus : Function.update v.status t (v.status t) = v.status :=
    Function.update_eq_self t v.status
  have hslot : Function.update v.slot t (v.slot t) = v.slot := Function.update_eq_self t v.slot
  have henter := h.enter (h.quiet_sleeping hc hmode hfree) hvalid (fun _ => (hnon hmode).2)
    (Or.inr ⟨rfl, (hnon hmode).1⟩) cpu
  rwa [if_neg hrun, hstatus, hslot] at henter

/-- The flag of a scheduled thread that waits says nothing about its calls. -/
theorem ThreadInv.setWait (h : ThreadInv cfg v) (hvalid : v.valid t = true)
    (hmode : v.mode t.1 = .schedCpu) (wait : Bool) :
    ThreadInv cfg { v with wait := Function.update v.wait t wait } := by
  refine h.change t rfl rfl rfl (fun u hu => ⟨rfl, Function.update_of_ne hu _ _, rfl⟩)
    (fun _ => Or.inl rfl) (fun n hn => ?_) (fun u _ c owner hfnd => Or.inl hfnd) h.busy h.selects
    h.waits hvalid (h.active t) (h.slot t)
  have hnot (hm : v.mode t.1 = .nonSchedCpu) : False := by
    rw [hmode] at hm
    cases hm
  by_cases habout : n.About v t
  · left
    have hok := h.call n hn
    cases n with
    | finish u why o' =>
        cases habout
        exact ⟨hok.1, hok.2.1, fun hm => (hnot hm).elim, hok.2.2.2⟩
    | entered u c' =>
        cases habout
        exact ⟨hok.1, hok.2.1, fun hm => (hnot hm).elim⟩
    | sleeping u c' => exact (hnot habout.2).elim
    | found c' owner u =>
        obtain ⟨hc, howner, hslot, hb⟩ := hok
        exact ⟨hc, howner, hslot, hb.mode, hb.valid, hb.bind⟩
    | _ => exact hok
  · exact Or.inr ⟨hn, habout, fun _ _ => rfl⟩

/-- A thread that sleeps gives up. -/
theorem ThreadInv.waitFail (h : ThreadInv cfg v) (hc : .sleeping t cpu ∈ v.calls)
    (hinit : v.mode t.1 ≠ .uninit) (hfree : ∀ n ∈ v.calls, n.locks t = false) :
    ThreadInv cfg { v with
      wait := Function.update v.wait t false
      calls := [] ++ v.calls.erase (.sleeping t cpu) } := by
  obtain ⟨hvalid, hnon⟩ := h.call _ hc
  cases hmode : v.mode t.1 with
  | uninit => exact absurd hmode hinit
  | schedCpu => exact (h.finishCall hc (by simp)).setWait hvalid hmode false
  | nonSchedCpu =>
      have hstatus : Function.update v.status t (v.status t) = v.status :=
        Function.update_eq_self t v.status
      have hslot : Function.update v.slot t (v.slot t) = v.slot := Function.update_eq_self t v.slot
      have hchange := h.changeQuiet none (v.status t) false (v.slot t)
        (h.quiet_sleeping hc hmode hfree) (fun n hn => nomatch hn) (fun n hn => nomatch hn) hvalid
        (h.active t) (fun hsome => (h.slot t hsome).2)
      rwa [hstatus, hslot] at hchange

/-- A thread that was woken runs its event. -/
theorem ThreadInv.wake (h : ThreadInv cfg v) (hc : .woken t cpu ∈ v.calls)
    (hslot : v.slot t ≠ none) (hcur : v.cur (v.bind t) = some t)
    (hfree : ∀ n ∈ v.calls, n.locks t = false) :
    ThreadInv cfg { v with
      status := Function.update v.status t .run
      wait := Function.update v.wait t false
      calls := [] ++ v.calls.erase (.woken t cpu) } := by
  obtain ⟨hvalid, hmode⟩ := h.call _ hc
  have hset := (h.finishCall hc (by simp)).setWait hvalid hmode false
  refine hset.change t rfl rfl rfl (fun u hu => ⟨Function.update_of_ne hu _ _, rfl, rfl⟩)
    (fun _ => Or.inl rfl) (fun n hn => ?_) (fun u _ c owner hfnd => Or.inl hfnd) hset.busy
    hset.selects hset.waits hvalid (fun _ _ => hcur) fun _ => ?_
  · by_cases habout : n.About v t
    · have hlocks := hfree n (List.mem_of_mem_erase hn)
      have hok := hset.call n hn
      cases n with
      | publish | alloced | checked | refused | adding | added | failed | woken =>
          exact habout.elim
      | search c' owner => simp [Call.locks, show owner = some t from habout] at hlocks
      | took c' owner o' => simp [Call.locks, show owner = some t from habout] at hlocks
      | found c' owner u => simp [Call.locks, show owner = some t from habout] at hlocks
      | finish u why o' => simp [Call.locks, show u = t from habout] at hlocks
      | entered u c' => simp [Call.locks, show u = t from habout] at hlocks
      | sleeping u c' =>
          have hm := habout.2
          rw [show v.mode t.1 = .schedCpu from hmode] at hm
          cases hm
      | exact u o' old =>
          cases habout
          exact Or.inl ⟨hok.1, hok.2.1, Function.update_self _ _ _⟩
    · exact Or.inr ⟨hn, habout, fun _ _ => rfl⟩
  · exact ⟨hvalid, (hset.slot t hslot).2.1, fun hm => absurd hmode hm⟩

/-- A thread that was woken and has no event stops. -/
theorem ThreadInv.wakeStop (h : ThreadInv cfg v) (hc : .woken t cpu ∈ v.calls)
    (hslot : v.slot t = none) (hcur : ∀ u ∈ v.cur cpu, u = t)
    (hfree : ∀ n ∈ v.calls, n.locks t = false) :
    ThreadInv cfg { v with
      status := Function.update v.status t .idle
      wait := Function.update v.wait t false
      cur := Function.update v.cur cpu none
      calls := [] ++ v.calls.erase (.woken t cpu) } := by
  obtain ⟨hvalid, hmode⟩ := h.call _ hc
  have hset := (h.finishCall hc (by simp)).setWait hvalid hmode false
  have hbusy (n : Call) (hn : n ∈ v.calls) : n.busy t = false := by
    have hok := h.call n hn
    have hexact : n.isExact t = false := by
      cases n with
      | exact u o' old =>
          by_contra hu
          simp only [Call.isExact, decide_eq_false_iff_not, not_not] at hu
          subst hu
          have hsome : v.slot _ = some old := hok.2.1
          rw [hslot] at hsome
          cases hsome
      | _ => rfl
    simp [Call.busy, hfree n hn, hexact]
  have hself : Function.update v.slot t none = v.slot := hslot ▸ Function.update_eq_self t v.slot
  have hquiet : Quiet { v with
      wait := Function.update v.wait t false
      calls := [] ++ v.calls.erase (.woken t cpu) } t ([] ++ v.calls.erase (.woken t cpu)) :=
    Quiet.of_idle (fun n hn => hbusy n (List.mem_of_mem_erase hn)) fun hm => by
      rw [show v.mode t.1 = .schedCpu from hmode] at hm
      cases hm
  cases hc' : v.cur cpu with
  | some u =>
      obtain rfl := hcur u hc'
      have hstop := hset.stop hquiet hc'
      rwa [hself] at hstop
  | none =>
      have hnone : Function.update v.cur cpu none = v.cur :=
        hc' ▸ Function.update_eq_self cpu v.cur
      have hwait : Function.update (Function.update v.wait t false) t false =
          Function.update v.wait t false := Function.update_idem _ _ _
      have hchange := hset.changeQuiet none .idle false none hquiet (by simp) (by simp) hvalid
        (fun _ hne => absurd rfl hne) fun hsome => absurd rfl hsome
      rw [hnone]
      simpa only [hself, hwait, Option.toList_none, List.nil_append] using hchange

/-! ## Exact events and the end of a process -/

/-- A running thread fetches an event. -/
theorem ThreadInv.exactBegin (h : ThreadInv cfg v) {old : ℕ} (hvalid : v.valid t = true)
    (hslot : v.slot t = some old) (hrun : v.status t = .run)
    (hbusy : ∀ n ∈ v.calls, n.busy t = false) :
    ThreadInv cfg { v with calls := .exact t o old :: v.calls } := by
  refine h.setCalls (fun n hn => ?_) (fun c owner u hfnd => List.mem_cons_of_mem _ hfnd)
    (fun u => ?_) (fun c => ?_) (fun u hu => ?_)
  · rcases List.mem_cons.mp hn with rfl | hn
    · exact ⟨hvalid, hslot, hrun⟩
    · exact h.call n hn
  · rcases eq_or_ne t u with rfl | hne
    · exact AtMostOne.insert hbusy
    · rw [List.countP_cons_of_neg (by simp [Call.busy, Call.locks, Call.isExact, hne])]
      exact h.busy u
  · rw [List.countP_cons_of_neg (by simp [Call.selects])]
    exact h.selects c
  · rw [List.countP_cons_of_neg (by simp [Call.waits])]
    exact h.waits u hu

/-- The other calls leave a thread alone that fetches an event. -/
theorem ThreadInv.quiet_exact (h : ThreadInv cfg v) {old : ℕ} (hc : .exact t o old ∈ v.calls) :
    Quiet v t (v.calls.erase (.exact t o old)) where
  mem _ hn := List.mem_of_mem_erase hn
  found _ _ _ hfnd := (List.mem_erase_of_ne (by simp)).mpr hfnd
  count p := by
    have := AtMostOne.countP_erase (p := p) hc
    omega
  busy _ hn := AtMostOne.other (h.busy t) hc (by simp [Call.busy, Call.isExact]) hn
  waits hmode n hn := by
    have hbusy := AtMostOne.other (h.busy t) hc (by simp [Call.busy, Call.isExact]) hn
    have hok := h.call n (List.mem_of_mem_erase hn)
    cases n with
    | finish u why o' =>
        have hne : u ≠ t := by simpa [Call.busy, Call.locks, Call.isExact] using hbusy
        cases why <;> simp [Call.waits, hne]
    | entered u c' => simpa [Call.busy, Call.locks, Call.isExact, Call.waits] using hbusy
    | sleeping u c' =>
        by_contra hu
        simp only [Call.waits, decide_eq_false_iff_not, not_not] at hu
        subst hu
        exact (hok.2 hmode).1 (h.call _ hc).2.2
    | woken u c' =>
        by_contra hu
        simp only [Call.waits, decide_eq_false_iff_not, not_not] at hu
        subst hu
        have hsched : v.mode _ = .schedCpu := hok.2
        rw [hmode] at hsched
        cases hsched
    | _ => rfl

/-- The event that was fetched takes the place of the old one. -/
theorem ThreadInv.exactEnd (h : ThreadInv cfg v) {old : ℕ} (hc : .exact t o old ∈ v.calls) :
    ThreadInv cfg { v with
      slot := Function.update v.slot t (some o)
      calls := [] ++ v.calls.erase (.exact t o old) } := by
  obtain ⟨hvalid, hslot, hrun⟩ := h.call _ hc
  have hstatus : Function.update v.status t (v.status t) = v.status :=
    Function.update_eq_self t v.status
  have hwait : Function.update v.wait t (v.wait t) = v.wait := Function.update_eq_self t v.wait
  have hchange := h.changeQuiet none (v.status t) (v.wait t) (some o) (h.quiet_exact hc)
    (fun n hn => nomatch hn) (fun n hn => nomatch hn) hvalid (h.active t)
    (fun _ => (h.slot t (by simp [hslot])).2)
  rwa [hstatus, hwait] at hchange

/-- A thread of a deleted process that nobody refers to is stopped. -/
theorem ThreadInv.clear (h : ThreadInv cfg v) (hvalid : v.valid t = true)
    (hfree : ∀ n ∈ v.calls, n.holdsProc t.1.1 = false) :
    ThreadInv cfg { v with
      status := Function.update v.status t .idle
      slot := Function.update v.slot t none } := by
  have hquiet : Quiet v t v.calls := by
    refine Quiet.of_idle (fun n hn => ?_) fun _ n hn => ?_
    · have hnot := hfree n hn
      cases n <;> simp_all [Call.busy, Call.locks, Call.isExact, Call.holdsProc] <;> grind
    · have hnot := hfree n hn
      cases n <;> simp_all [Call.waits, Call.holdsProc] <;> grind
  have hwait : Function.update v.wait t (v.wait t) = v.wait := Function.update_eq_self t v.wait
  have hchange := h.changeQuiet none .idle (v.wait t) none hquiet (by simp) (by simp) hvalid
    (fun _ hne => absurd rfl hne) fun hsome => absurd rfl hsome
  rwa [hwait] at hchange

end OpiaiKernel.Esched
