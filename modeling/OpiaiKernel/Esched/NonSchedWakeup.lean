import OpiaiKernel.Esched.NonSchedWait

/-!
# Wakeups in a group that is not scheduled

An event that an idle thread has passed in its search is noticed by somebody else: by its
publisher, which has not come to the thread in the map, or by a thread that will search
the list.  The publisher looks at the status of a thread only, and an idle thread need not
wait; and a thread that was woken for one event may take another one.
-/

namespace OpiaiKernel.Esched

/-! ## Who is on the way to an event -/

/-- The thread has searched the list `pri` since it is idle. -/
def WaitPoint.passed (pri : ℕ) : WaitPoint → Bool
  | .search r => decide (pri < r)
  | .asleep => true
  | _ => false

/-- A thread with this status searches the list `pri` before it sleeps idle or leaves, unless
it takes an event before. -/
def WaitPoint.willSearch (pri : ℕ) (status : ThreadStatus) : WaitPoint → Bool
  | .entered | .idling | .woken _ | .again => true
  | .search r => decide (r ≤ pri) || status == .ready
  | .asleep => status == .ready
  | .late r => decide (r ≤ pri)
  | .out | .took _ => false

/-- The publisher may still wake the thread. -/
def NonSchedPublish.onWay (grp : SchedGrpCtx) (p : NonSchedPublish) (tid : ℕ) : Bool :=
  match p.point with
  | .adding => false
  | .walk i => decide (tid ∈ (schedGetEventThreadMap grp p.event).drop i)
  | .wake _ => true

def threadHandles (grp : SchedGrpCtx) (tid : ℕ) (event : SchedEvent) : Bool :=
  schedThreadCanHandleEvent (grp.threadCtx tid) event

section Way

variable (grp : SchedGrpCtx)

/-- The thread is idle and has passed the event. -/
def Missed (s : NonSchedState) (tid pri : ℕ) (event : SchedEvent) : Prop :=
  s.status tid = .idle ∧ (s.point tid).passed pri = true ∧ threadHandles grp tid event = true

instance decidableMissed (s : NonSchedState) (tid pri : ℕ) (event : SchedEvent) :
    Decidable (Missed grp s tid pri event) :=
  inferInstanceAs (Decidable (_ ∧ _))

/-- Somebody else than the thread `skip` is on the way to the event: one of the publishers,
which may wake `tid`, or a thread that searches its list. -/
def Helped (s : NonSchedState) (publishes : List NonSchedPublish) (skip : Option ℕ)
    (tid pri : ℕ) (event : SchedEvent) : Prop :=
  (∃ p ∈ publishes, p.event = event ∧ p.pri = pri ∧ p.onWay grp tid = true) ∨
    ∃ t ∈ grp.thread, some t ≠ skip ∧ threadHandles grp t event = true ∧
      (s.point t).willSearch pri (s.status t) = true

instance decidableHelped (s : NonSchedState) (publishes : List NonSchedPublish)
    (skip : Option ℕ) (tid pri : ℕ) (event : SchedEvent) :
    Decidable (Helped grp s publishes skip tid pri event) :=
  inferInstanceAs (Decidable (_ ∨ _))

/-- Nobody waits in vain when all calls have come to rest. -/
def NoLostWakeup (s : NonSchedState) : Prop :=
  s.publishes = [] →
    (∀ tid ∈ grp.thread,
      s.point tid = .out ∨ (s.point tid = .asleep ∧ s.status tid ≠ .ready)) →
    ∀ tid ∈ grp.thread, s.point tid = .asleep → s.status tid = .idle →
      ∀ pri < SCHED_MAX_EVENT_PRI_NUM, ∀ event ∈ (s.list pri).head,
        threadHandles grp tid event = false

/-- The publisher wakes a thread that searches the list of its event, or somebody else is on
the way to the event. -/
def WakeOk (s : NonSchedState) (p : NonSchedPublish) (woken : ℕ) : Prop :=
  (s.status woken = .idle ∧ (s.point woken).willSearch p.pri .ready = true) ∨
    (p.event ∈ (s.list p.pri).head → ∀ tid ∈ grp.thread, Missed grp s tid p.pri p.event →
      Helped grp s (s.publishes.erase p) none tid p.pri p.event)

instance decidableWakeOk (s : NonSchedState) (p : NonSchedPublish)
    (woken : ℕ) : Decidable (WakeOk grp s p woken) :=
  inferInstanceAs (Decidable (_ ∨ (_ → ∀ tid ∈ grp.thread, _ → _)))

/-- The thread takes an event of the list `pri` and leaves `l`, and somebody else is on the
way to every event that a thread has missed. -/
def TakeOk (s : NonSchedState) (taker pri : ℕ) (l : SchedEventList SchedEvent) : Prop :=
  ∀ tid ∈ grp.thread, tid ≠ taker → ∀ q < SCHED_MAX_EVENT_PRI_NUM,
    ∀ event ∈ ((s.setList pri l).list q).head, Missed grp s tid q event →
      Helped grp s s.publishes (some taker) tid q event

instance decidableTakeOk (s : NonSchedState) (taker pri : ℕ)
    (l : SchedEventList SchedEvent) : Decidable (TakeOk grp s taker pri l) :=
  inferInstanceAs (Decidable (∀ tid ∈ grp.thread, _ → ∀ q < SCHED_MAX_EVENT_PRI_NUM, _))

def WaitPoint.searched : WaitPoint → Option ℕ
  | .search pri | .woken pri | .late pri => some pri
  | _ => none

def PublishPoint.woken : PublishPoint → Option ℕ
  | .wake tid => some tid
  | _ => none

/-- The last one on the way to an event that a thread has missed does not drop it. -/
def nonSchedOk (s : NonSchedState) : NonSchedAct → Prop
  | .thread tid => ∀ pri ∈ (s.point tid).searched, pri < SCHED_MAX_EVENT_PRI_NUM →
      ∀ x ∈ schedSearchNonSchedEvent grp (s.list pri) tid, TakeOk grp s tid pri x.2
  | .publisher p => ∀ tid ∈ p.point.woken, WakeOk grp s p tid
  | _ => True

instance decidableNonSchedOk (s : NonSchedState) :
    ∀ act, Decidable (nonSchedOk grp s act)
  | .thread tid => inferInstanceAs (Decidable (∀ pri ∈ (s.point tid).searched,
      pri < SCHED_MAX_EVENT_PRI_NUM →
        ∀ x ∈ schedSearchNonSchedEvent grp (s.list pri) tid, TakeOk grp s tid pri x.2))
  | .publisher p => inferInstanceAs (Decidable (∀ tid ∈ p.point.woken, WakeOk grp s p tid))
  | .wait .. | .timeout .. | .publish .. => inferInstanceAs (Decidable True)

end Way

variable {grp : SchedGrpCtx} {s s' : NonSchedState} {tid pri : ℕ} {event : SchedEvent}

theorem mem_map_of_handles (hgrp : grpMachine.Reach grp) (htid : tid ∈ grp.thread)
    (hcan : threadHandles grp tid event = true) : tid ∈ schedGetEventThreadMap grp event := by
  have hmap := grpMapInv_of_reach hgrp
  have hreg := (hmap.thread_iff tid).mp htid
  rw [threadHandles, schedThreadCanHandleEvent, Bool.and_eq_true] at hcan
  obtain ⟨hsub, hcan⟩ := hcan
  unfold schedGetEventThreadMap
  cases hnames : event.eventThreadMap with
  | none => exact (hmap.map_iff event.eventId tid).mpr ⟨hreg, hsub⟩
  | some map =>
      rw [hnames, tid_of_reach hgrp hreg] at hcan
      exact List.contains_iff_mem.mp hcan

/-- An event that passed the checks names threads that may handle it. -/
theorem handles_of_mem_map (hgrp : grpMachine.Reach grp)
    (hadmitted : schedGrpCanHandleEvent grp event = true)
    (hmem : tid ∈ schedGetEventThreadMap grp event) :
    tid ∈ grp.thread ∧ threadHandles grp tid event = true := by
  have hmap := grpMapInv_of_reach hgrp
  rw [schedGrpCanHandleEvent, Bool.and_eq_true] at hadmitted
  have hall := hadmitted.2
  have hin : tid ∈ grp.eventThreadMap event.eventId := by
    unfold schedGetEventThreadMap at hmem
    cases hnames : event.eventThreadMap with
    | none =>
        rw [hnames] at hmem
        exact hmem
    | some map =>
        rw [hnames] at hmem hall
        exact List.contains_iff_mem.mp (List.all_eq_true.mp hall tid hmem)
  obtain ⟨hreg, hsub⟩ := (hmap.map_iff event.eventId tid).mp hin
  refine ⟨(hmap.thread_iff tid).mpr hreg, ?_⟩
  rw [threadHandles, schedThreadCanHandleEvent, Bool.and_eq_true]
  refine ⟨hsub, ?_⟩
  cases hnames : event.eventThreadMap with
  | none => rfl
  | some map =>
      rw [schedGetEventThreadMap, hnames] at hmem
      rw [tid_of_reach hgrp hreg]
      exact List.contains_iff_mem.mpr hmem

theorem search_none (h : schedSearchNonSchedEvent grp (s.list pri) tid = none) :
    ∀ event ∈ (s.list pri).head, threadHandles grp tid event = false := by
  intro event hevent
  have hfind := Option.map_eq_none_iff.mp h
  exact Bool.eq_false_iff.mpr (List.find?_eq_none.mp hfind event hevent)

/-! ## The invariant -/

/-- The event of a publisher passed the checks, and the thread it is about to wake is one of
the map. -/
structure PublishOk (grp : SchedGrpCtx) (p : NonSchedPublish) : Prop where
  admitted : schedGrpCanHandleEvent grp p.event = true
  woken : ∀ tid ∈ p.point.woken, tid ∈ schedGetEventThreadMap grp p.event

/-- Somebody is on the way to every event that an idle thread has passed. -/
structure NonSchedInv (grp : SchedGrpCtx) (s : NonSchedState) : Prop where
  publishes : ∀ p ∈ s.publishes, PublishOk grp p
  helped : ∀ tid ∈ grp.thread, ∀ pri < SCHED_MAX_EVENT_PRI_NUM, ∀ event ∈ (s.list pri).head,
    Missed grp s tid pri event → Helped grp s s.publishes none tid pri event

theorem NonSchedInv.noLostWakeup (h : NonSchedInv grp s) : NoLostWakeup grp s := by
  intro hpublishes hrest tid htid hasleep hidle pri hpri event hevent
  by_contra hcan
  have hmissed : Missed grp s tid pri event :=
    ⟨hidle, by rw [hasleep]; rfl, Bool.of_not_eq_false hcan⟩
  rcases h.helped tid htid pri hpri event hevent hmissed with ⟨p, hp, -⟩ | ⟨t, ht, -, -, hsearch⟩
  · rw [hpublishes] at hp
    exact List.not_mem_nil hp
  · rcases hrest t ht with hout | ⟨hsleep, hready⟩
    · rw [hout] at hsearch
      cases hsearch
    · rw [hsleep] at hsearch
      exact hready (beq_iff_eq.mp hsearch)

/-! ## The steps of a thread -/

@[simp] theorem goTo_point_self (s : NonSchedState) (tid : ℕ) (point : WaitPoint) :
    (s.goTo tid point).point tid = point :=
  Function.update_self ..

theorem goTo_point_of_ne (s : NonSchedState) {t : ℕ} (point : WaitPoint) (ht : t ≠ tid) :
    (s.goTo tid point).point t = s.point t :=
  Function.update_of_ne ht ..

@[simp] theorem setStatus_self (s : NonSchedState) (tid : ℕ) (status : ThreadStatus) :
    (s.setStatus tid status).status tid = status :=
  Function.update_self ..

/-- Only the thread `tid` goes on. -/
structure OnlyThread (s s' : NonSchedState) (tid : ℕ) : Prop where
  list : s'.list = s.list
  publishes : s'.publishes = s.publishes
  status : ∀ t, t ≠ tid → s'.status t = s.status t
  point : ∀ t, t ≠ tid → s'.point t = s.point t

theorem onlyThread_goTo (s : NonSchedState) (tid : ℕ) (point : WaitPoint) :
    OnlyThread s (s.goTo tid point) tid :=
  ⟨rfl, rfl, fun _ _ => rfl, fun _ ht => Function.update_of_ne ht _ _⟩

theorem onlyThread_setStatus (s : NonSchedState) (tid : ℕ) (status : ThreadStatus)
    (point : WaitPoint) : OnlyThread s ((s.setStatus tid status).goTo tid point) tid :=
  ⟨rfl, rfl, fun _ ht => Function.update_of_ne ht _ _, fun _ ht => Function.update_of_ne ht _ _⟩

/-- A thread takes no event, misses none that it might handle, and searches the lists that it
would have searched. -/
theorem NonSchedInv.thread (h : NonSchedInv grp s) (hs : OnlyThread s s' tid)
    (hmissed : ∀ pri < SCHED_MAX_EVENT_PRI_NUM, ∀ event ∈ (s.list pri).head,
      Missed grp s' tid pri event → Missed grp s tid pri event)
    (hsearch : ∀ pri < SCHED_MAX_EVENT_PRI_NUM, ∀ event ∈ (s.list pri).head,
      threadHandles grp tid event = true →
        (s.point tid).willSearch pri (s.status tid) = true →
          (s'.point tid).willSearch pri (s'.status tid) = true) : NonSchedInv grp s' := by
  refine ⟨hs.publishes ▸ h.publishes, ?_⟩
  intro t ht pri hpri event hevent hm
  rw [hs.list] at hevent
  have hm : Missed grp s t pri event := by
    by_cases htid : t = tid
    · subst htid
      exact hmissed pri hpri event hevent hm
    · rwa [Missed, hs.status t htid, hs.point t htid] at hm
  rw [hs.publishes]
  rcases h.helped t ht pri hpri event hevent hm with hp | ⟨u, hu, hne, hcan, hwill⟩
  · exact .inl hp
  · refine .inr ⟨u, hu, hne, hcan, ?_⟩
    by_cases hut : u = tid
    · subst hut
      exact hsearch pri hpri event hevent hcan hwill
    · rwa [hs.status u hut, hs.point u hut]

/-- A thread goes on to a place where it has passed no list. -/
theorem NonSchedInv.move (h : NonSchedInv grp s) {point : WaitPoint} (hs : OnlyThread s s' tid)
    (hpoint : s'.point tid = point) (hpassed : ∀ pri, point.passed pri = false)
    (hsearch : ∀ pri, (s.point tid).willSearch pri (s.status tid) = true →
      point.willSearch pri (s'.status tid) = true) : NonSchedInv grp s' := by
  apply h.thread hs
  · rintro pri - event - ⟨-, hp, -⟩
    rw [hpoint, hpassed] at hp
    cases hp
  · intro pri _ event _ _ hwill
    rw [hpoint]
    exact hsearch pri hwill

/-- A thread that starts a search searches every list. -/
theorem NonSchedInv.startSearch (h : NonSchedInv grp s) (hs : OnlyThread s s' tid)
    (hpoint : s'.point tid = .search 0) : NonSchedInv grp s' := by
  apply h.move hs hpoint
  · exact fun pri => decide_eq_false (Nat.not_lt_zero pri)
  · intro pri _
    rw [WaitPoint.willSearch, Bool.or_eq_true]
    exact .inl (decide_eq_true (Nat.zero_le pri))

/-- A thread takes an event. -/
theorem NonSchedInv.take (h : NonSchedInv grp s) {l : SchedEventList SchedEvent}
    (hok : TakeOk grp s tid pri l) :
    NonSchedInv grp ((s.setList pri l).goTo tid (.took event)) := by
  refine ⟨h.publishes, ?_⟩
  intro t ht q hq e he hm
  by_cases htid : t = tid
  · subst htid
    have hpassed := hm.2.1
    rw [goTo_point_self] at hpassed
    cases hpassed
  · rw [Missed, goTo_point_of_ne _ _ htid] at hm
    rcases hok t ht htid q hq e he hm with hp | ⟨u, hu, hne, hcan, hwill⟩
    · exact .inl hp
    · have hut : u ≠ tid := fun heq => hne (congrArg some heq)
      refine .inr ⟨u, hu, Option.some_ne_none u, hcan, ?_⟩
      rw [goTo_point_of_ne _ _ hut]
      exact hwill

/-- One round of a search. -/
theorem NonSchedInv.round (h : NonSchedInv grp s) {next done : WaitPoint}
    (hok : pri < SCHED_MAX_EVENT_PRI_NUM →
      ∀ x ∈ schedSearchNonSchedEvent grp (s.list pri) tid, TakeOk grp s tid pri x.2)
    (hnext : ∀ q, q ≠ pri →
      (next.passed q = true → (s.point tid).passed q = true) ∧
        ((s.point tid).willSearch q (s.status tid) = true →
          next.willSearch q (s.status tid) = true))
    (hdone : ∀ q < pri,
      (done.passed q = true → (s.point tid).passed q = true) ∧
        ((s.point tid).willSearch q (s.status tid) = true →
          done.willSearch q (s.status tid) = true)) :
    NonSchedInv grp (searchRound grp s tid pri next done) := by
  unfold searchRound
  split
  · next hpri =>
      split
      · next hnone =>
          have hfree := search_none hnone
          have hne {q : ℕ} {e : SchedEvent} (he : e ∈ (s.list q).head)
              (hcan : threadHandles grp tid e = true) : q ≠ pri := by
            rintro rfl
            rw [hfree e he] at hcan
            cases hcan
          apply h.thread (onlyThread_goTo s tid next)
          · rintro q - e he ⟨hidle, hpassed, hcan⟩
            rw [goTo_point_self] at hpassed
            exact ⟨hidle, (hnext q (hne he hcan)).1 hpassed, hcan⟩
          · intro q _ e he hcan hwill
            rw [goTo_point_self]
            exact (hnext q (hne he hcan)).2 hwill
      · next e l hsome => exact h.take (hok hpri (e, l) hsome)
  · next hpri =>
      have hlt {q : ℕ} (hq : q < SCHED_MAX_EVENT_PRI_NUM) : q < pri :=
        hq.trans_le (Nat.le_of_not_lt hpri)
      apply h.thread (onlyThread_goTo s tid done)
      · rintro q hq e he ⟨hidle, hpassed, hcan⟩
        rw [goTo_point_self] at hpassed
        exact ⟨hidle, (hdone q (hlt hq)).1 hpassed, hcan⟩
      · intro q hq e he hcan hwill
        rw [goTo_point_self]
        exact (hdone q (hlt hq)).2 hwill

theorem NonSchedInv.wait (h : NonSchedInv grp s)
    (hok : ∀ pri ∈ (s.point tid).searched, pri < SCHED_MAX_EVENT_PRI_NUM →
      ∀ x ∈ schedSearchNonSchedEvent grp (s.list pri) tid, TakeOk grp s tid pri x.2)
    (hstep : schedWaitNonSchedEvent grp s tid = some s') : NonSchedInv grp s' := by
  unfold schedWaitNonSchedEvent at hstep
  cases hpoint : s.point tid with
  | out =>
      rw [hpoint] at hstep
      cases hstep
  | entered =>
      rw [hpoint] at hstep
      cases hstep
      split
      · exact h.move (onlyThread_goTo ..) (goTo_point_self ..) (fun _ => rfl) fun _ _ => rfl
      · exact h.startSearch (onlyThread_goTo ..) (goTo_point_self ..)
  | idling | again =>
      rw [hpoint] at hstep
      cases hstep
      exact h.startSearch (onlyThread_setStatus ..) (goTo_point_self ..)
  | search pri =>
      rw [hpoint] at hstep hok
      cases hstep
      refine h.round (hok pri rfl) (fun q hq => ?_) (fun q hq => ?_) <;> rw [hpoint] <;>
        simp only [WaitPoint.passed, WaitPoint.willSearch, decide_eq_true_eq, Bool.or_eq_true]
      · exact ⟨fun hlt => by omega, Or.imp_left fun hle => by omega⟩
      · exact ⟨fun _ => hq, fun hwill => hwill.resolve_left (Nat.not_le_of_lt hq)⟩
  | asleep =>
      rw [hpoint] at hstep
      dsimp only at hstep
      split at hstep
      · cases hstep
        exact h.move (onlyThread_goTo ..) (goTo_point_self ..) (fun _ => rfl) fun _ _ => rfl
      · next hready =>
          split at hstep
          · cases hstep
            apply h.move (onlyThread_goTo ..) (goTo_point_self ..) fun _ => rfl
            intro q hwill
            rw [hpoint] at hwill
            exact absurd (beq_iff_eq.mp hwill) hready
          · cases hstep
  | woken pri =>
      rw [hpoint] at hstep hok
      cases hstep
      refine h.round (hok pri rfl) (fun q hq => ?_) (fun q hq => ?_) <;>
        simp [WaitPoint.passed, WaitPoint.willSearch]
  | late pri =>
      rw [hpoint] at hstep hok
      cases hstep
      refine h.round (hok pri rfl) (fun q hq => ?_) (fun q hq => ?_) <;> rw [hpoint] <;>
        simp only [WaitPoint.passed, WaitPoint.willSearch, decide_eq_true_eq]
      · exact ⟨id, fun hle => by omega⟩
      · exact ⟨id, fun hle => absurd hle (Nat.not_le_of_lt hq)⟩
  | took event =>
      rw [hpoint] at hstep
      cases hstep
      apply h.move (onlyThread_setStatus ..) (goTo_point_self ..) fun _ => rfl
      intro q hwill
      rw [hpoint] at hwill
      cases hwill

/-! ## The steps of a publisher -/

theorem mem_publishAt {p p' : NonSchedPublish} {point : Option PublishPoint} :
    p' ∈ (s.publishAt p point).publishes ↔
      (∃ pt ∈ point, p' = { p with point := pt }) ∨ p' ∈ s.publishes.erase p := by
  rw [NonSchedState.publishAt, List.mem_append, Option.mem_toList, Option.map_eq_some_iff]
  simp only [Option.mem_def, eq_comm]

/-- A publisher goes on, or returns, and leaves no thread that it might have woken. -/
theorem NonSchedInv.publisher (h : NonSchedInv grp s) {p : NonSchedPublish} (hp : p ∈ s.publishes)
    {point : Option PublishPoint}
    (hwoken : ∀ pt ∈ point, ∀ tid ∈ pt.woken, tid ∈ schedGetEventThreadMap grp p.event)
    (hway : ∀ tid ∈ grp.thread, s.status tid = .idle → threadHandles grp tid p.event = true →
      p.onWay grp tid = true →
        ∃ pt ∈ point, ({ p with point := pt } : NonSchedPublish).onWay grp tid = true) :
    NonSchedInv grp (s.publishAt p point) := by
  refine ⟨fun p' hp' => ?_, fun tid htid pri hpri e he hm => ?_⟩
  · rcases mem_publishAt.mp hp' with ⟨pt, hpt, rfl⟩ | hp'
    · exact ⟨(h.publishes p hp).admitted, hwoken pt hpt⟩
    · exact h.publishes p' (List.mem_of_mem_erase hp')
  · rcases h.helped tid htid pri hpri e he hm with ⟨p', hp', hevent, hprio, honWay⟩ | hthread
    · by_cases heq : p' = p
      · subst heq
        obtain ⟨pt, hpt, hnew⟩ := hway tid htid hm.1 (hevent ▸ hm.2.2) honWay
        exact .inl ⟨_, mem_publishAt.mpr (.inl ⟨pt, hpt, rfl⟩), hevent, hprio, hnew⟩
      · exact .inl ⟨p', mem_publishAt.mpr (.inr ((List.mem_erase_of_ne heq).mpr hp')), hevent,
          hprio, honWay⟩
    · exact .inr hthread

/-- The event is in its list, and the publisher has all its threads before it. -/
theorem NonSchedInv.added (h : NonSchedInv grp s) (hgrp : grpMachine.Reach grp)
    {p : NonSchedPublish} (hp : p ∈ s.publishes) (hpoint : p.point = .adding)
    {l : SchedEventList SchedEvent} (hadd : schedEventAddTail (s.list p.pri) p.event = some l) :
    NonSchedInv grp ((s.setList p.pri l).publishAt p (some (.walk 0))) := by
  refine ⟨fun p' hp' => ?_, fun tid htid pri hpri e he hm => ?_⟩
  · rcases mem_publishAt.mp hp' with ⟨pt, hpt, rfl⟩ | hp'
    · obtain rfl := Option.some.inj hpt
      exact ⟨(h.publishes p hp).admitted, fun tid htid => by cases htid⟩
    · exact h.publishes p' (List.mem_of_mem_erase hp')
  · change e ∈ (Function.update s.list p.pri l pri).head at he
    have hcases : e ∈ (s.list pri).head ∨ (e = p.event ∧ pri = p.pri) := by
      by_cases heq : pri = p.pri
      · subst heq
        rw [Function.update_self] at he
        rcases (mem_of_addTail hadd).mp he with hold | hnew
        · exact .inl hold
        · exact .inr ⟨hnew, rfl⟩
      · rw [Function.update_of_ne heq] at he
        exact .inl he
    rcases hcases with hold | ⟨rfl, rfl⟩
    · rcases h.helped tid htid pri hpri e hold hm with ⟨p', hp', hevent, hprio, honWay⟩ | hthread
      · have hne : p' ≠ p := by
          rintro rfl
          rw [NonSchedPublish.onWay, hpoint] at honWay
          cases honWay
        exact .inl ⟨p', mem_publishAt.mpr (.inr ((List.mem_erase_of_ne hne).mpr hp')), hevent,
          hprio, honWay⟩
      · exact .inr hthread
    · refine .inl ⟨_, mem_publishAt.mpr (.inl ⟨_, rfl, rfl⟩), rfl, rfl, ?_⟩
      exact decide_eq_true (mem_map_of_handles hgrp htid hm.2.2)

/-- The status of a thread only turns from idle to ready. -/
theorem wakeUp_status (s : NonSchedState) (woken t : ℕ) :
    (s.schedWakeUpThread woken).status t = s.status t ∨
      (s.schedWakeUpThread woken).status t = .ready := by
  unfold NonSchedState.schedWakeUpThread
  split
  · by_cases ht : t = woken
    · subst ht
      exact .inr (setStatus_self ..)
    · exact .inl (Function.update_of_ne ht ..)
  · exact .inl rfl

theorem wakeUp_point (s : NonSchedState) (woken : ℕ) :
    (s.schedWakeUpThread woken).point = s.point := by
  unfold NonSchedState.schedWakeUpThread
  split <;> rfl

theorem wakeUp_list (s : NonSchedState) (woken : ℕ) :
    (s.schedWakeUpThread woken).list = s.list := by
  unfold NonSchedState.schedWakeUpThread
  split <;> rfl

theorem wakeUp_publishes (s : NonSchedState) (woken : ℕ) :
    (s.schedWakeUpThread woken).publishes = s.publishes := by
  unfold NonSchedState.schedWakeUpThread
  split <;> rfl

theorem WaitPoint.willSearch_ready {point : WaitPoint} {status : ThreadStatus}
    (h : point.willSearch pri status = true) : point.willSearch pri .ready = true := by
  cases point <;> simp_all [WaitPoint.willSearch]

theorem willSearch_wakeUp (s : NonSchedState) (woken : ℕ) {t : ℕ}
    (h : (s.point t).willSearch pri (s.status t) = true) :
    ((s.schedWakeUpThread woken).point t).willSearch pri
      ((s.schedWakeUpThread woken).status t) = true := by
  rw [wakeUp_point]
  rcases wakeUp_status s woken t with heq | heq
  · rw [heq]
    exact h
  · rw [heq]
    exact WaitPoint.willSearch_ready h

/-- A publisher ends at the thread that it wakes. -/
theorem NonSchedInv.woke (h : NonSchedInv grp s) (hgrp : grpMachine.Reach grp)
    {p : NonSchedPublish} (hp : p ∈ s.publishes) {woken : ℕ} (hpoint : p.point = .wake woken)
    (hok : WakeOk grp s p woken) :
    NonSchedInv grp ((s.schedWakeUpThread woken).publishAt p none) := by
  have hpublishes (p' : NonSchedPublish) :
      p' ∈ ((s.schedWakeUpThread woken).publishAt p none).publishes ↔ p' ∈ s.publishes.erase p := by
    rw [mem_publishAt, wakeUp_publishes]
    simp
  refine ⟨fun p' hp' => ?_, fun tid htid pri hpri e he hm => ?_⟩
  · exact h.publishes p' (List.mem_of_mem_erase ((hpublishes p').mp hp'))
  · change e ∈ ((s.schedWakeUpThread woken).list pri).head at he
    rw [wakeUp_list] at he
    change Missed grp (s.schedWakeUpThread woken) tid pri e at hm
    have hold : Missed grp s tid pri e := by
      obtain ⟨hidle, hpassed, hcan⟩ := hm
      rw [wakeUp_point] at hpassed
      refine ⟨?_, hpassed, hcan⟩
      rcases wakeUp_status s woken tid with heq | heq
      · exact heq.symm.trans hidle
      · cases heq.symm.trans hidle
    have hrest (hother : Helped grp s (s.publishes.erase p) none tid pri e) :
        Helped grp ((s.schedWakeUpThread woken).publishAt p none)
          ((s.schedWakeUpThread woken).publishAt p none).publishes none tid pri e := by
      rcases hother with ⟨p', hp', hway⟩ | ⟨t, ht, hne, hcan, hwill⟩
      · exact .inl ⟨p', (hpublishes p').mpr hp', hway⟩
      · exact .inr ⟨t, ht, hne, hcan, willSearch_wakeUp s woken hwill⟩
    rcases h.helped tid htid pri hpri e he hold with ⟨p', hp', hevent, hprio, honWay⟩ | hthread
    · by_cases heq : p' = p
      · subst heq hevent hprio
        rcases hok with ⟨hidle, hwill⟩ | hother
        · obtain ⟨hadmitted, hmap⟩ := h.publishes p' hp
          have hmem := hmap woken (by rw [hpoint]; rfl)
          obtain ⟨hthread, hcan⟩ := handles_of_mem_map hgrp hadmitted hmem
          refine .inr ⟨woken, hthread, Option.some_ne_none woken, hcan, ?_⟩
          change ((s.schedWakeUpThread woken).point woken).willSearch _
            ((s.schedWakeUpThread woken).status woken) = true
          rw [wakeUp_point, NonSchedState.schedWakeUpThread, if_pos hidle, setStatus_self]
          exact hwill
        · exact hrest (hother he tid htid hold)
      · exact hrest (.inl ⟨p', (List.mem_erase_of_ne heq).mpr hp', hevent, hprio, honWay⟩)
    · exact hrest (.inr hthread)

theorem NonSchedInv.publish (h : NonSchedInv grp s) (hgrp : grpMachine.Reach grp)
    {p : NonSchedPublish} (hp : p ∈ s.publishes)
    (hok : ∀ tid ∈ p.point.woken, WakeOk grp s p tid) :
    NonSchedInv grp (schedPublishEventToNonSchedGrp grp s p) := by
  unfold schedPublishEventToNonSchedGrp
  cases hpoint : p.point with
  | adding =>
      dsimp only
      split
      · apply h.publisher hp
        · intro pt hpt
          cases hpt
        · intro tid _ _ _ honWay
          rw [NonSchedPublish.onWay, hpoint] at honWay
          cases honWay
      · next l hadd => exact h.added hgrp hp hpoint hadd
  | walk i =>
      dsimp only
      split
      · next hend =>
          apply h.publisher hp
          · intro pt hpt
            cases hpt
          · intro tid _ _ _ honWay
            rw [NonSchedPublish.onWay, hpoint] at honWay
            have hdrop := List.drop_eq_nil_of_le (List.getElem?_eq_none_iff.mp hend)
            have hmem := of_decide_eq_true honWay
            rw [hdrop] at hmem
            exact absurd hmem List.not_mem_nil
      · next t hget =>
          apply h.publisher hp
          · rintro pt hpt woken hwoken
            obtain rfl := Option.some.inj hpt
            split at hwoken
            · obtain rfl := Option.some.inj hwoken
              exact List.mem_of_getElem? hget
            · cases hwoken
          · intro tid _ hidle _ honWay
            refine ⟨_, rfl, ?_⟩
            split
            · rfl
            · next hne =>
                -- An idle thread is not the one that the walk leaves behind.
                rw [NonSchedPublish.onWay, hpoint] at honWay
                have hmem := of_decide_eq_true honWay
                obtain ⟨hlt, hval⟩ := List.getElem?_eq_some_iff.mp hget
                rw [List.drop_eq_getElem_cons hlt, hval] at hmem
                refine decide_eq_true ((List.mem_cons.mp hmem).resolve_left ?_)
                rintro rfl
                exact hne hidle
  | wake woken =>
      rw [hpoint] at hok
      exact h.woke hgrp hp hpoint (hok woken rfl)

/-! ## Runs -/

theorem NonSchedInv.step (h : NonSchedInv grp s) (hgrp : grpMachine.Reach grp)
    (act : NonSchedAct) (hok : nonSchedOk grp s act) (hstep : nonSchedStep grp s act = some s') :
    NonSchedInv grp s' := by
  cases act with
  | wait tid noWait =>
      simp only [nonSchedStep, Option.ite_none_right_eq_some, Option.some.injEq] at hstep
      obtain ⟨⟨-, hout⟩, rfl⟩ := hstep
      have hs : OnlyThread s
          (({ s with noWait := Function.update s.noWait tid noWait } : NonSchedState).goTo tid
            .entered) tid :=
        ⟨rfl, rfl, fun _ _ => rfl, fun _ ht => Function.update_of_ne ht ..⟩
      exact h.move hs (goTo_point_self ..) (fun _ => rfl) fun _ _ => rfl
  | thread tid => exact h.wait hok hstep
  | timeout tid =>
      simp only [nonSchedStep, Option.ite_none_right_eq_some, Option.some.injEq] at hstep
      obtain ⟨⟨hasleep, hready, -⟩, rfl⟩ := hstep
      apply h.move (onlyThread_goTo ..) (goTo_point_self ..) fun _ => rfl
      intro q hwill
      rw [hasleep] at hwill
      exact absurd (beq_iff_eq.mp hwill) hready
  | publish event pri =>
      simp only [nonSchedStep, Option.ite_none_right_eq_some, Option.some.injEq] at hstep
      obtain ⟨⟨hadmitted, -⟩, rfl⟩ := hstep
      refine ⟨fun p hp => ?_, fun tid htid q hq e he hm => ?_⟩
      · rcases List.mem_cons.mp hp with rfl | hp
        · exact ⟨hadmitted, fun tid htid => by cases htid⟩
        · exact h.publishes p hp
      · rcases h.helped tid htid q hq e he hm with ⟨p, hp, hway⟩ | hthread
        · exact .inl ⟨p, List.mem_cons_of_mem _ hp, hway⟩
        · exact .inr hthread
  | publisher p =>
      simp only [nonSchedStep, Option.ite_none_right_eq_some, Option.some.injEq] at hstep
      obtain ⟨hp, rfl⟩ := hstep
      exact h.publish hgrp hp hok

theorem nonSchedInv_init (h : (nonSchedMachine grp).init s) : NonSchedInv grp s := by
  obtain ⟨hlist, -, hpublishes⟩ := h
  refine ⟨fun p hp => ?_, fun tid htid pri hpri e he => ?_⟩
  · rw [hpublishes] at hp
    exact absurd hp List.not_mem_nil
  · rw [hlist pri] at he
    exact absurd he List.not_mem_nil

theorem no_lost_wakeup (hgrp : grpMachine.Reach grp)
    (h : (nonSchedMachine grp).ReachIf (nonSchedOk grp) s) : NoLostWakeup grp s := by
  apply NonSchedInv.noLostWakeup
  apply h.invariant
  · exact fun s hinit => nonSchedInv_init hinit
  · exact fun s act t hinv hok hstep => hinv.step hgrp act hok hstep

/-! ## Two threads -/

/-- A group with the threads 0 and 1, which subscribe event 0. -/
def twoThreads : SchedGrpCtx :=
  grpMachine.final zeroGrpCtx
    [.addGrp .bindCpCpu 2 true, .subscribe 0 1, .subscribe 1 1, .wait 0 none 100 false,
      .wait 1 none 101 false]

theorem twoThreads_reach : grpMachine.Reach twoThreads :=
  Machine.Reach.final (.start rfl) (by decide +kernel)

/-- Both threads have waited before, and no event came. -/
def allIdle : NonSchedState where
  list := fun _ => ⟨4, 0, []⟩
  status := fun _ => .idle
  point := fun _ => .out
  noWait := fun _ => false
  publishes := []

theorem allIdle_init : (nonSchedMachine twoThreads).init allIdle :=
  ⟨fun _ => rfl, fun _ => rfl, rfl⟩

def eventZero : SchedEvent := ⟨7, 0, 0, none⟩

/-- The thread finds no event and sleeps. -/
def fallAsleep (tid : ℕ) : List NonSchedAct :=
  .wait tid false :: List.replicate 5 (.thread tid)

/-- An event is published, and the walk over the map comes to the thread at `i`. -/
def publishTo (i : ℕ) : List NonSchedAct :=
  [.publish eventZero 1, .publisher ⟨eventZero, 1, .adding⟩] ++
    (List.range (i + 1)).map (fun j => .publisher ⟨eventZero, 1, .walk j⟩) ++
    [.publisher ⟨eventZero, 1, .wake i⟩]

/-- Each of two events wakes a thread, which takes it. -/
def wokenRun : List NonSchedAct :=
  fallAsleep 0 ++ fallAsleep 1 ++ publishTo 0 ++ List.replicate 4 (.thread 0) ++ publishTo 1 ++
    List.replicate 4 (.thread 1) ++ [.wait 0 false] ++ List.replicate 6 (.thread 0)

theorem no_lost_wakeup_two :
    NoLostWakeup twoThreads ((nonSchedMachine twoThreads).final allIdle wokenRun) := by
  have h : (nonSchedMachine twoThreads).ReachIf (nonSchedOk twoThreads)
      ((nonSchedMachine twoThreads).final allIdle wokenRun) :=
    Machine.ReachIf.final (.start allIdle_init) (by decide +kernel) (by decide +kernel)
  exact no_lost_wakeup twoThreads_reach h

/-- Thread 0 leaves after a timeout and stays idle.  The publisher takes it for one that
waits, while thread 1 sleeps. -/
def timedOutRun : List NonSchedAct :=
  fallAsleep 0 ++ [.timeout 0] ++ List.replicate 4 (.thread 0) ++ fallAsleep 1 ++ publishTo 0

theorem wakeup_lost :
    let s := (nonSchedMachine twoThreads).final allIdle timedOutRun
    grpMachine.Reach twoThreads ∧ (nonSchedMachine twoThreads).Reach s ∧
      ¬ NoLostWakeup twoThreads s := by
  refine ⟨twoThreads_reach, Machine.Reach.final (.start allIdle_init) (by decide +kernel),
    fun h => ?_⟩
  have hfree := h (by decide +kernel) (by decide +kernel) 1 (by decide +kernel) (by decide +kernel)
    (by decide +kernel) 1 (by decide) eventZero (by decide +kernel)
  exact absurd hfree (by decide +kernel)

end OpiaiKernel.Esched
