import OpiaiKernel.Lib.Machine
import Mathlib.Data.List.Basic
import Mathlib.Logic.Function.Basic

/-!
# Waiting on an epoll descriptor

A waiter collects the ready objects under the mutex of the descriptor.  When there are
none it sleeps until the flag of the descriptor is set.  Whoever makes an object ready
sets the flag and wakes all waiters, and each of them looks at the flag again; the first
that takes the mutex clears it.

The functions are translated from `hdcdrv_epoll.c`.  The collection, each access to the
flag and each wake-up is one step.
-/

namespace OpiaiKernel.Hdc

/-- The next step of `hdcdrv_epoll_wait`; `woken` is the sign of what the wait returned. -/
inductive WaiterPc
  | outside
  | lock
  | collect
  | check
  | asleep
  | relock (woken : Bool)
  | clear (woken : Bool)
  | recollect (woken : Bool)
  deriving DecidableEq, Repr

/-- The next step of a producer that has made an object ready. -/
inductive ProducerPc (O : Type*)
  | idle
  | made (o : O)
  | flagged
  deriving DecidableEq, Repr

/-- The descriptor with its waiters and producers.  An object is passed for a waiter when
another call has returned with it after the last collection of the waiter. -/
structure EpollWait (W P O : Type*) where
  valid : Bool
  waitFlag : Bool
  registered : List O
  ready : O → Bool
  mutex : Option W
  waiter : W → WaiterPc
  producer : P → ProducerPc O
  passed : W → O → Bool

inductive EpollWaitAct (W P O : Type*)
  | enter (w : W)
  | waiter (w : W)
  | timeout (w : W)
  | signal (w : W)
  | produce (p : P) (o : O)
  | producer (p : P)
  | drain (o : O)
  | clearLists
  | invalidate
  deriving DecidableEq, Repr

variable {W P O : Type*} [DecidableEq W] [DecidableEq P] [DecidableEq O]

namespace EpollWait

def eventNum (s : EpollWait W P O) : ℕ := (s.registered.filter s.ready).length

/-- What ends the wait. -/
def condition (s : EpollWait W P O) : Bool := s.waitFlag || !s.valid

def goto (s : EpollWait W P O) (w : W) (pc : WaiterPc) : EpollWait W P O :=
  { s with waiter := Function.update s.waiter w pc }

/-- A collection without events; the waiter releases the mutex and waits. -/
def wait (s : EpollWait W P O) (w : W) : EpollWait W P O :=
  { s.goto w .check with
    mutex := none
    passed := Function.update s.passed w fun _ => false }

/-- The return with what was collected. -/
def leave (s : EpollWait W P O) (w : W) : EpollWait W P O :=
  { s.goto w .outside with
    mutex := none
    passed := fun v o => s.passed v o || (decide (o ∈ s.registered) && s.ready o) }

/-- The wake-up of the queue. -/
def wakeUp (s : EpollWait W P O) : EpollWait W P O :=
  { s with waiter := fun w => if s.waiter w = .asleep then .check else s.waiter w }

/-- The steps of `hdcdrv_epoll_wait`. -/
def waiterStep (s : EpollWait W P O) (w : W) : Option (EpollWait W P O) :=
  match s.waiter w with
  | .outside => none
  | .lock =>
      if s.mutex = none then some { s.goto w .collect with mutex := some w } else none
  | .collect => if s.eventNum = 0 then some (s.wait w) else some (s.leave w)
  | .check => if s.condition then some (s.goto w (.relock true)) else some (s.goto w .asleep)
  | .asleep => none
  | .relock woken =>
      if s.mutex = none then
        if s.valid then some { s.goto w (.clear woken) with mutex := some w }
        else some (s.goto w .outside)
      else none
  | .clear woken => some { s.goto w (.recollect woken) with waitFlag := false }
  | .recollect woken =>
      if s.eventNum = 0 ∧ woken = true then some (s.wait w) else some (s.leave w)

/-- The steps of `hdcdrv_epoll_wake_up`. -/
def producerStep (s : EpollWait W P O) (p : P) : Option (EpollWait W P O) :=
  match s.producer p with
  | .idle => none
  | .made o =>
      if o ∈ s.registered then
        some { s with waitFlag := true, producer := Function.update s.producer p .flagged }
      else some { s with producer := Function.update s.producer p .idle }
  | .flagged => some { s.wakeUp with producer := Function.update s.producer p .idle }

def step (s : EpollWait W P O) : EpollWaitAct W P O → Option (EpollWait W P O)
  | .enter w =>
      if s.waiter w = .outside ∧ s.valid = true then some (s.goto w .lock) else none
  | .waiter w => s.waiterStep w
  | .timeout w =>
      if s.waiter w = .asleep then some (s.goto w (.relock s.condition)) else none
  | .signal w =>
      if s.waiter w = .asleep then
        some (s.goto w (if s.condition then .relock true else .outside))
      else none
  | .produce p o =>
      if s.producer p = .idle then
        some { s with
          ready := Function.update s.ready o true
          producer := Function.update s.producer p (.made o) }
      else none
  | .producer p => s.producerStep p
  | .drain o => some { s with ready := Function.update s.ready o false }
  | .clearLists => if s.mutex = none then some { s with registered := [] } else none
  | .invalidate => if s.mutex = none then some { s.wakeUp with valid := false } else none

end EpollWait

def epollWaitMachine : Machine (EpollWait W P O) (EpollWaitAct W P O) where
  init s := s.valid = true ∧ s.waitFlag = false ∧ s.mutex = none ∧
    (∀ w, s.waiter w = .outside) ∧ ∀ p, s.producer p = .idle
  step := EpollWait.step

/-- No producer is at work and no waiter runs inside the call. -/
def EpollWait.Quiet (s : EpollWait W P O) : Prop :=
  (∀ p, s.producer p = .idle) ∧ ∀ w, s.waiter w = .outside ∨ s.waiter w = .asleep

/-- A waiter that has found no object and not yet seen the flag. -/
def WaiterPc.waits : WaiterPc → Prop
  | .check | .asleep => True
  | _ => False

/-- Why a waiter need not see a ready object: it will see the flag, the flag will be set,
or another waiter has cleared it and will collect the object. -/
structure EpollWaitInv (s : EpollWait W P O) : Prop where
  covered : ∀ w, (s.waiter w).waits → ∀ o ∈ s.registered, s.ready o = true →
    s.passed w o = true ∨ s.waitFlag = true ∨ (∃ p, ∃ o' ∈ s.registered, s.producer p = .made o') ∨
      ∃ v woken, s.waiter v = .recollect woken
  asleep : ∀ w, s.waiter w = .asleep → s.waitFlag = true → ∃ p, s.producer p = .flagged

section Wake

omit [DecidableEq W] [DecidableEq P] [DecidableEq O]

variable {s : EpollWait W P O}

theorem EpollWait.ready_of_eventNum (h : s.eventNum = 0) {o : O} (ho : o ∈ s.registered) :
    s.ready o = false := by
  have hnil := List.length_eq_zero_iff.mp h
  simpa using List.filter_eq_nil_iff.mp hnil o ho

theorem EpollWaitInv.quiet (hinv : EpollWaitInv s) (hquiet : s.Quiet) {w : W} {o : O}
    (hw : s.waiter w = .asleep) (ho : o ∈ s.registered) (hready : s.ready o = true) :
    s.passed w o = true := by
  obtain ⟨hproducer, hwaiter⟩ := hquiet
  obtain hpassed | hflag | ⟨p, o', -, hp⟩ | ⟨v, woken, hv⟩ :=
    hinv.covered w (by simp [hw, WaiterPc.waits]) o ho hready
  · exact hpassed
  · obtain ⟨p, hp⟩ := hinv.asleep w hw hflag
    simp [hproducer p] at hp
  · simp [hproducer p] at hp
  · rcases hwaiter v with h | h <;> simp [h] at hv

theorem EpollWait.waiter_wakeUp (v : W) :
    s.wakeUp.waiter v = if s.waiter v = .asleep then .check else s.waiter v := rfl

/-- A wake-up leaves no waiter asleep. -/
theorem EpollWait.wakeUp_ne_asleep (v : W) : s.wakeUp.waiter v ≠ .asleep := by
  rw [EpollWait.waiter_wakeUp]
  split_ifs with hv
  · simp
  · exact hv

theorem EpollWait.waits_of_wakeUp {v : W} (hv : (s.wakeUp.waiter v).waits) :
    (s.waiter v).waits := by
  rw [EpollWait.waiter_wakeUp] at hv
  split_ifs at hv with hasleep
  · rw [hasleep]
    trivial
  · exact hv

theorem EpollWait.recollect_wakeUp {v : W} {woken : Bool} (hv : s.waiter v = .recollect woken) :
    s.wakeUp.waiter v = .recollect woken := by
  simp [EpollWait.waiter_wakeUp, hv]

end Wake

variable {s t : EpollWait W P O} {w : W} {p : P}

omit [DecidableEq P] [DecidableEq O] in
theorem EpollWait.waiter_goto (v w : W) (pc : WaiterPc) :
    (s.goto w pc).waiter v = if v = w then pc else s.waiter v :=
  Function.update_apply _ _ _ _

omit [DecidableEq P] [DecidableEq O] in
/-- A waiter that neither waits nor leaves a collection changes nothing for the others. -/
theorem EpollWaitInv.goto (hinv : EpollWaitInv s) {pc : WaiterPc} (hpc : ¬pc.waits)
    (hold : ∀ woken, s.waiter w ≠ .recollect woken) : EpollWaitInv (s.goto w pc) := by
  constructor
  · intro v hv o ho hready
    rw [EpollWait.waiter_goto] at hv
    split_ifs at hv with hvw
    · exact absurd hv hpc
    · obtain hpassed | hflag | hmade | ⟨u, woken, hu⟩ := hinv.covered v hv o ho hready
      · exact .inl hpassed
      · exact .inr (.inl hflag)
      · exact .inr (.inr (.inl hmade))
      · refine .inr (.inr (.inr ⟨u, woken, ?_⟩))
        rw [EpollWait.waiter_goto, if_neg, hu]
        rintro rfl
        exact hold woken hu
  · intro v hv hflag
    rw [EpollWait.waiter_goto] at hv
    split_ifs at hv with hvw
    · exact absurd (hv ▸ trivial) hpc
    · exact hinv.asleep v hv hflag

omit [DecidableEq P] [DecidableEq O] in
/-- A collection without events leaves no object for anyone. -/
theorem EpollWaitInv.wait (hinv : EpollWaitInv s) (hnone : s.eventNum = 0) :
    EpollWaitInv (s.wait w) := by
  constructor
  · intro v hv o ho hready
    have hfalse : s.ready o = false := EpollWait.ready_of_eventNum hnone ho
    exact absurd hready (by simp [EpollWait.wait, EpollWait.goto, hfalse])
  · intro v hv hflag
    have hv' : (s.goto w .check).waiter v = .asleep := hv
    rw [EpollWait.waiter_goto] at hv'
    split_ifs at hv' with hvw
    exact hinv.asleep v hv' hflag

omit [DecidableEq P] in
/-- A return passes the ready objects. -/
theorem EpollWaitInv.leave (hinv : EpollWaitInv s) : EpollWaitInv (s.leave w) := by
  constructor
  · intro v hv o ho hready
    have ho' : o ∈ s.registered := ho
    have hready' : s.ready o = true := hready
    left
    simp [EpollWait.leave, ho', hready']
  · intro v hv hflag
    have hv' : (s.goto w .outside).waiter v = .asleep := hv
    rw [EpollWait.waiter_goto] at hv'
    split_ifs at hv' with hvw
    exact hinv.asleep v hv' hflag

omit [DecidableEq P] [DecidableEq O] in
theorem EpollWaitInv.sleep (hinv : EpollWaitInv s) (hw : s.waiter w = .check)
    (hflag : s.waitFlag = false) : EpollWaitInv (s.goto w .asleep) := by
  constructor
  · intro v hv o ho hready
    have hv' : (s.waiter v).waits := by
      rw [EpollWait.waiter_goto] at hv
      split_ifs at hv with hvw
      · rw [hvw, hw]
        trivial
      · exact hv
    obtain hpassed | hflag' | hmade | ⟨u, woken, hu⟩ := hinv.covered v hv' o ho hready
    · exact .inl hpassed
    · exact .inr (.inl hflag')
    · exact .inr (.inr (.inl hmade))
    · refine .inr (.inr (.inr ⟨u, woken, ?_⟩))
      rw [EpollWait.waiter_goto, if_neg, hu]
      rintro rfl
      simp [hw] at hu
  · intro v hv hflag'
    have : s.waitFlag = true := hflag'
    simp [hflag] at this

omit [DecidableEq P] [DecidableEq O] in
theorem EpollWaitInv.clear (woken : Bool) :
    EpollWaitInv { s.goto w (.recollect woken) with waitFlag := false } := by
  constructor
  · intro v hv o ho hready
    refine .inr (.inr (.inr ⟨w, woken, ?_⟩))
    exact Function.update_self _ _ _
  · intro v hv hflag
    simp at hflag

omit [DecidableEq P] in
theorem EpollWaitInv.waiterStep (hinv : EpollWaitInv s) (hstep : s.waiterStep w = some t) :
    EpollWaitInv t := by
  cases hpc : s.waiter w with
  | outside => simp [EpollWait.waiterStep, hpc] at hstep
  | lock =>
      simp only [EpollWait.waiterStep, hpc] at hstep
      split_ifs at hstep
      obtain rfl := Option.some.inj hstep
      have hnext : EpollWaitInv (s.goto w .collect) := hinv.goto id (by simp [hpc])
      exact ⟨hnext.covered, hnext.asleep⟩
  | collect =>
      simp only [EpollWait.waiterStep, hpc] at hstep
      split_ifs at hstep with hnone <;> obtain rfl := Option.some.inj hstep
      · exact hinv.wait hnone
      · exact hinv.leave
  | check =>
      simp only [EpollWait.waiterStep, hpc] at hstep
      split_ifs at hstep with hcond <;> obtain rfl := Option.some.inj hstep
      · exact hinv.goto id (by simp [hpc])
      · rw [EpollWait.condition, Bool.or_eq_true, not_or] at hcond
        exact hinv.sleep hpc (by simpa using hcond.1)
  | asleep => simp [EpollWait.waiterStep, hpc] at hstep
  | relock woken =>
      simp only [EpollWait.waiterStep, hpc] at hstep
      split_ifs at hstep <;> obtain rfl := Option.some.inj hstep
      · have hnext : EpollWaitInv (s.goto w (.clear woken)) := hinv.goto id (by simp [hpc])
        exact ⟨hnext.covered, hnext.asleep⟩
      · exact hinv.goto id (by simp [hpc])
  | clear woken =>
      simp only [EpollWait.waiterStep, hpc, Option.some.injEq] at hstep
      subst hstep
      exact .clear woken
  | recollect woken =>
      simp only [EpollWait.waiterStep, hpc] at hstep
      split_ifs at hstep with hnone <;> obtain rfl := Option.some.inj hstep
      · exact hinv.wait hnone.1
      · exact hinv.leave

omit [DecidableEq W] in
theorem EpollWaitInv.producerStep (hinv : EpollWaitInv s) (hstep : s.producerStep p = some t) :
    EpollWaitInv t := by
  cases hpc : s.producer p with
  | idle => simp [EpollWait.producerStep, hpc] at hstep
  | made o =>
      simp only [EpollWait.producerStep, hpc] at hstep
      split_ifs at hstep with ho <;> obtain rfl := Option.some.inj hstep
      · constructor
        · exact fun v hv o' ho' hready => .inr (.inl rfl)
        · exact fun v hv hflag => ⟨p, Function.update_self _ _ _⟩
      · constructor
        · intro v hv o' ho' hready
          obtain hpassed | hflag | ⟨q, x, hx, hq⟩ | hcollect := hinv.covered v hv o' ho' hready
          · exact .inl hpassed
          · exact .inr (.inl hflag)
          · refine .inr (.inr (.inl ⟨q, x, hx, ?_⟩))
            rcases eq_or_ne q p with rfl | hne
            · rw [hpc, ProducerPc.made.injEq] at hq
              exact absurd (hq ▸ hx) ho
            · exact (Function.update_of_ne hne _ _).trans hq
          · exact .inr (.inr (.inr hcollect))
        · intro v hv hflag
          obtain ⟨q, hq⟩ := hinv.asleep v hv hflag
          refine ⟨q, ?_⟩
          rcases eq_or_ne q p with rfl | hne
          · simp [hpc] at hq
          · exact (Function.update_of_ne hne _ _).trans hq
  | flagged =>
      simp only [EpollWait.producerStep, hpc, Option.some.injEq] at hstep
      subst hstep
      constructor
      · intro v hv o ho hready
        obtain hpassed | hflag | ⟨q, x, hx, hq⟩ | ⟨u, woken, hu⟩ :=
          hinv.covered v (EpollWait.waits_of_wakeUp hv) o ho hready
        · exact .inl hpassed
        · exact .inr (.inl hflag)
        · refine .inr (.inr (.inl ⟨q, x, hx, ?_⟩))
          rcases eq_or_ne q p with rfl | hne
          · simp [hpc] at hq
          · exact (Function.update_of_ne hne _ _).trans hq
        · exact .inr (.inr (.inr ⟨u, woken, EpollWait.recollect_wakeUp hu⟩))
      · exact fun v hv => absurd hv (EpollWait.wakeUp_ne_asleep v)

theorem EpollWaitInv.step (hinv : EpollWaitInv s) (a : EpollWaitAct W P O)
    (hstep : s.step a = some t) : EpollWaitInv t := by
  cases a with
  | enter w =>
      simp only [EpollWait.step] at hstep
      split_ifs at hstep with hguard
      obtain rfl := Option.some.inj hstep
      exact hinv.goto id (by simp [hguard.1])
  | waiter w => exact hinv.waiterStep hstep
  | timeout w =>
      simp only [EpollWait.step] at hstep
      split_ifs at hstep with hguard
      obtain rfl := Option.some.inj hstep
      exact hinv.goto id (by simp [hguard])
  | signal w =>
      simp only [EpollWait.step] at hstep
      split_ifs at hstep with hguard hcond <;> obtain rfl := Option.some.inj hstep
      · exact hinv.goto id (by simp [hguard])
      · exact hinv.goto id (by simp [hguard])
  | produce p o =>
      simp only [EpollWait.step] at hstep
      split_ifs at hstep with hguard
      obtain rfl := Option.some.inj hstep
      constructor
      · intro v hv o' ho' hready
        rcases eq_or_ne o' o with rfl | hne
        · exact .inr (.inr (.inl ⟨p, o', ho', Function.update_self _ _ _⟩))
        · have hready' : s.ready o' = true := (Function.update_of_ne hne _ _).symm.trans hready
          obtain hpassed | hflag | ⟨q, x, hx, hq⟩ | hcollect := hinv.covered v hv o' ho' hready'
          · exact .inl hpassed
          · exact .inr (.inl hflag)
          · refine .inr (.inr (.inl ⟨q, x, hx, ?_⟩))
            rcases eq_or_ne q p with rfl | hqp
            · simp [hguard] at hq
            · exact (Function.update_of_ne hqp _ _).trans hq
          · exact .inr (.inr (.inr hcollect))
      · intro v hv hflag
        obtain ⟨q, hq⟩ := hinv.asleep v hv hflag
        refine ⟨q, ?_⟩
        rcases eq_or_ne q p with rfl | hqp
        · simp [hguard] at hq
        · exact (Function.update_of_ne hqp _ _).trans hq
  | producer p => exact hinv.producerStep hstep
  | drain o =>
      obtain rfl := Option.some.inj hstep
      refine ⟨fun v hv o' ho' hready => ?_, hinv.asleep⟩
      rcases eq_or_ne o' o with rfl | hne
      · have hfalse : Function.update s.ready o' false o' = true := hready
        rw [Function.update_self] at hfalse
        exact absurd hfalse Bool.false_ne_true
      · exact hinv.covered v hv o' ho' ((Function.update_of_ne hne _ _).symm.trans hready)
  | clearLists =>
      simp only [EpollWait.step] at hstep
      split_ifs at hstep
      obtain rfl := Option.some.inj hstep
      exact ⟨fun v hv o ho => absurd ho List.not_mem_nil, hinv.asleep⟩
  | invalidate =>
      simp only [EpollWait.step] at hstep
      split_ifs at hstep
      obtain rfl := Option.some.inj hstep
      constructor
      · intro v hv o ho hready
        obtain hpassed | hflag | hmade | ⟨u, woken, hu⟩ :=
          hinv.covered v (EpollWait.waits_of_wakeUp hv) o ho hready
        · exact .inl hpassed
        · exact .inr (.inl hflag)
        · exact .inr (.inr (.inl hmade))
        · exact .inr (.inr (.inr ⟨u, woken, EpollWait.recollect_wakeUp hu⟩))
      · exact fun v hv => absurd hv (EpollWait.wakeUp_ne_asleep v)

/-- In a quiet state a waiter sleeps while an object is ready only if another call has
returned with the object since the waiter found none. -/
theorem epollWait_no_lost_wakeup (hs : (epollWaitMachine (W := W) (P := P) (O := O)).Reach s)
    (hquiet : s.Quiet) {o : O} (hw : s.waiter w = .asleep) (ho : o ∈ s.registered)
    (hready : s.ready o = true) : s.passed w o = true := by
  have hinv : EpollWaitInv s := by
    apply hs.invariant
    · rintro s ⟨-, -, -, hwaiter, -⟩
      refine ⟨fun v hv => ?_, fun v hv => ?_⟩
      · simp [hwaiter v, WaiterPc.waits] at hv
      · simp [hwaiter v] at hv
    · exact fun s a t hinv _ hstep => hinv.step a hstep
  exact hinv.quiet hquiet hw ho hready

/-! ## Two waiters and one object -/

def twoWaiters : EpollWait Bool Unit Unit where
  valid := true
  waitFlag := false
  registered := [()]
  ready _ := false
  mutex := none
  waiter _ := .outside
  producer _ := .idle
  passed _ _ := false

/-- Both waiters sleep; the first that wakes returns with the object, the other sleeps on. -/
def firstTakesFlag : List (EpollWaitAct Bool Unit Unit) :=
  [.enter true, .waiter true, .waiter true, .waiter true,
    .enter false, .waiter false, .waiter false, .waiter false,
    .produce () (), .producer (), .producer (),
    .waiter true, .waiter true, .waiter true, .waiter true, .waiter false]

theorem quiet_firstTakesFlag :
    (epollWaitMachine.final twoWaiters firstTakesFlag).Quiet := by
  constructor
  · intro p
    cases p
    decide +kernel
  · intro w
    cases w <;> decide +kernel

theorem reach_firstTakesFlag :
    epollWaitMachine.Reach (epollWaitMachine.final twoWaiters firstTakesFlag) :=
  .final (.start ⟨rfl, rfl, rfl, fun _ => rfl, fun _ => rfl⟩) (by decide +kernel)

theorem epollWait_sleeps_on :
    ∃ s : EpollWait Bool Unit Unit, epollWaitMachine.Reach s ∧ s.Quiet ∧
      s.waiter false = .asleep ∧ () ∈ s.registered ∧ s.ready () = true := by
  refine ⟨_, reach_firstTakesFlag, quiet_firstTakesFlag, ?_, ?_, ?_⟩
  · decide +kernel
  · decide +kernel
  · decide +kernel

theorem epollWait_no_lost_wakeup_two :
    (epollWaitMachine.final twoWaiters firstTakesFlag).passed false () = true :=
  epollWait_no_lost_wakeup reach_firstTakesFlag quiet_firstTakesFlag (by decide +kernel)
    (by decide +kernel) (by decide +kernel)

end OpiaiKernel.Hdc
