import OpiaiKernel.Hdc.SessionSlots
import Mathlib.Data.Nat.Bitwise

/-!
# One session slot

What each section of a driver does to the slot it is about: the fields that the two ends
have to agree on, the connection that holds the slot, and the stage of the job on it.
-/

namespace OpiaiKernel.Hdc

variable {cfg : SessionConfig} {s t : SessTable} {fd : ℕ}

/-! ## One slot -/

/-- A slot with its connection and the stage of the job on it. -/
structure SlotView where
  session : Session
  conn : ℕ
  stage : Option SessStage

def SessTable.stageAt (s : SessTable) (fd : ℕ) : Option SessStage :=
  (Keyed.get SessJob.fd fd s.jobs).map SessJob.stage

def SessTable.view (s : SessTable) (fd : ℕ) : SlotView :=
  ⟨s.sessions fd, s.holder fd, s.stageAt fd⟩

theorem JobsOk.stageAt {job : SessJob} (h : JobsOk cfg s) (hjob : job ∈ s.jobs) :
    s.stageAt job.fd = some job.stage := by
  rw [SessTable.stageAt, h.uniq.get_iff.mpr ⟨hjob, rfl⟩, Option.map_some]

theorem exists_of_stageAt {stage : SessStage} (h : s.stageAt fd = some stage) :
    ∃ job ∈ s.jobs, job.fd = fd ∧ job.stage = stage := by
  obtain ⟨job, hget, rfl⟩ := Option.map_eq_some_iff.mp h
  exact ⟨job, Keyed.mem_of_get hget, Keyed.key_of_get hget, rfl⟩

theorem stageAt_none (h : ∀ job ∈ s.jobs, job.fd ≠ fd) : s.stageAt fd = none := by
  rw [SessTable.stageAt, Keyed.get_eq_none.mpr h, Option.map_none]

/-- The other slots look as before. -/
theorem view_congr (hs : JobsOk cfg s) (ht : JobsOk cfg t) (hslot : OnlySlot s t fd)
    (hjobs : ∀ job : SessJob, job.fd ≠ fd → (job ∈ t.jobs ↔ job ∈ s.jobs)) (k : ℕ) (hk : k ≠ fd) :
    t.view k = s.view k := by
  have hstage : t.stageAt k = s.stageAt k := by
    rw [SessTable.stageAt, SessTable.stageAt, hs.uniq.get_congr ht.uniq fun job hjob =>
      hjobs job (hjob ▸ hk)]
  rw [SessTable.view, SessTable.view, hslot.sessions k hk, hslot.holder k hk, hstage]

/-- The fields that the ends have to agree on, and the status. -/
structure SameSession (x y : Session) : Prop where
  status : x.status = y.status
  uniqueVal : x.uniqueVal = y.uniqueVal
  remote : x.remoteSessionFd = y.remoteSessionFd
  devId : x.devId = y.devId
  chanId : x.chanId = y.chanId
  fastChanId : x.fastChanId = y.fastChanId

theorem SameSession.refl (x : Session) : SameSession x x := ⟨rfl, rfl, rfl, rfl, rfl, rfl⟩

/-- The session of the peer is known. -/
def Session.Answered (x : Session) : Prop :=
  x.remoteSessionFd ≠ HDCDRV_INVALID_VALUE ∧
    x.remoteSessionFd ≠ HDCDRV_INVALID_REMOTE_SESSION_ID

/-- The call of a connect that has its value. -/
def SessStage.call : SessStage → Option ConnectCall
  | .send call | .wait call | .count call | .own call => some call
  | _ => none

/-- The connect has not written its value yet. -/
def SessStage.takenBy : SessStage → Bool
  | .taken _ => true
  | _ => false

/-- The connect has seen its reply. -/
def SessStage.counting : SessStage → Bool
  | .count _ | .own _ => true
  | _ => false

/-- Where the job of a slot goes on without writing what the ends have to agree on. -/
structure Moves (x : Session) (st st' : SessStage) : Prop where
  taken : ∀ call, st' ≠ .taken call
  send : ∀ call, st' ≠ .send call
  call : ∀ call, st'.call = some call → st.call = some call
  counting : st'.counting = true → x.Answered ∨ st.counting = true
  ready : ∀ call, st ≠ .taken call
  server : st.call = none → st'.call = none

/-- The next stage is not one of a connect that has its value. -/
theorem Moves.plain {x : Session} {st st' : SessStage} (hcall : st'.call = none)
    (htaken : st'.takenBy = false) (hready : st.takenBy = false) : Moves x st st' where
  taken call heq := by
    rw [heq] at htaken
    exact Bool.noConfusion htaken
  send call heq := by
    rw [heq] at hcall
    exact absurd hcall (Option.some_ne_none call)
  call call heq := absurd (hcall.symm.trans heq) (Option.some_ne_none call).symm
  counting h := by
    cases st' <;> simp_all [SessStage.call, SessStage.counting]
  ready call heq := by
    rw [heq] at hready
    exact Bool.noConfusion hready
  server _ := hcall

/-- A connect goes on with its call. -/
theorem Moves.keep {x : Session} {st st' : SessStage} {call : ConnectCall}
    (hst : st.call = some call) (hst' : st'.call = some call)
    (hsend : ∀ call, st' ≠ .send call)
    (hcounting : st'.counting = true → x.Answered ∨ st.counting = true) : Moves x st st' where
  taken call heq := by
    rw [heq] at hst'
    exact absurd hst' (Option.some_ne_none _).symm
  send := hsend
  call call' heq := hst.trans (hst'.symm.trans heq)
  counting := hcounting
  ready call heq := by
    rw [heq] at hst
    exact absurd hst (Option.some_ne_none _).symm
  server hnone := absurd (hst.symm.trans hnone) (Option.some_ne_none call)

/-- What one step does to the slot it is about, when it writes no unique value. -/
inductive SlotStep (v : SlotView) : SlotView → Prop
  | same : SlotStep v v
  | go (st st' : SessStage) (x : Session) (hstage : v.stage = some st)
      (hmove : Moves v.session st st') (hx : SameSession x v.session) :
      SlotStep v ⟨x, v.conn, some st'⟩
  | done (st : SessStage) (x : Session) (hstage : v.stage = some st)
      (hready : ∀ call, st ≠ .taken call) (hx : SameSession x v.session) :
      SlotStep v ⟨x, v.conn, none⟩
  | close (x : Session) (notify : Bool) (creator : Option UInt64) (hstage : v.stage = none)
      (hlive : v.session.status ≠ .idle)
      (hx : SameSession x { v.session with status := .closing }) :
      SlotStep v ⟨x, v.conn, some (.closing notify creator)⟩
  | clear (x : Session) (creator : Option UInt64) (hstatus : x.status = .closing)
      (hx : x.uniqueVal = 0) (hold : v.session.status = .closing) :
      SlotStep v ⟨x, v.conn, some (.closed creator)⟩
  | idle (x : Session) (hx : x.status = .idle) : SlotStep v ⟨x, v.conn, none⟩

/-- A step of a driver that writes no unique value. -/
structure TableStep (s t : SessTable) (fd : ℕ) : Prop where
  other : ∀ k, k ≠ fd → t.view k = s.view k
  slot : SlotStep (s.view fd) (t.view fd)
  next : s.next = t.next
  value : t.uniqueVal = s.uniqueVal

section TableStep

variable {job : SessJob}

theorem mem_goOn_iff {stage : SessStage} (job' : SessJob) (hne : job'.fd ≠ job.fd) :
    job' ∈ s.jobs.erase job ++ [{ job with stage := stage }] ↔ job' ∈ s.jobs := by
  have h1 : job' ≠ job := fun heq => hne (heq ▸ rfl)
  have h2 : job' ≠ { job with stage := stage } := fun heq => hne (heq ▸ rfl)
  simp [List.mem_erase_of_ne h1, h2]

theorem TableStep.goOn {stage : SessStage} (hs : SessInv cfg s) (ht : SessInv cfg t)
    (hjob : job ∈ s.jobs) (hslot : OnlySlot s t job.fd) (hholder : t.holder = s.holder)
    (hjobs : t.jobs = s.jobs.erase job ++ [{ job with stage := stage }])
    (hnext : s.next = t.next) (hvalue : t.uniqueVal = s.uniqueVal)
    (hstep : SlotStep ⟨s.sessions job.fd, s.holder job.fd, some job.stage⟩
      ⟨t.sessions job.fd, s.holder job.fd, some stage⟩) : TableStep s t job.fd := by
  have hmem : { job with stage := stage } ∈ t.jobs := by simp [hjobs]
  have hstage : t.stageAt job.fd = some stage := ht.jobs.stageAt hmem
  refine ⟨view_congr hs.jobs ht.jobs hslot fun job' hne => ?_, ?_, hnext, hvalue⟩
  · rw [hjobs]
    exact mem_goOn_iff job' hne
  · rw [SessTable.view, SessTable.view, hs.jobs.stageAt hjob, hstage, hholder]
    exact hstep

theorem TableStep.drop (hs : SessInv cfg s) (ht : SessInv cfg t) (hjob : job ∈ s.jobs)
    (hslot : OnlySlot s t job.fd) (hholder : t.holder = s.holder)
    (hjobs : t.jobs = s.jobs.erase job) (hnext : s.next = t.next)
    (hvalue : t.uniqueVal = s.uniqueVal)
    (hstep : SlotStep ⟨s.sessions job.fd, s.holder job.fd, some job.stage⟩
      ⟨t.sessions job.fd, s.holder job.fd, none⟩) : TableStep s t job.fd := by
  have hstage : t.stageAt job.fd = none := by
    refine stageAt_none ?_
    rw [hjobs]
    exact hs.jobs.apart_erase hjob
  refine ⟨view_congr hs.jobs ht.jobs hslot fun job' hne => ?_, ?_, hnext, hvalue⟩
  · have hjob' : job' ≠ job := fun heq => hne (heq ▸ rfl)
    rw [hjobs, List.mem_erase_of_ne hjob']
  · rw [SessTable.view, SessTable.view, hs.jobs.stageAt hjob, hstage, hholder]
    exact hstep

theorem TableStep.same (hsess : t.sessions = s.sessions) (hholder : t.holder = s.holder)
    (hjobs : t.jobs = s.jobs) (hnext : s.next = t.next) (hvalue : t.uniqueVal = s.uniqueVal)
    (fd : ℕ) : TableStep s t fd := by
  have hview (k : ℕ) : t.view k = s.view k := by
    simp only [SessTable.view, SessTable.stageAt, hsess, hholder, hjobs]
  exact ⟨fun k _ => hview k, (hview fd).symm ▸ .same, hnext, hvalue⟩

theorem TableStep.setOn {x : Session} {stage : SessStage} (hs : SessInv cfg s)
    (ht : SessInv cfg ((s.setSession job.fd x).goOn job stage)) (hjob : job ∈ s.jobs)
    (hstep : SlotStep ⟨s.sessions job.fd, s.holder job.fd, some job.stage⟩
      ⟨x, s.holder job.fd, some stage⟩) :
    TableStep s ((s.setSession job.fd x).goOn job stage) job.fd := by
  refine .goOn hs ht hjob (SessInv.onlySlot_update rfl (fun _ _ => rfl) rfl) rfl rfl rfl rfl ?_
  have hself : ((s.setSession job.fd x).goOn job stage).sessions job.fd = x :=
    Function.update_self ..
  rw [hself]
  exact hstep

theorem TableStep.sameOn {stage : SessStage} (hs : SessInv cfg s)
    (ht : SessInv cfg (s.goOn job stage)) (hjob : job ∈ s.jobs)
    (hmove : Moves (s.sessions job.fd) job.stage stage) :
    TableStep s (s.goOn job stage) job.fd :=
  .goOn hs ht hjob ⟨fun _ _ => rfl, fun _ _ => rfl, fun _ _ => rfl⟩ rfl rfl rfl rfl
    (.go job.stage stage _ rfl hmove (.refl _))

theorem TableStep.modOn {stage : SessStage} {num : ℤ} (hs : SessInv cfg s)
    (ht : SessInv cfg ((s.modSessionCnt cfg job.fd num).goOn job stage)) (hjob : job ∈ s.jobs)
    (hmove : Moves (s.sessions job.fd) job.stage stage) :
    TableStep s ((s.modSessionCnt cfg job.fd num).goOn job stage) job.fd := by
  refine .goOn hs ht hjob SessInv.onlySlot_goOn_mod ?_ ?_ ?_ ?_
    (.go job.stage stage _ rfl hmove ?_)
  · simp [SessTable.goOn]
  · simp [SessTable.goOn]
  · simp [SessTable.goOn]
  · rw [SessTable.goOn, SessTable.modSessionCnt_eq]
  · simp only [SessTable.goOn, SessTable.modSessionCnt_sessions]
    exact .refl _

theorem TableStep.setDone {x : Session} (hs : SessInv cfg s)
    (ht : SessInv cfg ((s.setSession job.fd x).dropJob job)) (hjob : job ∈ s.jobs)
    (hready : ∀ call, job.stage ≠ .taken call) (hx : SameSession x (s.sessions job.fd)) :
    TableStep s ((s.setSession job.fd x).dropJob job) job.fd := by
  refine .drop hs ht hjob (SessInv.onlySlot_update rfl (fun _ _ => rfl) rfl) rfl rfl rfl rfl ?_
  have hself : ((s.setSession job.fd x).dropJob job).sessions job.fd = x :=
    Function.update_self ..
  rw [hself]
  exact .done job.stage x rfl hready hx

/-- A section of a job that has its value. -/
theorem runJob_step {ok : Bool} (hs : SessInv cfg s) (hjob : job ∈ s.jobs)
    (hready : ∀ call, job.stage ≠ .taken call) (hrun : runJob cfg s job ok = some t) :
    TableStep s t job.fd := by
  have ht := hs.runJob hjob hrun
  have hfit := hs.jobs.fit job hjob
  obtain ⟨conn, fd, stage⟩ := job
  cases stage with
  | taken call => exact absurd rfl (hready call)
  | send call =>
      cases ok with
      | true =>
          obtain rfl := Option.some.inj hrun
          exact .sameOn hs ht hjob (.keep rfl rfl (by simp) Bool.noConfusion)
      | false =>
          obtain rfl := Option.some.inj hrun
          exact .setOn hs ht hjob (.go _ _ _ rfl (.plain rfl rfl rfl)
            ⟨rfl, rfl, rfl, rfl, rfl, rfl⟩)
  | wait call =>
      simp only [runJob] at hrun
      split_ifs at hrun with hnone hfail
      · obtain rfl := Option.some.inj hrun
        exact .setOn hs ht hjob (.go _ _ _ rfl (.plain rfl rfl rfl)
          ⟨rfl, rfl, rfl, rfl, rfl, rfl⟩)
      · obtain rfl := Option.some.inj hrun
        have hok : ok = true := by
          rw [← Bool.not_eq_false]
          exact fun heq => hfail (.inl heq)
        exact .sameOn hs ht hjob (.keep rfl rfl (by simp) fun _ => .inl
          ⟨fun heq => hnone ⟨hok, heq⟩, fun heq => hfail (.inr (.inl heq))⟩)
  | count call =>
      obtain rfl := Option.some.inj hrun
      exact .modOn hs ht hjob (.keep rfl rfl (by simp) fun _ => .inr rfl)
  | own call =>
      obtain rfl := Option.some.inj hrun
      exact .setDone hs ht hjob (by simp) ⟨rfl, rfl, rfl, rfl, rfl, rfl⟩
  | abort =>
      obtain rfl := Option.some.inj hrun
      exact .sameOn hs ht hjob (.plain rfl rfl rfl)
  | queued _ => exact absurd hrun (Option.some_ne_none t).symm
  | reply pid =>
      cases ok with
      | true =>
          obtain rfl := Option.some.inj hrun
          exact .setDone hs ht hjob (by simp) ⟨rfl, rfl, rfl, rfl, rfl, rfl⟩
      | false =>
          obtain rfl := Option.some.inj hrun
          exact .sameOn hs ht hjob (.plain rfl rfl rfl)
  | uncount =>
      obtain rfl := Option.some.inj hrun
      exact .modOn hs ht hjob (.plain rfl rfl rfl)
  | closing notify creator =>
      obtain rfl := Option.some.inj hrun
      exact .setOn hs ht hjob (.clear _ creator hfit.1 rfl hfit.1)
  | closed creator =>
      obtain rfl := Option.some.inj hrun
      exact .modOn hs ht hjob (.plain rfl rfl rfl)
  | free creator =>
      obtain rfl := Option.some.inj hrun
      refine .drop hs ht hjob ⟨fun k hk => ?_, fun _ _ => rfl, fun _ _ => rfl⟩ rfl rfl rfl rfl
        (.idle _ ?_)
      · simp [SessTable.endConn, SessTable.dropJob, SessTable.setStatus, SessTable.setSession, hk]
      · simp [SessTable.endConn, SessTable.dropJob, SessTable.setStatus, SessTable.setSession]

end TableStep

theorem hdcdrvAccept_step {service : ℕ} {pid : UInt64} (hs : SessInv cfg s)
    (h : hdcdrvAccept s service pid = some t) : ∃ fd, TableStep s t fd := by
  have ht := hs.accept h
  rw [hdcdrvAccept] at h
  split at h
  · exact absurd h (Option.some_ne_none t).symm
  · rename_i job hfind
    obtain rfl := Option.some.inj h
    have hjob : job ∈ s.jobs := List.mem_of_find?_eq_some hfind
    have hqueued : job.stage.service = some service := by
      simpa using List.find?_some hfind
    have hready : job.stage.takenBy = false := by
      cases hstage : job.stage <;> simp_all [SessStage.service, SessStage.takenBy]
    exact ⟨job.fd, .setOn hs ht hjob (.go _ _ _ rfl (.plain rfl rfl hready)
      ⟨rfl, rfl, rfl, rfl, rfl, rfl⟩)⟩

theorem hdcdrvClose_step {pid : UInt64} {permitted : Bool} {creator : Option UInt64}
    (hs : SessInv cfg s) (ht : SessInv cfg (hdcdrvClose cfg s fd pid permitted creator))
    (hapart : fd < cfg.maxLong + cfg.maxShort → (s.sessions fd).status ≠ .idle →
      (s.sessions fd).ownerPid = pid → permitted = true → ∀ job ∈ s.jobs, job.fd ≠ fd) :
    TableStep s (hdcdrvClose cfg s fd pid permitted creator) fd := by
  revert ht
  simp only [hdcdrvClose]
  split_ifs with hfd hstatus hpid
  · exact fun _ => .same rfl rfl rfl rfl rfl fd
  · exact fun _ => .same rfl rfl rfl rfl rfl fd
  · exact fun _ => .same rfl rfl rfl rfl rfl fd
  · intro ht
    push Not at hfd hstatus hpid
    have hapart := hapart hfd hstatus.1 hpid.1 (Bool.eq_true_of_not_eq_false hpid.2)
    have hslot : OnlySlot s { s.setStatus fd .closing with jobs := s.jobs ++
        [⟨s.holder fd, fd, .closing ((s.sessions fd).status = .conn) creator⟩] } fd :=
      SessInv.onlySlot_update rfl (fun _ _ => rfl) rfl
    refine ⟨view_congr hs.jobs ht.jobs hslot fun job hne => ?_, ?_, rfl, rfl⟩
    · have hjob : job ≠ ⟨s.holder fd, fd, .closing ((s.sessions fd).status = .conn) creator⟩ :=
        fun heq => hne (heq ▸ rfl)
      simp [hjob]
    · have hstage := ht.jobs.stageAt (List.mem_append_right s.jobs (List.mem_singleton_self _))
      rw [SessTable.view, SessTable.view, stageAt_none hapart, hstage]
      refine .close _ _ creator rfl hstatus.1 ?_
      simp only [SessTable.setStatus, SessTable.setSession, Function.update_self]
      exact .refl _

theorem closeNow_step (hs : SessInv cfg s) (ht : SessInv cfg (closeNow cfg s fd))
    (hapart : ∀ job ∈ s.jobs, job.fd ≠ fd) : TableStep s (closeNow cfg s fd)
      fd := by
  have hslot : OnlySlot s (closeNow cfg s fd) fd := by
    refine ⟨fun k hk => ?_, fun k hk => ?_, fun k _ => ?_⟩ <;>
      simp [closeNow, SessTable.endConn, SessTable.setStatus, SessTable.setSession, *]
  have hjobs : (closeNow cfg s fd).jobs = s.jobs := by
    simp [closeNow, SessTable.endConn, SessTable.setStatus, SessTable.setSession]
  refine ⟨view_congr hs.jobs ht.jobs hslot fun job _ => by rw [hjobs], ?_, ?_, ?_⟩
  · have hholder : (closeNow cfg s fd).holder = s.holder := by
      simp [closeNow, SessTable.endConn, SessTable.setStatus, SessTable.setSession]
    have hstage : (closeNow cfg s fd).stageAt fd = none := stageAt_none (by rwa [hjobs])
    rw [SessTable.view, SessTable.view, hholder, hstage]
    refine .idle _ ?_
    simp [closeNow, SessTable.endConn, SessTable.setStatus, SessTable.setSession]
  · simp [closeNow, SessTable.endConn, SessTable.setStatus, SessTable.setSession]
  · simp only [closeNow, SessTable.endConn, SessTable.setStatus, SessTable.setSession]
    rw [SessTable.modSessionCnt_eq]

/-! ## New connections -/

theorem view_give (hs : SessInv cfg s) (hidle : (s.sessions fd).status = .idle) (a b : ℕ)
    (stage : SessStage) :
    (∀ k, k ≠ fd → (SessInv.give s fd a b stage).view k = s.view k) ∧
      (SessInv.give s fd a b stage).view fd =
        ⟨{ s.sessions fd with status := .conn }, s.next, some stage⟩ := by
  have hapart := (hs.idle_unbound hidle).1
  have hnone := Keyed.get_eq_none.mpr hapart
  refine ⟨fun k hk => ?_, ?_⟩
  · have hget : Keyed.get SessJob.fd k (s.jobs ++ [(⟨s.next, fd, stage⟩ : SessJob)]) =
        Keyed.get SessJob.fd k s.jobs := by
      simp [Keyed.get, List.find?_append, Ne.symm hk]
    simp [SessTable.view, SessTable.stageAt, SessInv.give, SessTable.setStatus,
      SessTable.setSession, hk, hget]
  · have hget : Keyed.get SessJob.fd fd (s.jobs ++ [(⟨s.next, fd, stage⟩ : SessJob)]) =
        some ⟨s.next, fd, stage⟩ := by
      rw [Keyed.get, List.find?_append, ← Keyed.get, hnone]
      simp
    simp [SessTable.view, SessTable.stageAt, SessInv.give, SessTable.setStatus,
      SessTable.setSession, hget]

/-- Two open slots of a driver have different connections. -/
theorem SessInv.holder_inj (h : SessInv cfg s) {k : ℕ} (hfd : (s.sessions fd).status ≠ .idle)
    (hk : (s.sessions k).status ≠ .idle) (heq : s.holder k = s.holder fd) : k = fd := by
  have h1 : s.at (some fd) (s.holder fd) := ⟨hfd, rfl⟩
  have h2 : s.at (some k) (s.holder fd) := ⟨hk, heq⟩
  exact Option.some.inj (h.owners.place.unique h2 h1)

theorem SessInv.holder_lt (h : SessInv cfg s) (hfd : (s.sessions fd).status ≠ .idle) :
    s.holder fd < s.next := by
  have h1 : s.at (some fd) (s.holder fd) := ⟨hfd, rfl⟩
  exact h.owners.place.inside _ _ h1

theorem toNat_uniqueValue {u : UInt32} (h : u.toNat + 1 < 2 ^ 30) :
    (HDCDRV_SESSION_UNIQUE_VALUE_HOST_FLAG |||
      ((u + 1) &&& HDCDRV_SESSION_UNIQUE_VALUE_MASK)).toNat = 2 ^ 31 + (u.toNat + 1) := by
  have hadd : (u + 1).toNat = u.toNat + 1 := by
    rw [UInt32.toNat_add]
    exact Nat.mod_eq_of_lt (by simp; omega)
  have hmask : HDCDRV_SESSION_UNIQUE_VALUE_MASK.toNat = 2 ^ 30 - 1 := rfl
  have hflag : HDCDRV_SESSION_UNIQUE_VALUE_HOST_FLAG.toNat = 2 ^ 31 := rfl
  rw [UInt32.toNat_or, UInt32.toNat_and, hadd, hmask, hflag, Nat.and_two_pow_sub_one_eq_mod,
    Nat.mod_eq_of_lt h]
  have hor := Nat.two_pow_add_eq_or_of_lt (i := 31) (b := u.toNat + 1) (by omega) 1
  rw [Nat.mul_one] at hor
  exact hor.symm

/-- What the first section of a connect leaves in its slot. -/
structure Generated (s t : SessTable) (job : SessJob) (x : Session) (call : ConnectCall) :
    Prop where
  other : ∀ k, k ≠ job.fd → t.view k = s.view k
  view : t.view job.fd = ⟨x, job.conn, some (.send call)⟩
  next : s.next ≤ t.next
  counter : t.uniqueVal.toNat = s.uniqueVal.toNat + 1
  value : x.uniqueVal.toNat = 2 ^ 31 + (s.uniqueVal.toNat + 1)
  sent : call.uniqueVal = x.uniqueVal
  chans : call.chanId = x.chanId ∧ call.fastChanId = x.fastChanId
  remote : ¬x.Answered
  status : x.status = (s.sessions job.fd).status

theorem runJob_taken {job : SessJob} {call : ConnectCall} {ok : Bool} (hs : SessInv cfg s)
    (hjob : job ∈ s.jobs) (hstage : job.stage = .taken call)
    (hperiod : s.uniqueVal.toNat + 1 < 2 ^ 30) (hrun : runJob cfg s job ok = some t) :
    ∃ x call, Generated s t job x call := by
  have ht := hs.runJob hjob hrun
  obtain ⟨conn, fd, stage⟩ := job
  obtain rfl : stage = .taken call := hstage
  obtain rfl := Option.some.inj hrun
  have hholder : s.holder fd = conn := hs.jobs.holder _ hjob
  let u := HDCDRV_SESSION_UNIQUE_VALUE_HOST_FLAG |||
    ((s.uniqueVal + 1) &&& HDCDRV_SESSION_UNIQUE_VALUE_MASK)
  let call' : ConnectCall :=
    { call with uniqueVal := u, originPid := (s.sessions fd).createPid }
  let x : Session := { hdcdrvSessionInit { s.sessions fd with uniqueVal := u }
    HDCDRV_INVALID_VALUE call.devId with
      chanId := call.chanId, fastChanId := call.fastChanId, createPid := call.pid }
  let t : SessTable := ({ s with uniqueVal := s.uniqueVal + 1 }.setSession fd x).goOn
    ⟨conn, fd, .taken call⟩ (.send call')
  change SessInv _ t at ht
  have hx : t.sessions fd = x := Function.update_self ..
  have hslot : OnlySlot s t fd := SessInv.onlySlot_update rfl (fun _ _ => rfl) rfl
  have hmem : (⟨conn, fd, .send call'⟩ : SessJob) ∈ t.jobs :=
    List.mem_append_right _ (List.mem_singleton_self _)
  refine ⟨x, call', view_congr hs.jobs ht.jobs hslot fun job' hne => ?_, ?_, le_refl _, ?_,
    toNat_uniqueValue hperiod, rfl, ⟨rfl, rfl⟩, fun hans => hans.1 rfl, rfl⟩
  · exact mem_goOn_iff job' hne
  · change t.view fd = _
    rw [SessTable.view, hx, ht.jobs.stageAt hmem, ← hholder]
    rfl
  · change (s.uniqueVal + 1).toNat = _
    rw [UInt32.toNat_add]
    exact Nat.mod_eq_of_lt (by simp; omega)

theorem runJob_send {job : SessJob} {call : ConnectCall} {ok : Bool} (hs : SessInv cfg s)
    (hjob : job ∈ s.jobs) (hstage : job.stage = .send call)
    (hrun : runJob cfg s job ok = some t) :
    ∃ x st, t.view job.fd = ⟨x, s.holder job.fd, some st⟩ ∧ SameSession x (s.sessions job.fd) ∧
      ∀ call, st ≠ .send call := by
  have ht := hs.runJob hjob hrun
  obtain ⟨conn, fd, stage⟩ := job
  obtain rfl : stage = .send call := hstage
  cases ok with
  | true =>
      obtain rfl := Option.some.inj hrun
      have hmem : (⟨conn, fd, .wait call⟩ : SessJob) ∈ (s.goOn ⟨conn, fd, .send call⟩
        (.wait call)).jobs := List.mem_append_right _ (List.mem_singleton_self _)
      refine ⟨s.sessions fd, .wait call, ?_, .refl _, by simp⟩
      rw [SessTable.view, ht.jobs.stageAt hmem]
      rfl
  | false =>
      obtain rfl := Option.some.inj hrun
      have hmem : (⟨conn, fd, .free none⟩ : SessJob) ∈ ((s.setSession fd
        { s.sessions fd with createPid := call.originPid }).goOn ⟨conn, fd, .send call⟩
        (.free none)).jobs := List.mem_append_right _ (List.mem_singleton_self _)
      refine ⟨{ s.sessions fd with createPid := call.originPid }, .free none, ?_,
        ⟨rfl, rfl, rfl, rfl, rfl, rfl⟩, by simp⟩
      rw [SessTable.view, ht.jobs.stageAt hmem]
      simp [SessTable.goOn, SessTable.setSession]

/-- The session that a connect message starts. -/
structure StartedBy (msg : ConnectMsg) (x : Session) : Prop where
  status : x.status = .conn
  uniqueVal : x.uniqueVal = msg.uniqueVal
  remote : x.remoteSessionFd = msg.clientSession
  chans : msg.chanId ≠ HDCDRV_INVALID_CHAN_ID → msg.fastChanId ≠ HDCDRV_INVALID_CHAN_ID →
    x.chanId = msg.chanId ∧ x.fastChanId = msg.fastChanId

theorem hdcdrvCtrlMsgConnect_cases (cfg : SessionConfig) (s : SessTable) (msg : ConnectMsg)
    (short other : Bool) (listenPid : UInt64) (chans : ℕ × ℕ) :
    (hdcdrvCtrlMsgConnect cfg s msg short other listenPid chans).2 =
        { s with next := s.next + 1, freed := s.next :: s.freed } ∨
    ∃ fd a b x, (s.sessions fd).status = .idle ∧ StartedBy msg x ∧
      ((hdcdrvCtrlMsgConnect cfg s msg short other listenPid chans).2 =
        ((SessInv.give s fd a b (.queued msg.service)).setSession fd x).modSessionCnt cfg fd 1 ∨
      (hdcdrvCtrlMsgConnect cfg s msg short other listenPid chans).2 =
        (((SessInv.give s fd a b (.queued msg.service)).setSession fd x).dropJob
          ⟨s.next, fd, .queued msg.service⟩).endConn s.next fd) := by
  rw [hdcdrvCtrlMsgConnect]
  rcases SessInv.takeSlot_cases cfg s short other listenPid (.queued msg.service) with
    ⟨fd, a, b, -, hidle, heq⟩ | heq
  · rw [heq]
    have hstatus : ((SessInv.give s fd a b (.queued msg.service)).sessions fd).status = .conn := by
      simp [SessInv.give, SessTable.setStatus, SessTable.setSession]
    have hholder : (SessInv.give s fd a b (.queued msg.service)).holder fd = s.next := by
      simp [SessInv.give]
    dsimp only
    generalize hpair : (if msg.fastChanId ≠ HDCDRV_INVALID_CHAN_ID ∧
      msg.chanId ≠ HDCDRV_INVALID_CHAN_ID then (msg.chanId, msg.fastChanId) else chans) = pair
    have hchans (hc : msg.chanId ≠ HDCDRV_INVALID_CHAN_ID)
        (hf : msg.fastChanId ≠ HDCDRV_INVALID_CHAN_ID) :
        pair.1 = msg.chanId ∧ pair.2 = msg.fastChanId := by
      rw [if_pos ⟨hf, hc⟩] at hpair
      exact hpair ▸ ⟨rfl, rfl⟩
    refine .inr ⟨fd, a, b, { hdcdrvSessionInit
      { (SessInv.give s fd a b (.queued msg.service)).sessions fd with
        uniqueVal := msg.uniqueVal } msg.clientSession msg.devId with
      chanId := pair.1, fastChanId := pair.2 }, hidle, ⟨hstatus, rfl, rfl, hchans⟩, ?_⟩
    split
    · exact .inl rfl
    · refine .inr ?_
      rw [← hholder]
      rfl
  · rw [heq]
    exact .inl rfl

theorem view_modSessionCnt {num : ℤ} (k : ℕ) : (s.modSessionCnt cfg fd num).view k = s.view k := by
  simp only [SessTable.view, SessTable.stageAt, SessTable.modSessionCnt_sessions,
    SessTable.modSessionCnt_holder, SessTable.modSessionCnt_jobs]

theorem view_setSession {x : Session} :
    (∀ k, k ≠ fd → (s.setSession fd x).view k = s.view k) ∧
      (s.setSession fd x).view fd = ⟨x, (s.view fd).conn, (s.view fd).stage⟩ := by
  refine ⟨fun k hk => ?_, ?_⟩
  · simp [SessTable.view, SessTable.stageAt, SessTable.setSession, hk]
  · simp [SessTable.view, SessTable.stageAt, SessTable.setSession]

theorem view_queue (hs : SessInv cfg s) (hidle : (s.sessions fd).status = .idle)
    (a b service : ℕ) (x : Session) :
    (∀ k, k ≠ fd → (((SessInv.give s fd a b (.queued service)).setSession fd x).modSessionCnt cfg
      fd 1).view k = s.view k) ∧
    (((SessInv.give s fd a b (.queued service)).setSession fd x).modSessionCnt cfg fd 1).view fd =
      ⟨x, s.next, some (.queued service)⟩ := by
  obtain ⟨hother, hself⟩ := view_give hs hidle a b (.queued service)
  refine ⟨fun k hk => ?_, ?_⟩
  · rw [view_modSessionCnt, view_setSession.1 k hk, hother k hk]
  · rw [view_modSessionCnt, view_setSession.2, hself]

theorem view_queueFail (hs : SessInv cfg s) (hidle : (s.sessions fd).status = .idle)
    (a b service : ℕ) (x : Session) :
    (∀ k, k ≠ fd → ((((SessInv.give s fd a b (.queued service)).setSession fd x).dropJob
      ⟨s.next, fd, .queued service⟩).endConn s.next fd).view k = s.view k) ∧
    ((((SessInv.give s fd a b (.queued service)).setSession fd x).dropJob
      ⟨s.next, fd, .queued service⟩).endConn s.next fd).view fd =
      ⟨{ x with status := .idle }, s.next, none⟩ := by
  have hapart := (hs.idle_unbound hidle).1
  have hjobs : ((((SessInv.give s fd a b (.queued service)).setSession fd x).dropJob
      ⟨s.next, fd, .queued service⟩).endConn s.next fd).jobs = s.jobs := by
    change (s.jobs ++ [(⟨s.next, fd, .queued service⟩ : SessJob)]).erase _ = s.jobs
    exact SessInv.erase_append_self hapart
  refine ⟨fun k hk => ?_, ?_⟩
  · rw [SessTable.view, SessTable.stageAt, hjobs]
    simp [SessTable.view, SessTable.stageAt, SessTable.endConn, SessTable.dropJob,
      SessTable.setStatus, SessTable.setSession, SessInv.give, hk]
  · rw [SessTable.view, stageAt_none (by rw [hjobs]; exact hapart)]
    simp [SessTable.endConn, SessTable.dropJob, SessTable.setStatus, SessTable.setSession,
      SessInv.give]

end OpiaiKernel.Hdc
