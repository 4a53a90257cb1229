import OpiaiKernel.Hdc.Session
import OpiaiKernel.Lib.KeyCount
import OpiaiKernel.Lib.Keyed
import OpiaiKernel.Lib.Placement
import Mathlib.Data.List.Range
import Mathlib.Data.List.Perm.Basic
import Mathlib.Tactic.Ring

/-!
# Owners and counts of the session slots

While no teardown starts on a slot that a connect, a queued session, an accept or another
teardown works on, each connection gives back its slot once, and the channels count the
sessions that are bound to them.
-/

namespace OpiaiKernel.Hdc

variable {cfg : SessionConfig} {s t : SessTable} {fd : ℕ}

/-! ## The slots and the jobs -/

def Session.Live (x : Session) : Prop := x.status = .conn ∨ x.status = .remoteClosed

def Session.ChansOk (cfg : SessionConfig) (x : Session) : Prop :=
  x.chanId < cfg.msgChanCnt x.devId ∧ x.fastChanId < cfg.msgChanCnt x.devId

theorem Session.Live.ne_idle {x : Session} (h : x.Live) : x.status ≠ .idle := by
  rcases h with h | h <;> simp [h]

theorem Session.Live.ne_closing {x : Session} (h : x.Live) : x.status ≠ .closing := by
  rcases h with h | h <;> simp [h]

theorem ne_of_unbound {bound : ℕ → Bool} {k : ℕ} (hfd : bound fd = false) (hk : bound k = true) :
    k ≠ fd := by
  rintro rfl
  rw [hfd] at hk
  exact Bool.noConfusion hk

/-- A slot that no job works on is idle, or its session is established. -/
def RestFit (cfg : SessionConfig) (x : Session) (bound : Bool) : Prop :=
  (x.status = .idle ∧ bound = false) ∨ (x.Live ∧ bound = true ∧ x.ChansOk cfg)

/-- What the next section of a job relies on. -/
def StageFit (cfg : SessionConfig) (x : Session) (bound : Bool) : SessStage → Prop
  | .taken _ | .abort => x.Live ∧ bound = false
  | .send _ | .wait _ => x.Live ∧ bound = false ∧
      (x.remoteSessionFd ≠ HDCDRV_INVALID_VALUE →
        x.remoteSessionFd ≠ HDCDRV_INVALID_REMOTE_SESSION_ID → x.ChansOk cfg)
  | .count _ => x.Live ∧ bound = false ∧ x.ChansOk cfg
  | .own _ | .queued _ | .reply _ | .uncount => x.Live ∧ bound = true ∧ x.ChansOk cfg
  | .closing _ _ | .closed _ => x.status = .closing ∧ bound = true ∧ x.ChansOk cfg
  | .free _ => x.status ≠ .idle ∧ bound = false

theorem StageFit.ne_idle {x : Session} {bound : Bool} {stage : SessStage}
    (h : StageFit cfg x bound stage) : x.status ≠ .idle := by
  cases stage <;> simp only [StageFit, Session.Live] at h <;> grind

structure JobsOk (cfg : SessionConfig) (s : SessTable) : Prop where
  uniq : Keyed.Uniq SessJob.fd s.jobs
  holder : ∀ job ∈ s.jobs, s.holder job.fd = job.conn
  fit : ∀ job ∈ s.jobs, StageFit cfg (s.sessions job.fd) (s.bound job.fd) job.stage
  rest : ∀ fd, (∀ job ∈ s.jobs, job.fd ≠ fd) → RestFit cfg (s.sessions fd) (s.bound fd)

/-- Only the slot `fd` differs. -/
structure OnlySlot (s t : SessTable) (fd : ℕ) : Prop where
  sessions : ∀ k, k ≠ fd → t.sessions k = s.sessions k
  bound : ∀ k, k ≠ fd → t.bound k = s.bound k
  holder : ∀ k, k ≠ fd → t.holder k = s.holder k

/-- The jobs on one slot change. -/
theorem JobsOk.change {rest : List SessJob} (h : JobsOk cfg s) (old new : Option SessJob)
    (hslot : OnlySlot s t fd) (hs : s.jobs.Perm (old.toList ++ rest))
    (ht : t.jobs.Perm (new.toList ++ rest)) (hapart : ∀ job ∈ rest, job.fd ≠ fd)
    (hnew : ∀ job ∈ new, job.fd = fd ∧ t.holder fd = job.conn ∧
      StageFit cfg (t.sessions fd) (t.bound fd) job.stage)
    (hnone : new = none → RestFit cfg (t.sessions fd) (t.bound fd))
    (hold : ∀ job ∈ old, job.fd = fd) : JobsOk cfg t := by
  have hmem (job : SessJob) : job ∈ t.jobs ↔ job ∈ new ∨ job ∈ rest := by
    rw [ht.mem_iff, List.mem_append, Option.mem_toList, Option.mem_def]
  have hrest (job : SessJob) (hjob : job ∈ rest) : job ∈ s.jobs := by
    rw [hs.mem_iff, List.mem_append]
    exact .inr hjob
  refine ⟨?_, ?_, ?_, ?_⟩
  · have huniq : Keyed.Uniq SessJob.fd rest := by
      have h' := h.uniq.perm hs
      cases old with
      | none => exact h'
      | some job => exact h'.tail
    refine Keyed.Uniq.perm ?_ ht.symm
    cases new with
    | none => exact huniq
    | some job => exact huniq.cons fun b hb => (hnew job rfl).1 ▸ hapart b hb
  · intro job hjob
    rcases (hmem job).mp hjob with hj | hj
    · obtain ⟨rfl, hholder, -⟩ := hnew job hj
      exact hholder
    · rw [hslot.holder job.fd (hapart job hj)]
      exact h.holder job (hrest job hj)
  · intro job hjob
    rcases (hmem job).mp hjob with hj | hj
    · obtain ⟨rfl, -, hfit⟩ := hnew job hj
      exact hfit
    · rw [hslot.sessions job.fd (hapart job hj), hslot.bound job.fd (hapart job hj)]
      exact h.fit job (hrest job hj)
  · intro k hk
    by_cases hne : k = fd
    · subst hne
      cases new with
      | none => exact hnone rfl
      | some job => exact absurd (hnew job rfl).1 (hk job ((hmem job).mpr (.inl rfl)))
    · rw [hslot.sessions k hne, hslot.bound k hne]
      refine h.rest k fun job hjob => ?_
      rw [hs.mem_iff, List.mem_append, Option.mem_toList] at hjob
      rcases hjob with hj | hj
      · exact fun heq => hne (heq ▸ hold job hj)
      · exact hk job ((hmem job).mpr (.inr hj))

/-- The slot `fd` changes in a way that every job can bear. -/
theorem JobsOk.frame (h : JobsOk cfg s) (hslot : OnlySlot s t fd) (hjobs : t.jobs = s.jobs)
    (hholder : t.holder = s.holder) (hbound : t.bound fd = s.bound fd)
    (hfit : ∀ stage, StageFit cfg (s.sessions fd) (s.bound fd) stage →
      StageFit cfg (t.sessions fd) (s.bound fd) stage)
    (hrest : RestFit cfg (s.sessions fd) (s.bound fd) →
      RestFit cfg (t.sessions fd) (s.bound fd)) : JobsOk cfg t := by
  refine ⟨hjobs ▸ h.uniq, ?_, ?_, ?_⟩
  · rw [hjobs, hholder]
    exact h.holder
  · intro job hjob
    rw [hjobs] at hjob
    by_cases heq : job.fd = fd
    · rw [heq, hbound]
      exact hfit _ (heq ▸ h.fit job hjob)
    · rw [hslot.sessions _ heq, hslot.bound _ heq]
      exact h.fit job hjob
  · intro k hk
    rw [hjobs] at hk
    by_cases heq : k = fd
    · subst heq
      rw [hbound]
      exact hrest (h.rest k hk)
    · rw [hslot.sessions k heq, hslot.bound k heq]
      exact h.rest k hk

/-! ## The connections -/

/-- A connection is in its slot, or has given it back. -/
def SessTable.at (s : SessTable) : Option ℕ → ℕ → Prop
  | some fd, conn => (s.sessions fd).status ≠ .idle ∧ s.holder fd = conn
  | none, conn => conn ∈ s.freed

structure OwnersOk (cfg : SessionConfig) (s : SessTable) : Prop where
  place : Placement (· < s.next) s.at
  once : s.freed.Nodup
  idled : ∀ e ∈ s.idled, e.2 = some e.1
  inside : ∀ fd, (s.sessions fd).status ≠ .idle → fd < cfg.maxLong + cfg.maxShort

theorem OwnersOk.keep (h : OwnersOk cfg s)
    (hidle : ∀ k, (t.sessions k).status = .idle ↔ (s.sessions k).status = .idle)
    (hholder : t.holder = s.holder) (hnext : t.next = s.next) (hfreed : t.freed = s.freed)
    (hidled : t.idled = s.idled) : OwnersOk cfg t := by
  refine ⟨?_, hfreed ▸ h.once, hidled ▸ h.idled, ?_⟩
  · rw [hnext]
    refine h.place.congr fun p conn => ?_
    cases p with
    | none => simp only [SessTable.at, hfreed]
    | some fd => simp only [SessTable.at, ne_eq, hidle, hholder]
  · intro k hk
    exact h.inside k fun heq => hk ((hidle k).mpr heq)

/-- A new connection takes the slot `fd`. -/
theorem OwnersOk.take (h : OwnersOk cfg s) (hs : (s.sessions fd).status = .idle)
    (ht : (t.sessions fd).status ≠ .idle) (hslot : OnlySlot s t fd)
    (hholder : t.holder fd = s.next) (hnext : t.next = s.next + 1) (hfreed : t.freed = s.freed)
    (hidled : t.idled = s.idled) (hfd : fd < cfg.maxLong + cfg.maxShort) : OwnersOk cfg t := by
  have hout (p : Option ℕ) : ¬s.at p s.next := fun hp =>
    absurd (h.place.inside p s.next hp) (lt_irrefl s.next)
  refine ⟨?_, hfreed ▸ h.once, hidled ▸ h.idled, ?_⟩
  · refine h.place.insert (q := some fd) (a := s.next) ?_ ⟨ht, hholder⟩ ?_ ?_
    · intro conn
      rw [hnext]
      omega
    · intro p hp
      cases p with
      | none =>
          refine absurd ?_ (hout none)
          simpa only [SessTable.at, hfreed] using hp
      | some k =>
          by_contra hne
          have hk : k ≠ fd := fun heq => hne (heq ▸ rfl)
          refine hout (some k) ?_
          simpa only [SessTable.at, hslot.sessions k hk, hslot.holder k hk] using hp
    · intro p conn hconn
      cases p with
      | none => simp only [SessTable.at, hfreed]
      | some k =>
          by_cases hk : k = fd
          · subst hk
            simp [SessTable.at, hs, hholder, hconn.symm]
          · simp only [SessTable.at, hslot.sessions k hk, hslot.holder k hk]
  · intro k hk
    by_cases heq : k = fd
    · exact heq ▸ hfd
    · exact h.inside k (hslot.sessions k heq ▸ hk)

/-- A new connection gets no slot. -/
theorem OwnersOk.refuse (h : OwnersOk cfg s) (hsess : t.sessions = s.sessions)
    (hholder : t.holder = s.holder) (hnext : t.next = s.next + 1)
    (hfreed : t.freed = s.next :: s.freed) (hidled : t.idled = s.idled) : OwnersOk cfg t := by
  have hout (p : Option ℕ) : ¬s.at p s.next := fun hp =>
    absurd (h.place.inside p s.next hp) (lt_irrefl s.next)
  refine ⟨?_, ?_, hidled ▸ h.idled, hsess ▸ h.inside⟩
  · refine h.place.insert (q := none) (a := s.next) ?_ ?_ ?_ ?_
    · intro conn
      rw [hnext]
      omega
    · simp [SessTable.at, hfreed]
    · intro p hp
      cases p with
      | none => rfl
      | some k =>
          refine absurd ?_ (hout (some k))
          simpa only [SessTable.at, hsess, hholder] using hp
    · intro p conn hconn
      cases p with
      | none => simp [SessTable.at, hfreed, hconn]
      | some k => simp only [SessTable.at, hsess, hholder]
  · rw [hfreed]
    exact List.nodup_cons.mpr ⟨hout none, h.once⟩

/-- The connection in the slot `fd` gives it back. -/
theorem OwnersOk.free (h : OwnersOk cfg s) (hs : (s.sessions fd).status ≠ .idle)
    (ht : (t.sessions fd).status = .idle) (hslot : OnlySlot s t fd) (hnext : t.next = s.next)
    (hfreed : t.freed = s.holder fd :: s.freed)
    (hidled : t.idled = (s.holder fd, some (s.holder fd)) :: s.idled) : OwnersOk cfg t := by
  have hat : s.at (some fd) (s.holder fd) := ⟨hs, rfl⟩
  have hout : s.holder fd ∉ s.freed := fun hmem =>
    Option.some_ne_none fd (h.place.unique hat (q := none) hmem)
  refine ⟨?_, ?_, ?_, ?_⟩
  · rw [hnext]
    refine h.place.move (p := some fd) (q := none) hat ?_ ?_ ?_
    · simp [SessTable.at, ht]
    · simp [SessTable.at, hfreed]
    · intro p conn hp
      cases p with
      | none =>
          have hne : conn ≠ s.holder fd := fun heq => (hp heq).2 rfl
          simp [SessTable.at, hfreed, hne]
      | some k =>
          by_cases hk : k = fd
          · subst hk
            have hne : s.holder k ≠ conn := fun heq => (hp heq.symm).1 rfl
            simp [SessTable.at, ht, hne]
          · simp only [SessTable.at, hslot.sessions k hk, hslot.holder k hk]
  · rw [hfreed]
    exact List.nodup_cons.mpr ⟨hout, h.once⟩
  · rw [hidled]
    exact List.forall_mem_cons.mpr ⟨rfl, h.idled⟩
  · intro k hk
    by_cases heq : k = fd
    · subst heq
      exact absurd ht hk
    · exact h.inside k (hslot.sessions k heq ▸ hk)

/-! ## The counts -/

/-- The slot is bound to the channel, as its normal or as its fast one. -/
def SessTable.uses (s : SessTable) (of : Session → ℕ) (dev chan k : ℕ) : Bool :=
  s.bound k && (s.sessions k).devId == dev && of (s.sessions k) == chan

def SessTable.users (cfg : SessionConfig) (s : SessTable) (of : Session → ℕ) (dev chan : ℕ) : ℕ :=
  (List.range (cfg.maxLong + cfg.maxShort)).countP (s.uses of dev chan)

def CountOk (cfg : SessionConfig) (s : SessTable) : Prop :=
  ∀ dev chan, s.sessionCnt dev chan =
    s.users cfg Session.chanId dev chan + s.users cfg Session.fastChanId dev chan

theorem CountOk.keep (h : CountOk cfg s) (hcnt : t.sessionCnt = s.sessionCnt)
    (hbound : t.bound = s.bound)
    (hsess : ∀ k, s.bound k = true → (t.sessions k).devId = (s.sessions k).devId ∧
      (t.sessions k).chanId = (s.sessions k).chanId ∧
      (t.sessions k).fastChanId = (s.sessions k).fastChanId) : CountOk cfg t := by
  have huses (of : Session → ℕ) (dev chan : ℕ)
      (hof : ∀ k, s.bound k = true → of (t.sessions k) = of (s.sessions k)) :
      t.users cfg of dev chan = s.users cfg of dev chan := by
    refine KeyCount.congr fun k _ => ?_
    cases hk : s.bound k with
    | false => simp [SessTable.uses, hbound, hk]
    | true => simp [SessTable.uses, hbound, hk, (hsess k hk).1, hof k hk]
  intro dev chan
  rw [hcnt, huses _ dev chan fun k hk => (hsess k hk).2.1,
    huses _ dev chan fun k hk => (hsess k hk).2.2]
  exact h dev chan

/-- The slot `fd` is bound in `t` and not in `s`. -/
theorem users_bind {of : Session → ℕ} {dev chan : ℕ} (hslot : OnlySlot s t fd)
    (hs : s.bound fd = false) (ht : t.bound fd = true) (hfd : fd < cfg.maxLong + cfg.maxShort) :
    (t.users cfg of dev chan : ℤ) = s.users cfg of dev chan +
      if (t.sessions fd).devId = dev ∧ of (t.sessions fd) = chan then 1 else 0 := by
  have hother (k : ℕ) (hk : k ≠ fd) : t.uses of dev chan k = s.uses of dev chan k := by
    simp only [SessTable.uses, hslot.bound k hk, hslot.sessions k hk]
  have hout : s.uses of dev chan fd = false := by simp [SessTable.uses, hs]
  split_ifs with h
  · have hin : t.uses of dev chan fd = true := by simp [SessTable.uses, ht, h.1, h.2]
    have hgain := KeyCount.gain List.nodup_range (List.mem_range.mpr hfd) hout hin
      fun k _ hk => hother k hk
    simp only [SessTable.users, hgain, Nat.cast_add, Nat.cast_one]
  · have hin : t.uses of dev chan fd = false := by
      simpa [SessTable.uses, ht] using h
    have hsame : t.users cfg of dev chan = s.users cfg of dev chan := by
      refine KeyCount.congr fun k _ => ?_
      by_cases hk : k = fd
      · rw [hk, hin, hout]
      · exact hother k hk
    simp [hsame]

/-- What `hdcdrv_mod_msg_chan_session_cnt` adds to a channel. -/
def chanShare (x : Session) (dev chan : ℕ) : ℤ :=
  (if x.devId = dev ∧ x.chanId = chan then 1 else 0) +
    (if x.devId = dev ∧ x.fastChanId = chan then 1 else 0)

theorem CountOk.bind (h : CountOk cfg s) (hslot : OnlySlot s t fd) (hs : s.bound fd = false)
    (ht : t.bound fd = true) (hfd : fd < cfg.maxLong + cfg.maxShort)
    (hcnt : ∀ dev chan, t.sessionCnt dev chan =
      s.sessionCnt dev chan + chanShare (t.sessions fd) dev chan) : CountOk cfg t := by
  intro dev chan
  rw [hcnt, h dev chan, users_bind hslot hs ht hfd, users_bind hslot hs ht hfd, chanShare]
  omega

theorem CountOk.unbind (h : CountOk cfg s) (hslot : OnlySlot t s fd) (hs : s.bound fd = true)
    (ht : t.bound fd = false) (hfd : fd < cfg.maxLong + cfg.maxShort)
    (hcnt : ∀ dev chan, t.sessionCnt dev chan =
      s.sessionCnt dev chan - chanShare (s.sessions fd) dev chan) : CountOk cfg t := by
  intro dev chan
  rw [hcnt, h dev chan, users_bind hslot ht hs hfd, users_bind hslot ht hs hfd, chanShare]
  omega

theorem update_add_self (cnt : ℕ → ℤ) (a c : ℕ) (num : ℤ) :
    Function.update cnt a (cnt a + num) c = cnt c + num * if a = c then 1 else 0 := by
  by_cases h : a = c
  · subst h
    simp
  · simp [h, Ne.symm h]

theorem modSessionCnt_sessionCnt (h : (s.sessions fd).ChansOk cfg) (num : ℤ) (dev chan : ℕ) :
    (s.modSessionCnt cfg fd num).sessionCnt dev chan =
      s.sessionCnt dev chan + num * chanShare (s.sessions fd) dev chan := by
  have hle := cfg.cnt_le (s.sessions fd).devId
  have hguard : (s.sessions fd).chanId < HDCDRV_SUPPORT_MAX_DEV_MSG_CHAN ∧
      (s.sessions fd).fastChanId < HDCDRV_SUPPORT_MAX_DEV_MSG_CHAN ∧
      (s.sessions fd).chanId < cfg.msgChanCnt (s.sessions fd).devId ∧
      (s.sessions fd).fastChanId < cfg.msgChanCnt (s.sessions fd).devId :=
    ⟨h.1.trans_le hle, h.2.trans_le hle, h⟩
  rw [SessTable.modSessionCnt, if_pos hguard]
  by_cases hdev : (s.sessions fd).devId = dev
  · subst hdev
    simp only [Function.update_self, chanShare, true_and]
    rw [update_add_self, update_add_self]
    ring
  · simp [chanShare, hdev, Ne.symm hdev]

/-! ## Sections of the jobs -/

structure SessInv (cfg : SessionConfig) (s : SessTable) : Prop where
  jobs : JobsOk cfg s
  owners : OwnersOk cfg s
  count : CountOk cfg s

namespace SessTable

theorem setSession_self (s : SessTable) (fd : ℕ) : s.setSession fd (s.sessions fd) = s := by
  simp [setSession]

section modSessionCnt

variable (cfg : SessionConfig) (s : SessTable) (fd : ℕ) (num : ℤ)

/-- Only the counts and the mark of the slot change. -/
theorem modSessionCnt_eq : s.modSessionCnt cfg fd num =
    { s with
      sessionCnt := (s.modSessionCnt cfg fd num).sessionCnt
      bound := Function.update s.bound fd (0 < num) } := by
  simp only [modSessionCnt]
  split <;> rfl

@[simp] theorem modSessionCnt_bound :
    (s.modSessionCnt cfg fd num).bound = Function.update s.bound fd (0 < num) := by
  rw [modSessionCnt_eq]

@[simp] theorem modSessionCnt_sessions : (s.modSessionCnt cfg fd num).sessions = s.sessions := by
  rw [modSessionCnt_eq]

@[simp] theorem modSessionCnt_jobs : (s.modSessionCnt cfg fd num).jobs = s.jobs := by
  rw [modSessionCnt_eq]

@[simp] theorem modSessionCnt_holder : (s.modSessionCnt cfg fd num).holder = s.holder := by
  rw [modSessionCnt_eq]

@[simp] theorem modSessionCnt_next : (s.modSessionCnt cfg fd num).next = s.next := by
  rw [modSessionCnt_eq]

@[simp] theorem modSessionCnt_freed : (s.modSessionCnt cfg fd num).freed = s.freed := by
  rw [modSessionCnt_eq]

@[simp] theorem modSessionCnt_idled : (s.modSessionCnt cfg fd num).idled = s.idled := by
  rw [modSessionCnt_eq]

end modSessionCnt

end SessTable

theorem JobsOk.apart_erase {job : SessJob} (h : JobsOk cfg s) (hjob : job ∈ s.jobs) :
    ∀ b ∈ s.jobs.erase job, b.fd ≠ job.fd := fun _ hb =>
  (h.uniq.perm (List.perm_cons_erase hjob)).ne_of_tail hb

/-- A job goes on, or is done when it has no next stage. -/
theorem JobsOk.advance {job : SessJob} (h : JobsOk cfg s) (stage : Option SessStage)
    (hjob : job ∈ s.jobs) (hslot : OnlySlot s t job.fd) (hholder : t.holder = s.holder)
    (ht : t.jobs = s.jobs.erase job ++ (stage.map fun st => { job with stage := st }).toList)
    (hfit : ∀ st ∈ stage, StageFit cfg (t.sessions job.fd) (t.bound job.fd) st)
    (hrest : stage = none → RestFit cfg (t.sessions job.fd) (t.bound job.fd)) :
    JobsOk cfg t := by
  refine h.change (some job) _ hslot (List.perm_cons_erase hjob)
    (ht ▸ List.perm_append_comm) (h.apart_erase hjob) ?_ ?_ ?_
  · intro b hb
    obtain ⟨st, hst, rfl⟩ := Option.map_eq_some_iff.mp hb
    exact ⟨rfl, hholder ▸ h.holder job hjob, hfit st hst⟩
  · exact fun hnone => hrest (Option.map_eq_none_iff.mp hnone)
  · rintro b ⟨⟩
    rfl

/-- A job starts on a slot without one. -/
theorem JobsOk.start (h : JobsOk cfg s) (job : SessJob) (hapart : ∀ b ∈ s.jobs, b.fd ≠ job.fd)
    (hslot : OnlySlot s t job.fd) (ht : t.jobs = s.jobs ++ [job])
    (hholder : t.holder job.fd = job.conn)
    (hfit : StageFit cfg (t.sessions job.fd) (t.bound job.fd) job.stage) : JobsOk cfg t := by
  refine h.change none (some job) hslot (List.Perm.refl _)
    (ht ▸ List.perm_append_comm) hapart ?_ ?_ ?_
  · rintro b ⟨⟩
    exact ⟨rfl, hholder, hfit⟩
  · exact fun hnone => absurd hnone (Option.some_ne_none job)
  · exact fun b hb => absurd hb (Option.not_mem_none b)

namespace SessInv

variable {job : SessJob} {x : Session} {stage : SessStage}

/-- What a section may write without touching the status, or the channels of a bound slot. -/
structure Writes (s : SessTable) (fd : ℕ) (x : Session) : Prop where
  status : x.status = (s.sessions fd).status
  chans : s.bound fd = true → x.devId = (s.sessions fd).devId ∧
    x.chanId = (s.sessions fd).chanId ∧ x.fastChanId = (s.sessions fd).fastChanId

theorem Writes.owners (hx : Writes s fd x) (h : OwnersOk cfg s) (ht : t.sessions =
    Function.update s.sessions fd x) (hholder : t.holder = s.holder) (hnext : t.next = s.next)
    (hfreed : t.freed = s.freed) (hidled : t.idled = s.idled) : OwnersOk cfg t := by
  refine h.keep (fun k => ?_) hholder hnext hfreed hidled
  rw [ht]
  by_cases hk : k = fd
  · subst hk
    rw [Function.update_self, hx.status]
  · rw [Function.update_of_ne hk]

theorem Writes.count (hx : Writes s fd x) (h : CountOk cfg s) (ht : t.sessions =
    Function.update s.sessions fd x) (hcnt : t.sessionCnt = s.sessionCnt)
    (hbound : t.bound = s.bound) : CountOk cfg t := by
  refine h.keep hcnt hbound fun k hk => ?_
  rw [ht]
  by_cases hkf : k = fd
  · subst hkf
    simpa only [Function.update_self] using hx.chans hk
  · simp only [Function.update_of_ne hkf, and_self]

theorem onlySlot_update (hsess : t.sessions = Function.update s.sessions fd x)
    (hbound : ∀ k, k ≠ fd → t.bound k = s.bound k) (hholder : t.holder = s.holder) :
    OnlySlot s t fd :=
  ⟨fun k hk => by rw [hsess, Function.update_of_ne hk], hbound, fun k _ => by rw [hholder]⟩

theorem goOn (h : SessInv cfg s) (hjob : job ∈ s.jobs) (hx : Writes s job.fd x)
    (hfit : StageFit cfg x (s.bound job.fd) stage) :
    SessInv cfg ((s.setSession job.fd x).goOn job stage) where
  jobs := by
    refine h.jobs.advance (some stage) hjob
      (onlySlot_update rfl (fun _ _ => rfl) rfl) rfl rfl ?_ nofun
    rintro st ⟨⟩
    simpa only [SessTable.goOn, SessTable.setSession, Function.update_self] using hfit
  owners := hx.owners h.owners rfl rfl rfl rfl rfl
  count := hx.count h.count rfl rfl rfl

theorem goOn_same (h : SessInv cfg s) (hjob : job ∈ s.jobs)
    (hfit : StageFit cfg (s.sessions job.fd) (s.bound job.fd) stage) :
    SessInv cfg (s.goOn job stage) := by
  have hx : Writes s job.fd (s.sessions job.fd) := ⟨rfl, fun _ => ⟨rfl, rfl, rfl⟩⟩
  simpa only [SessTable.setSession_self] using h.goOn hjob hx hfit

theorem drop (h : SessInv cfg s) (hjob : job ∈ s.jobs) (hx : Writes s job.fd x)
    (hfit : RestFit cfg x (s.bound job.fd)) :
    SessInv cfg ((s.setSession job.fd x).dropJob job) where
  jobs := by
    refine h.jobs.advance none hjob (onlySlot_update rfl (fun _ _ => rfl) rfl) rfl
      (List.append_nil _).symm nofun fun _ => ?_
    simpa only [SessTable.dropJob, SessTable.setSession, Function.update_self] using hfit
  owners := hx.owners h.owners rfl rfl rfl rfl rfl
  count := hx.count h.count rfl rfl rfl

theorem onlySlot_goOn_mod {num : ℤ} :
    OnlySlot s ((s.modSessionCnt cfg job.fd num).goOn job stage) job.fd where
  sessions k _ := by simp [SessTable.goOn]
  bound k hk := by simp [SessTable.goOn, hk]
  holder k _ := by simp [SessTable.goOn]

/-- The channels of the slot are counted, or no longer counted. -/
theorem goOn_mod {num : ℤ} (h : SessInv cfg s) (hjob : job ∈ s.jobs)
    (hcount : CountOk cfg ((s.modSessionCnt cfg job.fd num).goOn job stage))
    (hfit : StageFit cfg (s.sessions job.fd) (0 < num) stage) :
    SessInv cfg ((s.modSessionCnt cfg job.fd num).goOn job stage) where
  jobs := by
    refine h.jobs.advance (some stage) hjob onlySlot_goOn_mod ?_ ?_ ?_ nofun
    · simp [SessTable.goOn]
    · simp [SessTable.goOn]
    · rintro st ⟨⟩
      simpa [SessTable.goOn] using hfit
  owners := by
    refine h.owners.keep ?_ ?_ ?_ ?_ ?_ <;> simp [SessTable.goOn]
  count := hcount

theorem goOn_bind (h : SessInv cfg s) (hjob : job ∈ s.jobs) (hs : s.bound job.fd = false)
    (hchans : (s.sessions job.fd).ChansOk cfg)
    (hfit : StageFit cfg (s.sessions job.fd) true stage) :
    SessInv cfg ((s.modSessionCnt cfg job.fd 1).goOn job stage) := by
  refine h.goOn_mod hjob (h.count.bind onlySlot_goOn_mod hs ?_ ?_ fun dev chan => ?_) hfit
  · simp [SessTable.goOn]
  · exact h.owners.inside _ (h.jobs.fit job hjob).ne_idle
  · simp [SessTable.goOn, modSessionCnt_sessionCnt hchans]

theorem OnlySlot.symm (h : OnlySlot s t fd) : OnlySlot t s fd :=
  ⟨fun k hk => (h.sessions k hk).symm, fun k hk => (h.bound k hk).symm,
    fun k hk => (h.holder k hk).symm⟩

theorem goOn_unbind (h : SessInv cfg s) (hjob : job ∈ s.jobs) (hs : s.bound job.fd = true)
    (hchans : (s.sessions job.fd).ChansOk cfg)
    (hfit : StageFit cfg (s.sessions job.fd) false stage) :
    SessInv cfg ((s.modSessionCnt cfg job.fd (-1)).goOn job stage) := by
  refine h.goOn_mod hjob
    (h.count.unbind (OnlySlot.symm onlySlot_goOn_mod) hs ?_ ?_ fun dev chan => ?_) hfit
  · simp [SessTable.goOn]
  · exact h.owners.inside _ (h.jobs.fit job hjob).ne_idle
  · simp [SessTable.goOn, modSessionCnt_sessionCnt hchans]
    ring

/-- A job gives the slot back. -/
theorem endJob (h : SessInv cfg s) (hjob : job ∈ s.jobs) (hx : Writes s job.fd x)
    (hs : s.bound job.fd = false) :
    SessInv cfg (((s.setSession job.fd x).dropJob job).endConn job.conn job.fd) := by
  have hne := (h.jobs.fit job hjob).ne_idle
  have hslot : OnlySlot s (((s.setSession job.fd x).dropJob job).endConn job.conn job.fd)
      job.fd := by
    refine ⟨fun k hk => ?_, fun k _ => rfl, fun k _ => rfl⟩
    simp [SessTable.endConn, SessTable.dropJob, SessTable.setStatus, SessTable.setSession, hk]
  have hidle : ((((s.setSession job.fd x).dropJob job).endConn job.conn job.fd).sessions
      job.fd).status = .idle := by
    simp [SessTable.endConn, SessTable.dropJob, SessTable.setStatus, SessTable.setSession]
  refine ⟨?_, ?_, ?_⟩
  · exact h.jobs.advance none hjob hslot rfl (List.append_nil _).symm nofun fun _ =>
      .inl ⟨hidle, hs⟩
  · refine h.owners.free hne hidle hslot rfl ?_ ?_
    · rw [h.jobs.holder job hjob]
      rfl
    · simp [SessTable.endConn, SessTable.dropJob, SessTable.setSession, hx.status, hne,
        h.jobs.holder job hjob]
  · refine h.count.keep rfl rfl fun k hk => ?_
    rw [hslot.sessions k (ne_of_unbound hs hk)]
    exact ⟨rfl, rfl, rfl⟩

theorem runJob {ok : Bool} (h : SessInv cfg s) (hjob : job ∈ s.jobs)
    (ht : Hdc.runJob cfg s job ok = some t) : SessInv cfg t := by
  have hfit := h.jobs.fit job hjob
  have hkeep (x : Session) (hstatus : x.status = (s.sessions job.fd).status)
      (hdev : x.devId = (s.sessions job.fd).devId)
      (hchan : x.chanId = (s.sessions job.fd).chanId)
      (hfast : x.fastChanId = (s.sessions job.fd).fastChanId) : Writes s job.fd x :=
    ⟨hstatus, fun _ => ⟨hdev, hchan, hfast⟩⟩
  obtain ⟨conn, fd, stage⟩ := job
  cases stage with
  | taken call =>
      obtain ⟨hlive, hunbound⟩ := hfit
      obtain rfl := Option.some.inj ht
      have hs : SessInv cfg { s with uniqueVal := s.uniqueVal + 1 } :=
        ⟨⟨h.jobs.uniq, h.jobs.holder, h.jobs.fit, h.jobs.rest⟩,
          h.owners.keep (fun _ => Iff.rfl) rfl rfl rfl rfl,
          h.count.keep rfl rfl fun _ _ => ⟨rfl, rfl, rfl⟩⟩
      refine hs.goOn hjob ⟨rfl, fun hb => ?_⟩ ⟨hlive, hunbound, fun hne => absurd rfl hne⟩
      rw [hunbound] at hb
      exact Bool.noConfusion hb
  | send call =>
      obtain ⟨hlive, hunbound, hanswer⟩ := hfit
      cases ok with
      | true =>
          obtain rfl := Option.some.inj ht
          exact h.goOn_same hjob ⟨hlive, hunbound, hanswer⟩
      | false =>
          obtain rfl := Option.some.inj ht
          exact h.goOn hjob (hkeep _ rfl rfl rfl rfl)
            ⟨(h.jobs.fit _ hjob).ne_idle, hunbound⟩
  | wait call =>
      obtain ⟨hlive, hunbound, hanswer⟩ := hfit
      simp only [Hdc.runJob] at ht
      split_ifs at ht with hnone hfail
      · obtain rfl := Option.some.inj ht
        exact h.goOn hjob (hkeep _ rfl rfl rfl rfl) ⟨hlive, hunbound⟩
      · obtain rfl := Option.some.inj ht
        have hok : ok = true := by
          rw [← Bool.not_eq_false]
          exact fun heq => hfail (.inl heq)
        refine h.goOn_same hjob ⟨hlive, hunbound, hanswer ?_ ?_⟩
        · exact fun heq => hnone ⟨hok, heq⟩
        · exact fun heq => hfail (.inr (.inl heq))
  | count call =>
      obtain ⟨hlive, hunbound, hchans⟩ := hfit
      obtain rfl := Option.some.inj ht
      exact h.goOn_bind hjob hunbound hchans ⟨hlive, rfl, hchans⟩
  | own call =>
      obtain rfl := Option.some.inj ht
      exact h.drop hjob (hkeep _ rfl rfl rfl rfl) (.inr hfit)
  | abort =>
      obtain rfl := Option.some.inj ht
      exact h.goOn_same hjob ⟨(h.jobs.fit _ hjob).ne_idle, hfit.2⟩
  | queued _ => exact absurd ht (Option.some_ne_none t).symm
  | reply pid =>
      cases ok with
      | true =>
          obtain rfl := Option.some.inj ht
          exact h.drop hjob (hkeep _ rfl rfl rfl rfl) (.inr hfit)
      | false =>
          obtain rfl := Option.some.inj ht
          exact h.goOn_same hjob hfit
  | uncount =>
      obtain ⟨-, hbound, hchans⟩ := hfit
      obtain rfl := Option.some.inj ht
      exact h.goOn_unbind hjob hbound hchans ⟨(h.jobs.fit _ hjob).ne_idle, rfl⟩
  | closing notify creator =>
      obtain rfl := Option.some.inj ht
      exact h.goOn hjob (hkeep _ rfl rfl rfl rfl) hfit
  | closed creator =>
      obtain ⟨-, hbound, hchans⟩ := hfit
      obtain rfl := Option.some.inj ht
      exact h.goOn_unbind hjob hbound hchans ⟨(h.jobs.fit _ hjob).ne_idle, rfl⟩
  | free creator =>
      obtain rfl := Option.some.inj ht
      exact h.endJob hjob (hkeep _ rfl rfl rfl rfl) hfit.2

theorem accept {service : ℕ} {pid : UInt64} (h : SessInv cfg s)
    (ht : hdcdrvAccept s service pid = some t) : SessInv cfg t := by
  rw [hdcdrvAccept] at ht
  split at ht
  · exact absurd ht (Option.some_ne_none t).symm
  · rename_i job hfind
    obtain rfl := Option.some.inj ht
    have hjob : job ∈ s.jobs := List.mem_of_find?_eq_some hfind
    have hqueued : job.stage.service = some service := by
      simpa using List.find?_some hfind
    have hfit := h.jobs.fit job hjob
    refine h.goOn hjob ⟨rfl, fun _ => ⟨rfl, rfl, rfl⟩⟩ ?_
    cases hstage : job.stage with
    | queued k =>
        rw [hstage] at hfit
        exact hfit
    | _ =>
        rw [hstage] at hqueued
        exact absurd hqueued (Option.some_ne_none service).symm

/-! ## Closes -/

theorem idle_unbound (h : SessInv cfg s) (hidle : (s.sessions fd).status = .idle) :
    (∀ job ∈ s.jobs, job.fd ≠ fd) ∧ s.bound fd = false := by
  have hapart : ∀ job ∈ s.jobs, job.fd ≠ fd := by
    rintro job hjob rfl
    exact (h.jobs.fit job hjob).ne_idle hidle
  refine ⟨hapart, ?_⟩
  rcases h.jobs.rest fd hapart with ⟨-, hunbound⟩ | ⟨hlive, -⟩
  · exact hunbound
  · exact absurd hidle hlive.ne_idle

theorem startClose {notify : Bool} {creator : Option UInt64} (h : SessInv cfg s)
    (hapart : ∀ job ∈ s.jobs, job.fd ≠ fd) (hne : (s.sessions fd).status ≠ .idle) :
    SessInv cfg { s.setStatus fd .closing with
      jobs := s.jobs ++ [⟨s.holder fd, fd, .closing notify creator⟩] } := by
  obtain ⟨-, hbound, hchans⟩ :=
    (h.jobs.rest fd hapart).resolve_left fun hidle => hne hidle.1
  have hslot : OnlySlot s { s.setStatus fd .closing with
      jobs := s.jobs ++ [⟨s.holder fd, fd, .closing notify creator⟩] } fd :=
    onlySlot_update rfl (fun _ _ => rfl) rfl
  refine ⟨h.jobs.start _ hapart hslot rfl rfl ?_, ?_, ?_⟩
  · simpa [StageFit, SessTable.setStatus, SessTable.setSession] using ⟨hbound, hchans⟩
  · refine h.owners.keep (fun k => ?_) rfl rfl rfl rfl
    by_cases hk : k = fd
    · subst hk
      simp [SessTable.setStatus, SessTable.setSession, hne]
    · simp [SessTable.setStatus, SessTable.setSession, hk]
  · refine h.count.keep rfl rfl fun k _ => ?_
    by_cases hk : k = fd
    · subst hk
      simp [SessTable.setStatus, SessTable.setSession]
    · simp [SessTable.setStatus, SessTable.setSession, hk]

theorem closeNow (h : SessInv cfg s) (hapart : ∀ job ∈ s.jobs, job.fd ≠ fd)
    (hne : (s.sessions fd).status ≠ .idle) : SessInv cfg (Hdc.closeNow cfg s fd) := by
  obtain ⟨-, hbound, hchans⟩ :=
    (h.jobs.rest fd hapart).resolve_left fun hidle => hne hidle.1
  have hslot : OnlySlot s (Hdc.closeNow cfg s fd) fd := by
    refine ⟨fun k hk => ?_, fun k hk => ?_, fun k _ => ?_⟩ <;>
      simp [Hdc.closeNow, SessTable.endConn, SessTable.setStatus, SessTable.setSession, *]
  have hidle : ((Hdc.closeNow cfg s fd).sessions fd).status = .idle := by
    simp [Hdc.closeNow, SessTable.endConn, SessTable.setStatus, SessTable.setSession]
  have hunbound : (Hdc.closeNow cfg s fd).bound fd = false := by
    simp [Hdc.closeNow, SessTable.endConn, SessTable.setStatus, SessTable.setSession]
  refine ⟨?_, ?_, ?_⟩
  · refine h.jobs.change none none hslot (List.Perm.refl _) ?_ hapart nofun
      (fun _ => .inl ⟨hidle, hunbound⟩) nofun
    simp [Hdc.closeNow, SessTable.endConn, SessTable.setStatus, SessTable.setSession]
  · refine h.owners.free hne hidle hslot ?_ ?_ ?_ <;>
      simp [Hdc.closeNow, SessTable.endConn, SessTable.setStatus, SessTable.setSession]
  · refine h.count.unbind (OnlySlot.symm hslot) hbound hunbound (h.owners.inside fd hne)
      fun dev chan => ?_
    let s' := s.setSession fd { s.sessions fd with
      status := .closing, uniqueVal := 0, ownerPid := HDCDRV_INVALID_PID }
    have hchans' : (s'.sessions fd).ChansOk cfg := by
      simp only [s', SessTable.setSession, Function.update_self]
      exact hchans
    have hcnt := modSessionCnt_sessionCnt hchans' (-1) dev chan
    have hshare : chanShare (s'.sessions fd) dev chan = chanShare (s.sessions fd) dev chan := by
      simp [s', SessTable.setSession, chanShare]
    rw [hshare] at hcnt
    refine hcnt.trans ?_
    simp only [s', SessTable.setSession]
    ring

/-! ## New connections -/

theorem search_spec {cur base max : ℕ} {pid : UInt64} (h : s.search cur base max pid = some fd) :
    fd < base + max ∧ (s.sessions fd).status = .idle := by
  have hprop := List.find?_some h
  obtain ⟨i, hi, rfl⟩ := List.mem_map.mp (List.mem_of_find?_eq_some h)
  have hmod : (cur + i) % max < max := Nat.mod_lt _ (by simp at hi; omega)
  simp only [decide_eq_true_eq] at hprop
  exact ⟨by omega, hprop.2⟩

/-- The table after the slot is taken. -/
def give (s : SessTable) (fd a b : ℕ) (stage : SessStage) : SessTable :=
  { s.setStatus fd .conn with
    curAllocSession := a
    curAllocShortSession := b
    jobs := s.jobs ++ [⟨s.next, fd, stage⟩]
    next := s.next + 1
    holder := Function.update s.holder fd s.next }

theorem hdcdrvAllocSession_cases (cfg : SessionConfig) (s : SessTable) (short other : Bool)
    (pid : UInt64) :
    (∃ fd a b, fd < cfg.maxLong + cfg.maxShort ∧ (s.sessions fd).status = .idle ∧
      hdcdrvAllocSession cfg s short other pid =
        (some fd, { s.setStatus fd .conn with
          curAllocSession := a, curAllocShortSession := b })) ∨
    hdcdrvAllocSession cfg s short other pid = (none, s) := by
  have hlong (fd : ℕ) (h : s.search s.curAllocSession 0 cfg.maxLong pid = some fd) :
      fd < cfg.maxLong + cfg.maxShort ∧ (s.sessions fd).status = .idle :=
    ⟨by have := (search_spec h).1; omega, (search_spec h).2⟩
  simp only [hdcdrvAllocSession]
  split_ifs with hshort hother
  · split
    · rename_i fd hfd
      exact .inl ⟨fd, _, _, (search_spec hfd).1, (search_spec hfd).2, rfl⟩
    · split
      · rename_i fd hfd
        exact .inl ⟨fd, _, _, (hlong fd hfd).1, (hlong fd hfd).2, rfl⟩
      · exact .inr rfl
  · split
    · rename_i fd hfd
      exact .inl ⟨fd, _, _, (search_spec hfd).1, (search_spec hfd).2, rfl⟩
    · exact .inr rfl
  · split
    · rename_i fd hfd
      exact .inl ⟨fd, _, _, (hlong fd hfd).1, (hlong fd hfd).2, rfl⟩
    · exact .inr rfl

theorem takeSlot_cases (cfg : SessionConfig) (s : SessTable) (short other : Bool) (pid : UInt64)
    (stage : SessStage) :
    (∃ fd a b, fd < cfg.maxLong + cfg.maxShort ∧ (s.sessions fd).status = .idle ∧
      takeSlot cfg s short other pid stage = (some fd, give s fd a b stage)) ∨
    takeSlot cfg s short other pid stage =
      (none, { s with next := s.next + 1, freed := s.next :: s.freed }) := by
  rcases hdcdrvAllocSession_cases cfg s short other pid with ⟨fd, a, b, hfd, hidle, heq⟩ | heq
  · exact .inl ⟨fd, a, b, hfd, hidle, by rw [takeSlot, heq]; rfl⟩
  · exact .inr (by rw [takeSlot, heq])

theorem refused (h : SessInv cfg s) :
    SessInv cfg { s with next := s.next + 1, freed := s.next :: s.freed } :=
  ⟨⟨h.jobs.uniq, h.jobs.holder, h.jobs.fit, h.jobs.rest⟩,
    h.owners.refuse rfl rfl rfl rfl rfl, h.count.keep rfl rfl fun _ _ => ⟨rfl, rfl, rfl⟩⟩

theorem onlySlot_give (a b : ℕ) : OnlySlot s (give s fd a b stage) fd := by
  refine ⟨fun k hk => ?_, fun k _ => rfl, fun k hk => ?_⟩ <;>
    simp [give, SessTable.setStatus, SessTable.setSession, hk]

/-- The owners do not depend on what else is written to the slot. -/
theorem give_owners {a b : ℕ} (h : OwnersOk cfg s) (hidle : (s.sessions fd).status = .idle)
    (hfd : fd < cfg.maxLong + cfg.maxShort) : OwnersOk cfg (give s fd a b stage) := by
  refine h.take hidle ?_ (onlySlot_give a b) ?_ rfl rfl rfl hfd <;>
    simp [give, SessTable.setStatus, SessTable.setSession]

theorem connect {call : ConnectCall} {short other : Bool} (h : SessInv cfg s) :
    SessInv cfg (takeSlot cfg s short other call.pid (.taken call)).2 := by
  rcases takeSlot_cases cfg s short other call.pid (.taken call) with
    ⟨fd, a, b, hfd, hidle, heq⟩ | heq
  · rw [heq]
    obtain ⟨hapart, hunbound⟩ := h.idle_unbound hidle
    refine ⟨h.jobs.start _ hapart (onlySlot_give a b) rfl ?_ ⟨?_, hunbound⟩,
      give_owners h.owners hidle hfd, h.count.keep rfl rfl fun k hk => ?_⟩
    · simp [give]
    · simp [give, Session.Live, SessTable.setStatus, SessTable.setSession]
    · rw [(onlySlot_give a b).sessions k (ne_of_unbound hunbound hk)]
      exact ⟨rfl, rfl, rfl⟩
  · rw [heq]
    exact h.refused

/-- The connect message of the peer is accepted. -/
theorem queue {a b service : ℕ} (h : SessInv cfg s) (hidle : (s.sessions fd).status = .idle)
    (hfd : fd < cfg.maxLong + cfg.maxShort) (hstatus : x.status = .conn)
    (hchans : x.ChansOk cfg) :
    SessInv cfg
      (((give s fd a b (.queued service)).setSession fd x).modSessionCnt cfg fd 1) := by
  obtain ⟨hapart, hunbound⟩ := h.idle_unbound hidle
  have hslot : OnlySlot s
      (((give s fd a b (.queued service)).setSession fd x).modSessionCnt cfg fd 1) fd := by
    refine ⟨fun k hk => ?_, fun k hk => ?_, fun k hk => ?_⟩ <;>
      simp [give, SessTable.setStatus, SessTable.setSession, hk]
  have hsess : (((give s fd a b (.queued service)).setSession fd x).modSessionCnt cfg fd
      1).sessions fd = x := by
    simp [SessTable.setSession]
  refine ⟨?_, ?_, ?_⟩
  · refine h.jobs.start ⟨s.next, fd, .queued service⟩ hapart hslot ?_ ?_ ?_
    · simp [give, SessTable.setSession]
    · simp [give, SessTable.setSession]
    · refine hsess.symm ▸ ⟨.inl hstatus, ?_, hchans⟩
      simp
  · refine h.owners.take hidle ?_ hslot ?_ ?_ ?_ ?_ hfd
    · rw [hsess, hstatus]
      decide
    all_goals simp [give, SessTable.setStatus, SessTable.setSession]
  · refine h.count.bind hslot hunbound ?_ hfd fun dev chan => ?_
    · simp
    · have hchans' : (((give s fd a b (.queued service)).setSession fd x).sessions
          fd).ChansOk cfg := by
        simp only [SessTable.setSession, Function.update_self]
        exact hchans
      rw [modSessionCnt_sessionCnt hchans', SessTable.modSessionCnt_sessions, one_mul]
      rfl

theorem erase_append_self {jobs : List SessJob} (h : ∀ b ∈ jobs, b.fd ≠ job.fd) :
    (jobs ++ [job]).erase job = jobs := by
  have hnot : job ∉ jobs := fun hmem => h job hmem rfl
  rw [List.erase_append_right _ hnot, List.erase_cons_head, List.append_nil]

/-- The connect message of the peer names channels that do not exist. -/
theorem queueFail {a b : ℕ} (h : SessInv cfg s) (hidle : (s.sessions fd).status = .idle)
    (hfd : fd < cfg.maxLong + cfg.maxShort) (hne : x.status ≠ .idle) :
    SessInv cfg ((((give s fd a b stage).setSession fd x).dropJob
      ⟨(give s fd a b stage).holder fd, fd, stage⟩).endConn
        ((give s fd a b stage).holder fd) fd) := by
  obtain ⟨hapart, hunbound⟩ := h.idle_unbound hidle
  have hholder : (give s fd a b stage).holder fd = s.next := by simp [give]
  have hjobs : (s.jobs ++ [(⟨s.next, fd, stage⟩ : SessJob)]).erase ⟨s.next, fd, stage⟩ =
      s.jobs := erase_append_self hapart
  let t := (((give s fd a b stage).setSession fd x).dropJob ⟨s.next, fd, stage⟩).endConn
    s.next fd
  have hslot : OnlySlot (give s fd a b stage) t fd := by
    refine ⟨fun k hk => ?_, fun k _ => rfl, fun k _ => rfl⟩
    simp [t, SessTable.endConn, SessTable.dropJob, SessTable.setStatus, SessTable.setSession, hk]
  have hidle' : (t.sessions fd).status = .idle := by
    simp [t, SessTable.endConn, SessTable.dropJob, SessTable.setStatus, SessTable.setSession]
  have hslots : OnlySlot s t fd := by
    refine ⟨fun k hk => ?_, fun k _ => rfl, fun k hk => ?_⟩
    · rw [hslot.sessions k hk, (onlySlot_give a b).sessions k hk]
    · rw [hslot.holder k hk, (onlySlot_give a b).holder k hk]
  rw [hholder]
  refine ⟨?_, ?_, ?_⟩
  · refine h.jobs.change none none hslots (List.Perm.refl _)
      (List.Perm.of_eq hjobs) hapart nofun (fun _ => .inl ⟨hidle', hunbound⟩) nofun
  · have howners : OwnersOk cfg (give s fd a b stage) := give_owners h.owners hidle hfd
    refine howners.free ?_ hidle' hslot rfl ?_ ?_
    · simp [give, SessTable.setStatus, SessTable.setSession]
    · rw [hholder]
      rfl
    · simp [SessTable.endConn, SessTable.dropJob, SessTable.setSession, hholder, hne]
  · refine h.count.keep rfl rfl fun k hk => ?_
    rw [hslots.sessions k (ne_of_unbound hunbound hk)]
    exact ⟨rfl, rfl, rfl⟩

/-! ## Messages -/

theorem msgConnect {msg : ConnectMsg} {short other : Bool} {listenPid : UInt64} {chans : ℕ × ℕ}
    (h : SessInv cfg s) :
    SessInv cfg (hdcdrvCtrlMsgConnect cfg s msg short other listenPid chans).2 := by
  rw [hdcdrvCtrlMsgConnect]
  rcases takeSlot_cases cfg s short other listenPid (.queued msg.service) with
    ⟨fd, a, b, hfd, hidle, heq⟩ | heq
  · rw [heq]
    have hstatus : ((give s fd a b (.queued msg.service)).sessions fd).status = .conn := by
      simp [give, SessTable.setStatus, SessTable.setSession]
    dsimp only
    generalize (if msg.fastChanId ≠ HDCDRV_INVALID_CHAN_ID ∧
      msg.chanId ≠ HDCDRV_INVALID_CHAN_ID then (msg.chanId, msg.fastChanId) else chans) = pair
    split
    · rename_i hupdate
      simp only [hdcdrvSessionChanUpdate, decide_eq_true_eq] at hupdate
      exact h.queue hidle hfd hstatus
        ⟨hupdate.1.trans_le (cfg.normal_le _), hupdate.2⟩
    · refine h.queueFail hidle hfd ?_
      simp only [hdcdrvSessionInit, hstatus, ne_eq, reduceCtorEq, not_false_eq_true]
  · rw [heq]
    exact h.refused

theorem replySession_frame {msg : ReplyMsg} :
    (replySession cfg x msg).status = x.status ∧ (replySession cfg x msg).devId = x.devId := by
  simp only [replySession]
  split <;> exact ⟨rfl, rfl⟩

theorem replySession_answer {msg : ReplyMsg}
    (h : (replySession cfg x msg).remoteSessionFd ≠ HDCDRV_INVALID_REMOTE_SESSION_ID) :
    (replySession cfg x msg).ChansOk cfg := by
  simp only [replySession, ne_eq, ite_eq_right_iff, not_forall] at h
  obtain ⟨hupdate, -⟩ := h
  simp only [hdcdrvSessionChanUpdate, decide_eq_true_eq] at hupdate
  exact ⟨hupdate.1.trans_le (cfg.normal_le _), hupdate.2⟩

theorem replySession_chans {msg : ReplyMsg} (h : x.ChansOk cfg) :
    (replySession cfg x msg).chanId = x.chanId ∧
      (replySession cfg x msg).fastChanId = x.fastChanId := by
  have hlt : x.chanId < HDCDRV_SUPPORT_MAX_DEV_MSG_CHAN := h.1.trans_le (cfg.cnt_le _)
  have hne : x.chanId ≠ HDCDRV_INVALID_CHAN_ID := by
    rintro heq
    rw [heq] at hlt
    exact absurd hlt (by decide)
  simp only [replySession, hne, and_false, if_false, and_self]

/-- A reply leaves the channels of a slot that has some. -/
theorem replySession_chansOk {msg : ReplyMsg} (h : x.ChansOk cfg) :
    (replySession cfg x msg).ChansOk cfg := by
  simp only [Session.ChansOk, (replySession_chans h).1, (replySession_chans h).2,
    replySession_frame.2]
  exact h

theorem StageFit.reply {msg : ReplyMsg} {bound : Bool} (h : StageFit cfg x bound stage) :
    StageFit cfg (replySession cfg x msg) bound stage := by
  have hlive (hx : x.Live) : (replySession cfg x msg).Live := by
    simpa only [Session.Live, replySession_frame.1] using hx
  cases stage with
  | taken _ | abort => exact ⟨hlive h.1, h.2⟩
  | send _ | wait _ => exact ⟨hlive h.1, h.2.1, fun _ => replySession_answer⟩
  | count _ | own _ | queued _ | reply _ | uncount =>
      exact ⟨hlive h.1, h.2.1, replySession_chansOk h.2.2⟩
  | closing _ _ | closed _ =>
      exact ⟨replySession_frame.1.trans h.1, h.2.1, replySession_chansOk h.2.2⟩
  | free _ =>
      refine ⟨?_, h.2⟩
      rw [replySession_frame.1]
      exact h.1

theorem StageFit.chans {bound : Bool} (h : StageFit cfg x bound stage) (hbound : bound = true) :
    x.ChansOk cfg := by
  subst hbound
  cases stage with
  | taken _ | abort | free _ => exact Bool.noConfusion h.2
  | send _ | wait _ | count _ => exact Bool.noConfusion h.2.1
  | _ => exact h.2.2

theorem bound_chans (h : SessInv cfg s) (hbound : s.bound fd = true) :
    (s.sessions fd).ChansOk cfg := by
  by_cases hapart : ∀ job ∈ s.jobs, job.fd ≠ fd
  · rcases h.jobs.rest fd hapart with ⟨-, hunbound⟩ | ⟨-, -, hchans⟩
    · rw [hbound] at hunbound
      exact Bool.noConfusion hunbound
    · exact hchans
  · push Not at hapart
    obtain ⟨job, hjob, rfl⟩ := hapart
    exact StageFit.chans (h.jobs.fit job hjob) hbound

theorem msgReply {msg : ReplyMsg} (h : SessInv cfg s) :
    SessInv cfg (hdcdrvCtrlMsgConnectReply cfg s msg).2 := by
  simp only [hdcdrvCtrlMsgConnectReply]
  split
  · exact h
  · have hslot : OnlySlot s (s.setSession msg.clientSession
        (replySession cfg (s.sessions msg.clientSession) msg)) msg.clientSession :=
      onlySlot_update rfl (fun _ _ => rfl) rfl
    have hself : (s.setSession msg.clientSession
        (replySession cfg (s.sessions msg.clientSession) msg)).sessions msg.clientSession =
        replySession cfg (s.sessions msg.clientSession) msg := Function.update_self ..
    have hx : Writes s msg.clientSession
        (replySession cfg (s.sessions msg.clientSession) msg) :=
      ⟨replySession_frame.1, fun hb =>
        ⟨replySession_frame.2, replySession_chans (h.bound_chans hb)⟩⟩
    refine ⟨h.jobs.frame hslot rfl rfl rfl ?_ ?_, ?_, ?_⟩
    · intro stage hfit
      rw [hself]
      exact StageFit.reply hfit
    · rw [hself]
      rintro (⟨hidle, hunbound⟩ | ⟨hlive, hb, hchans⟩)
      · exact .inl ⟨replySession_frame.1.trans hidle, hunbound⟩
      · refine .inr ⟨?_, hb, replySession_chansOk hchans⟩
        simpa only [Session.Live, replySession_frame.1] using hlive
    · exact hx.owners h.owners rfl rfl rfl rfl rfl
    · exact hx.count h.count rfl rfl rfl

/-- The peer has closed; only an open session takes notice. -/
theorem msgClose {msg : CloseMsg} (h : SessInv cfg s) :
    SessInv cfg (hdcdrvCtrlMsgClose cfg s msg).2 := by
  simp only [hdcdrvCtrlMsgClose]
  split_ifs with hfd hclosed hunique
  · exact h
  · exact h
  · exact h
  · have hconn : (s.sessions msg.remoteSession).status = .conn := by
      cases hstatus : (s.sessions msg.remoteSession).status <;> simp_all
    have hslot : OnlySlot s (s.setStatus msg.remoteSession .remoteClosed) msg.remoteSession :=
      onlySlot_update rfl (fun _ _ => rfl) rfl
    have hself : (s.setStatus msg.remoteSession .remoteClosed).sessions msg.remoteSession =
        { s.sessions msg.remoteSession with status := .remoteClosed } := Function.update_self ..
    refine ⟨h.jobs.frame hslot rfl rfl rfl ?_ ?_, ?_, ?_⟩
    · intro stage hfit
      rw [hself]
      cases stage with
      | closing _ _ | closed _ => exact absurd (hconn.symm.trans hfit.1) (by decide)
      | free _ => exact ⟨nofun, hfit.2⟩
      | _ => exact ⟨.inr rfl, hfit.2⟩
    · rw [hself]
      rintro (⟨hidle, -⟩ | ⟨-, hrest⟩)
      · exact absurd (hconn.symm.trans hidle) (by decide)
      · exact .inr ⟨.inr rfl, hrest⟩
    · refine h.owners.keep (fun k => ?_) rfl rfl rfl rfl
      by_cases hk : k = msg.remoteSession
      · simp [hk, hself, hconn]
      · rw [hslot.sessions k hk]
    · refine h.count.keep rfl rfl fun k _ => ?_
      by_cases hk : k = msg.remoteSession
      · rw [hk, hself]
        exact ⟨rfl, rfl, rfl⟩
      · rw [hslot.sessions k hk]
        exact ⟨rfl, rfl, rfl⟩

end SessInv

/-! ## Runs -/

/-- What the sessions promise. -/
structure SessOk (cfg : SessionConfig) (s : SessTable) : Prop where
  owner : (s.jobs.map SessJob.fd).Nodup ∧ ∀ job ∈ s.jobs, s.at (some job.fd) job.conn
  place : Placement (· < s.next) s.at
  once : s.freed.Nodup
  idled : ∀ e ∈ s.idled, e.2 = some e.1
  count : (∀ job ∈ s.jobs, job.stage.service.isSome = true) → ∀ dev chan,
    s.sessionCnt dev chan =
      (List.range (cfg.maxLong + cfg.maxShort)).countP (fun fd =>
        (s.sessions fd).status ≠ .idle ∧ (s.sessions fd).devId = dev ∧
          (s.sessions fd).chanId = chan) +
      (List.range (cfg.maxLong + cfg.maxShort)).countP (fun fd =>
        (s.sessions fd).status ≠ .idle ∧ (s.sessions fd).devId = dev ∧
          (s.sessions fd).fastChanId = chan)
  nonneg : ∀ dev chan, 0 ≤ s.sessionCnt dev chan

/-- A close starts on a slot that nothing else works on. -/
def closeAlone (cfg : SessionConfig) (s : SessTable) : SessAct → Bool
  | .close fd pid permitted _ =>
      fd < cfg.maxLong + cfg.maxShort → (s.sessions fd).status ≠ .idle →
        (s.sessions fd).ownerPid = pid → permitted = true → s.jobs.all fun job => job.fd ≠ fd
  | .remoteCloseWork fd => (s.sessions fd).status = .remoteClosed →
      s.jobs.all fun job => job.fd ≠ fd
  | .closeUnknowWork fd => (s.sessions fd).status = .conn → s.jobs.all fun job => job.fd ≠ fd
  | _ => true

theorem SessInv.step (h : SessInv cfg s) (act : SessAct) (hok : closeAlone cfg s act = true)
    (ht : sessStep cfg s act = some t) : SessInv cfg t := by
  cases act with
  | connect call short other =>
      obtain rfl := Option.some.inj ht
      exact h.connect
  | accept service pid => exact h.accept ht
  | close fd pid permitted creator =>
      obtain rfl := Option.some.inj ht
      simp only [closeAlone, decide_eq_true_eq] at hok
      simp only [hdcdrvClose]
      split_ifs with hfd hstatus hpid
      · exact h
      · exact h
      · exact h
      · push Not at hfd hstatus hpid
        have hapart := hok hfd hstatus.1 hpid.1 (Bool.eq_true_of_not_eq_false hpid.2)
        exact h.startClose (by simpa using hapart) hstatus.1
  | run job ok =>
      simp only [sessStep] at ht
      split_ifs at ht with hjob
      exact h.runJob hjob ht
  | msgConnect msg short other listenPid chans =>
      obtain rfl := Option.some.inj ht
      exact h.msgConnect
  | msgReply msg =>
      obtain rfl := Option.some.inj ht
      exact h.msgReply
  | msgClose msg =>
      obtain rfl := Option.some.inj ht
      exact h.msgClose
  | remoteCloseWork fd | closeUnknowWork fd =>
      simp only [sessStep] at ht
      split_ifs at ht with hstatus
      obtain rfl := Option.some.inj ht
      simp only [closeAlone, decide_eq_true_eq] at hok
      refine h.closeNow (by simpa using hok hstatus.2) ?_
      rw [hstatus.2]
      decide

theorem sessInv_init (h : (sessMachine cfg).init s) : SessInv cfg s := by
  obtain ⟨hidle, hcnt, hjobs, hnext, hbound, hfreed, hidled⟩ := h
  refine ⟨⟨?_, ?_, ?_, fun fd _ => .inl ⟨hidle fd, hbound fd⟩⟩, ⟨⟨?_, ?_⟩, ?_, ?_, ?_⟩, ?_⟩
  · simp [Keyed.Uniq, hjobs]
  · simp [hjobs]
  · simp [hjobs]
  · rintro (_ | fd) conn hat
    · simp [SessTable.at, hfreed] at hat
    · exact absurd (hidle fd) hat.1
  · simp [hnext]
  · simp [hfreed]
  · simp [hidled]
  · exact fun fd hne => absurd (hidle fd) hne
  · intro dev chan
    have hnone (of : Session → ℕ) : s.users cfg of dev chan = 0 := by
      simp [SessTable.users, SessTable.uses, hbound]
    simp [hcnt, hnone]

/-- When nothing but queued sessions is left, the bound slots are those of the sessions. -/
theorem SessInv.bound_iff (h : SessInv cfg s)
    (hjobs : ∀ job ∈ s.jobs, job.stage.service.isSome = true) (fd : ℕ) :
    s.bound fd = true ↔ (s.sessions fd).status ≠ .idle := by
  by_cases hapart : ∀ job ∈ s.jobs, job.fd ≠ fd
  · rcases h.jobs.rest fd hapart with ⟨hidle, hunbound⟩ | ⟨hx, hbound, -⟩
    · simp [hidle, hunbound]
    · simp [hx.ne_idle, hbound]
  · push Not at hapart
    obtain ⟨job, hjob, rfl⟩ := hapart
    have hqueued := hjobs job hjob
    have hfit := h.jobs.fit job hjob
    cases hstage : job.stage with
    | queued k =>
        rw [hstage] at hfit
        simp [hfit.1.ne_idle, hfit.2.1]
    | _ => simp [hstage, SessStage.service] at hqueued

theorem SessInv.ok (h : SessInv cfg s) : SessOk cfg s := by
  refine ⟨⟨h.jobs.uniq, fun job hjob =>
    ⟨(h.jobs.fit job hjob).ne_idle, h.jobs.holder job hjob⟩⟩, h.owners.place, h.owners.once,
    h.owners.idled, fun hjobs dev chan => ?_, fun dev chan => ?_⟩
  · have huses (of : Session → ℕ) (fd : ℕ) : s.uses of dev chan fd =
        decide ((s.sessions fd).status ≠ .idle ∧ (s.sessions fd).devId = dev ∧
          of (s.sessions fd) = chan) := by
      rw [Bool.eq_iff_iff]
      simp [SessTable.uses, h.bound_iff hjobs fd, and_assoc]
    rw [h.count dev chan]
    simp only [SessTable.users, KeyCount.congr fun fd _ => huses _ fd]
  · rw [h.count dev chan]
    omega

/-- While every close starts alone on its slot, slots and counts are right. -/
theorem sessions_ok (hs : (sessMachine cfg).ReachIf (fun s act => closeAlone cfg s act = true) s) :
    SessOk cfg s := by
  have hinv : SessInv cfg s := by
    apply hs.invariant
    · exact fun s hinit => sessInv_init hinit
    · exact fun s act t h hok hstep => h.step act hok hstep
  exact hinv.ok

def twoSlots : SessionConfig where
  maxLong := 2
  maxShort := 0
  normalChanNum _ := 2
  msgChanCnt _ := 2
  normal_le _ := le_refl 2
  cnt_le _ := by decide

def idleSessions : SessTable where
  sessions _ := ⟨.idle, 0, HDCDRV_INVALID_VALUE, HDCDRV_INVALID_PID, HDCDRV_INVALID_PID, 0, 0, 0⟩
  sessionCnt _ _ := 0
  curAllocSession := 0
  curAllocShortSession := 2
  uniqueVal := 0
  jobs := []
  next := 0
  holder _ := 0
  bound _ := false
  freed := []
  idled := []

theorem init_idleSessions : (sessMachine twoSlots).init idleSessions :=
  ⟨fun _ => rfl, fun _ _ => rfl, rfl, rfl, fun _ => rfl, rfl, rfl⟩

/-- A call before and after it has its unique value. -/
def callBefore : ConnectCall := ⟨0, 5, 0, 1, 0, 0⟩

def callAfter : ConnectCall := ⟨0, 5, 0, 1, 0x80000001, HDCDRV_INVALID_PID⟩

def connectWaits : List SessAct :=
  [.connect callBefore false false, .run ⟨0, 0, .taken callBefore⟩ true,
    .run ⟨0, 0, .send callAfter⟩ true, .msgReply ⟨0, 0, 7, 0, 1, 0x80000001⟩]

/-- The connect succeeds, the peer connects too, and the peer closes the first session. -/
def connectThenClose : List SessAct :=
  connectWaits ++ [.run ⟨0, 0, .wait callAfter⟩ true, .run ⟨0, 0, .count callAfter⟩ true,
    .run ⟨0, 0, .own callAfter⟩ true, .msgConnect ⟨0, 3, 2, 0, 1, 9⟩ false false 6 (0, 1),
    .msgClose ⟨0, 0x80000001⟩, .remoteCloseWork 0]

theorem sessions_ok_two :
    SessOk twoSlots ((sessMachine twoSlots).final idleSessions connectThenClose) := by
  have hs : (sessMachine twoSlots).ReachIf (fun s act => closeAlone twoSlots s act = true)
      ((sessMachine twoSlots).final idleSessions connectThenClose) :=
    .final (.start init_idleSessions) (by decide +kernel) (by decide +kernel)
  exact sessions_ok hs

/-- The peer closes before the connect has seen its reply. -/
def closeDuringConnect : List SessAct :=
  connectWaits ++ [.msgClose ⟨0, 0x80000001⟩, .remoteCloseWork 0,
    .run ⟨0, 0, .wait callAfter⟩ false, .run ⟨0, 0, .abort⟩ true, .run ⟨0, 0, .free none⟩ true]

/-- The slot is given back twice, and the channel counts less than nothing. -/
theorem sessions_twice :
    ∃ s, (sessMachine twoSlots).Reach s ∧ s.jobs = [] ∧ s.sessionCnt 0 0 = -1 ∧
      s.freed = [0, 0] ∧ (0, none) ∈ s.idled := by
  refine ⟨(sessMachine twoSlots).final idleSessions closeDuringConnect, ?_, ?_⟩
  · exact .final (.start init_idleSessions) (by decide +kernel)
  · decide +kernel

end OpiaiKernel.Hdc
