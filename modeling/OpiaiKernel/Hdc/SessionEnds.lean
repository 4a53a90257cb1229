import OpiaiKernel.Hdc.SessionPair
import OpiaiKernel.Hdc.SessionView

/-!
# What the ends of a session know

Every unique value that has reached the server belongs to one slot of each driver, and a
message that passes the check on the value is for the connection in the slot.
-/

namespace OpiaiKernel.Hdc

variable {cfg : SessionConfig} {s t : SessTable} {fd : ℕ}

/-! ## The slots of the two ends -/


/-- The slots and the channels that a unique value stands for. -/
structure Ends where
  client : ℕ
  server : ℕ
  chanId : ℕ
  fastChanId : ℕ

/-- The session of the client, as far as the server knows its value. -/
structure Linked (cfg : SessionConfig) (ends : UInt32 → Option Ends) (fd : ℕ) (x : Session) :
    Prop where
  known : ∀ e, ends x.uniqueVal = some e → e.client = fd ∧
    (x.chanId ≠ HDCDRV_INVALID_CHAN_ID → x.fastChanId ≠ HDCDRV_INVALID_CHAN_ID →
      e.chanId = x.chanId ∧ e.fastChanId = x.fastChanId)
  answered : x.Answered → hdcdrvSessionChanUpdate cfg x = true ∧
    ∃ e, ends x.uniqueVal = some e ∧ (e.server : ℤ) = x.remoteSessionFd

variable {ends : UInt32 → Option Ends} {value : ℕ → Option UInt32} {v v' : SlotView}

structure ClientFit (cfg : SessionConfig) (value : ℕ → Option UInt32)
    (ends : UInt32 → Option Ends) (fd : ℕ) (v : SlotView) : Prop where
  tag : v.session.status ≠ .idle → (∀ call, v.stage ≠ some (.taken call)) →
    (v.session.status = .closing ∧ v.session.uniqueVal = 0) ∨
      (value v.conn = some v.session.uniqueVal ∧ Linked cfg ends fd v.session)
  send : ∀ call, v.stage = some (.send call) → ends call.uniqueVal = none ∧
    call.chanId = v.session.chanId ∧ call.fastChanId = v.session.fastChanId
  call : ∀ st ∈ v.stage, ∀ call, st.call = some call → call.uniqueVal = v.session.uniqueVal
  counting : ∀ st ∈ v.stage, st.counting = true → v.session.Answered

structure ServerFit (value : ℕ → Option UInt32) (ends : UInt32 → Option Ends) (fd : ℕ)
    (v : SlotView) : Prop where
  tag : v.session.status ≠ .idle → (v.session.status = .closing ∧ v.session.uniqueVal = 0) ∨
    (value v.conn = some v.session.uniqueVal ∧ ∃ e, ends v.session.uniqueVal = some e ∧
      e.server = fd ∧ (e.client : ℤ) = v.session.remoteSessionFd ∧
      e.chanId = v.session.chanId ∧ e.fastChanId = v.session.fastChanId)
  stage : ∀ st ∈ v.stage, st.call = none ∧ ∀ call, st ≠ .taken call

/-- There is no connect that has its value. -/
theorem ClientFit.plain (htag : v.session.status ≠ .idle →
      (∀ call, v.stage ≠ some (.taken call)) →
        (v.session.status = .closing ∧ v.session.uniqueVal = 0) ∨
          (value v.conn = some v.session.uniqueVal ∧ Linked cfg ends fd v.session))
    (hcall : ∀ st ∈ v.stage, st.call = none) : ClientFit cfg value ends fd v where
  tag := htag
  send call hsend := absurd (hcall _ hsend) (Option.some_ne_none call)
  call st hst call heq := absurd ((hcall st hst).symm.trans heq) (Option.some_ne_none call).symm
  counting st hst hcounting := by
    have hnone := hcall st hst
    cases st <;> simp_all [SessStage.call, SessStage.counting]

/-- The slot is still that of the connection, and was not closed here. -/
def SlotView.Open (v : SlotView) (conn : ℕ) : Prop :=
  v.conn = conn ∧ v.session.status ≠ .idle ∧ v.session.status ≠ .closing

theorem SameSession.linked {x y : Session} (h : SameSession x y) (hy : Linked cfg ends fd y) :
    Linked cfg ends fd x := by
  refine ⟨?_, ?_⟩
  · rw [h.uniqueVal, h.chanId, h.fastChanId]
    exact hy.known
  · rw [Session.Answered, hdcdrvSessionChanUpdate, h.remote, h.uniqueVal, h.chanId,
      h.fastChanId, h.devId]
    exact hy.answered

theorem ClientFit.step (h : ClientFit cfg value ends fd v) (hstep : SlotStep v v') :
    ClientFit cfg value ends fd v' := by
  cases hstep with
  | same => exact h
  | go st st' x hstage hmove hx =>
      refine ⟨fun hne _ => ?_, ?_, ?_, ?_⟩
      · have hready : ∀ call, v.stage ≠ some (.taken call) := fun call heq =>
          hmove.ready call (Option.some.inj (hstage.symm.trans heq))
        rcases h.tag (hx.status ▸ hne) hready with ⟨hclosing, hzero⟩ | ⟨hvalue, hlinked⟩
        · exact .inl ⟨hx.status.trans hclosing, hx.uniqueVal.trans hzero⟩
        · exact .inr ⟨hx.uniqueVal ▸ hvalue, hx.linked hlinked⟩
      · exact fun call heq => absurd (Option.some.inj heq) (hmove.send call)
      · rintro _ ⟨⟩ call hcall
        rw [hx.uniqueVal]
        exact h.call st hstage call (hmove.call call hcall)
      · rintro _ ⟨⟩ hcounting
        rw [Session.Answered, hx.remote]
        rcases hmove.counting hcounting with hans | hst
        · exact hans
        · exact h.counting st hstage hst
  | done st x hstage hready hx =>
      refine .plain (fun hne _ => ?_) (by simp)
      have hready : ∀ call, v.stage ≠ some (.taken call) := fun call heq =>
        hready call (Option.some.inj (hstage.symm.trans heq))
      rcases h.tag (hx.status ▸ hne) hready with ⟨hclosing, hzero⟩ | ⟨hvalue, hlinked⟩
      · exact .inl ⟨hx.status.trans hclosing, hx.uniqueVal.trans hzero⟩
      · exact .inr ⟨hx.uniqueVal ▸ hvalue, hx.linked hlinked⟩
  | close x notify creator hstage hlive hx =>
      refine .plain (fun _ _ => ?_) (by simp [SessStage.call])
      rcases h.tag hlive (by simp [hstage]) with ⟨-, hzero⟩ | ⟨hvalue, hlinked⟩
      · exact .inl ⟨hx.status, hx.uniqueVal.trans hzero⟩
      · refine .inr ⟨?_, hx.linked ⟨hlinked.known, hlinked.answered⟩⟩
        rw [hx.uniqueVal]
        exact hvalue
  | clear x creator hstatus hx hold =>
      exact .plain (fun _ _ => .inl ⟨hstatus, hx⟩) (by simp [SessStage.call])
  | idle x hx => exact .plain (fun hne => absurd hx hne) (by simp)

theorem ServerFit.step (h : ServerFit value ends fd v) (hstep : SlotStep v v') :
    ServerFit value ends fd v' := by
  cases hstep with
  | same => exact h
  | go st st' x hstage hmove hx =>
      refine ⟨fun hne => ?_, ?_⟩
      · rw [hx.status, hx.uniqueVal, hx.remote, hx.chanId, hx.fastChanId]
        exact h.tag (hx.status ▸ hne)
      · rintro _ ⟨⟩
        exact ⟨hmove.server (h.stage st hstage).1, hmove.taken⟩
  | done st x hstage hready hx =>
      refine ⟨fun hne => ?_, by simp⟩
      rw [hx.status, hx.uniqueVal, hx.remote, hx.chanId, hx.fastChanId]
      exact h.tag (hx.status ▸ hne)
  | close x notify creator hstage hlive hx =>
      refine ⟨fun _ => ?_, by simp [SessStage.call]⟩
      rw [hx.status, hx.uniqueVal, hx.remote, hx.chanId, hx.fastChanId]
      rcases h.tag hlive with ⟨-, hzero⟩ | htag
      · exact .inl ⟨rfl, hzero⟩
      · exact .inr htag
  | clear x creator hstatus hx hold =>
      exact ⟨fun _ => .inl ⟨hstatus, hx⟩, by simp [SessStage.call]⟩
  | idle x hx => exact ⟨fun hne => absurd hx hne, by simp⟩

/-- An open slot whose connect or accept has returned has its value, and no job. -/
structure Returned (answered : Prop) (entry : ℕ × ℕ × UInt32) (v : SlotView) : Prop where
  fit : v.Open entry.1 → v.stage = none ∧ v.session.uniqueVal = entry.2.2 ∧
    (answered → v.session.Answered)

theorem Returned.step {answered : Prop} {entry : ℕ × ℕ × UInt32}
    (h : Returned answered entry v) (hstep : SlotStep v v') : Returned answered entry v' := by
  have hjob (st : SessStage) (x : Session) (hstage : v.stage = some st)
      (hx : SameSession x v.session) (stage : Option SessStage) :
      ¬SlotView.Open ⟨x, v.conn, stage⟩ entry.1 := by
    rintro ⟨hconn, hne, hlive⟩
    have hnone := (h.fit ⟨hconn, hx.status ▸ hne, hx.status ▸ hlive⟩).1
    exact absurd (hnone.symm.trans hstage) (Option.some_ne_none st).symm
  refine ⟨fun hopen => ?_⟩
  cases hstep with
  | same => exact h.fit hopen
  | go st st' x hstage hmove hx => exact absurd hopen (hjob st x hstage hx _)
  | done st x hstage hready hx => exact absurd hopen (hjob st x hstage hx _)
  | close x notify creator hstage hlive hx => exact absurd hx.status hopen.2.2
  | clear x creator hstatus hx hold => exact absurd hstatus hopen.2.2
  | idle x hx => exact absurd hx hopen.2.1

/-- What a reply or a close message may do to a slot. -/
structure Heard (v v' : SlotView) : Prop where
  conn : v'.conn = v.conn
  stage : v'.stage = v.stage
  uniqueVal : v'.session.uniqueVal = v.session.uniqueVal
  idle : v.session.status = .idle → v'.session.status = .idle
  closing : v.session.status = .closing → v'.session.status = .closing
  answered : v.session.Answered → v'.session.Answered

theorem Returned.heard {answered : Prop} {entry : ℕ × ℕ × UInt32}
    (h : Returned answered entry v) (hheard : Heard v v') : Returned answered entry v' := by
  refine ⟨?_⟩
  rintro ⟨hconn, hne, hlive⟩
  have hopen : v.Open entry.1 := ⟨hheard.conn.symm.trans hconn,
    fun hidle => hne (hheard.idle hidle), fun hclosing => hlive (hheard.closing hclosing)⟩
  obtain ⟨hnone, hvalue, hans⟩ := h.fit hopen
  exact ⟨hheard.stage.trans hnone, hheard.uniqueVal.trans hvalue,
    fun ha => hheard.answered (hans ha)⟩

/-! ## Both drivers -/

variable {link : SessionLink} {p p' : PairState} {side : Side}

/-- The values that the client has given out. -/
def InUse (p : PairState) (u : UInt32) : Prop :=
  2 ^ 31 < u.toNat ∧ u.toNat ≤ 2 ^ 31 + (p.table .client).uniqueVal.toNat

def SideFit (link : SessionLink) (ends : UInt32 → Option Ends) (value : Side → ℕ → Option UInt32)
    (side : Side) (fd : ℕ) (v : SlotView) : Prop :=
  match side with
  | .client => ClientFit (link.config .client) (value .client) ends fd v
  | .server => ServerFit (value .server) ends fd v

theorem SideFit.step (h : SideFit link ends p.value side fd v) (hstep : SlotStep v v') :
    SideFit link ends p.value side fd v' :=
  match side with
  | .client => ClientFit.step h hstep
  | .server => ServerFit.step h hstep

def PairState.returned (p : PairState) : Side → List (ℕ × ℕ × UInt32)
  | .client => p.connected
  | .server => p.accepted

structure Agreeing (link : SessionLink) (ends : UInt32 → Option Ends) (p : PairState) : Prop where
  inv : ∀ side, SessInv (link.config side) (p.table side)
  fit : ∀ side fd, SideFit link ends p.value side fd ((p.table side).view fd)
  values : ∀ conn u, p.value .client conn = some u → InUse p u
  inj : ∀ conn conn' u, p.value .client conn = some u → p.value .client conn' = some u →
    conn = conn'
  ends : ∀ u e, ends u = some e → InUse p u
  returned : ∀ side, ∀ e ∈ p.returned side, e.1 < (p.table side).next ∧
    Returned (side = .client) e ((p.table side).view e.2.1)
  changed : ∀ e ∈ p.changed, e.1 = some e.2

theorem TableStep.view (h : TableStep s t fd) (k : ℕ) : SlotStep (s.view k) (t.view k) := by
  by_cases hk : k = fd
  · exact hk ▸ h.slot
  · exact h.other k hk ▸ .same

@[simp] theorem setTable_same : (p.setTable side t).table side = t :=
  Function.update_self ..

theorem setTable_of_ne {other : Side} (h : other ≠ side) :
    (p.setTable side t).table other = p.table other :=
  Function.update_of_ne h ..

theorem inUse_setTable (hvalue : t.uniqueVal = (p.table side).uniqueVal) (u : UInt32) :
    InUse (p.setTable side t) u ↔ InUse p u := by
  by_cases h : Side.client = side
  · subst h
    rw [InUse, InUse, setTable_same, hvalue]
  · rw [InUse, InUse, setTable_of_ne h]

/-- One table changes, and no value and no log. -/
theorem Agreeing.setTable (h : Agreeing link ends p) (ht : SessInv (link.config side) t)
    (hvalue : t.uniqueVal = (p.table side).uniqueVal) (hnext : (p.table side).next ≤ t.next)
    (hfit : ∀ fd, SideFit link ends p.value side fd (t.view fd))
    (hreturned : ∀ e : ℕ × ℕ × UInt32, e.1 < (p.table side).next →
      Returned (side = .client) e ((p.table side).view e.2.1) →
      Returned (side = .client) e (t.view e.2.1)) :
    Agreeing link ends (p.setTable side t) := by
  have huse := inUse_setTable (p := p) hvalue
  refine ⟨fun other => ?_, fun other k => ?_, fun c u hc => (huse u).mpr (h.values c u hc), h.inj,
    fun u e he => (huse u).mpr (h.ends u e he), fun other e he => ?_, h.changed⟩
  all_goals by_cases hside : other = side
  · subst hside
    rwa [setTable_same]
  · rw [setTable_of_ne hside]
    exact h.inv other
  · subst hside
    rw [setTable_same]
    exact hfit k
  · rw [setTable_of_ne hside]
    exact h.fit other k
  · subst hside
    rw [setTable_same]
    have he' := h.returned other e he
    exact ⟨he'.1.trans_le hnext, hreturned e he'.1 he'.2⟩
  · rw [setTable_of_ne hside]
    exact h.returned other e he

/-- A step of one driver that writes no unique value and tells the other nothing. -/
theorem Agreeing.tableStep (h : Agreeing link ends p) (ht : SessInv (link.config side) t)
    (hstep : TableStep (p.table side) t fd) : Agreeing link ends (p.setTable side t) :=
  h.setTable ht hstep.value hstep.next.le (fun k => (h.fit side k).step (hstep.view k))
    fun _ _ he => he.step (hstep.view _)

/-- A message is handled; when it changes the slot it has the value of its connection. -/
theorem Agreeing.handled {u : UInt32} (h : Agreeing link ends p)
    (ht : SessInv (link.config side) t) (hvalue : t.uniqueVal = (p.table side).uniqueVal)
    (hnext : (p.table side).next = t.next)
    (hother : ∀ k, k ≠ fd → t.view k = (p.table side).view k)
    (hheard : Heard ((p.table side).view fd) (t.view fd))
    (hfit : SideFit link ends p.value side fd (t.view fd))
    (hown : PairState.sameEnds ((p.table side).sessions fd) (t.sessions fd) = false →
      p.value side ((p.table side).holder fd) = some u) :
    Agreeing link ends (p.handled side fd u t) := by
  have hset : Agreeing link ends (p.setTable side t) := by
    refine h.setTable ht hvalue hnext.le (fun k => ?_) fun e _ he => ?_
    · by_cases hk : k = fd
      · exact hk ▸ hfit
      · exact hother k hk ▸ h.fit side k
    · by_cases hk : e.2.1 = fd
      · rw [hk] at he ⊢
        exact he.heard hheard
      · rwa [hother _ hk]
  rw [PairState.handled]
  cases hsame : PairState.sameEnds ((p.table side).sessions fd) (t.sessions fd) with
  | true => simpa only [if_true] using hset
  | false =>
      simp only [Bool.false_eq_true, if_false]
      exact ⟨hset.inv, hset.fit, hset.values, hset.inj, hset.ends, hset.returned,
        List.forall_mem_cons.mpr ⟨hown hsame, h.changed⟩⟩

/-! ## Messages -/

theorem handled_self (p : PairState) (side : Side) (fd : ℕ) (u : UInt32) : p.handled side fd u (p.table side) = p := by
  have hset : p.setTable side (p.table side) = p := by simp [PairState.setTable]
  simp [PairState.handled, PairState.sameEnds, hset]

theorem SideFit.tagged (h : SideFit link ends p.value side fd v) (hconn : v.session.status = .conn)
    (hready : ∀ call, v.stage ≠ some (.taken call)) :
    p.value side v.conn = some v.session.uniqueVal := by
  have hne : v.session.status ≠ .idle := by simp [hconn]
  have hclosing (hc : v.session.status = .closing ∧ v.session.uniqueVal = 0) : False := by
    simp [hconn] at hc
  cases side with
  | client =>
      have h : ClientFit (link.config .client) (p.value .client) ends fd v := h
      exact ((h.tag hne hready).resolve_left hclosing).1
  | server =>
      have h : ServerFit (p.value .server) ends fd v := h
      exact ((h.tag hne).resolve_left hclosing).1

theorem SideFit.remoteClosed (h : SideFit link ends p.value side fd v)
    (hconn : v.session.status = .conn) :
    SideFit link ends p.value side fd
      ⟨{ v.session with status := .remoteClosed }, v.conn, v.stage⟩ := by
  have hne : v.session.status ≠ .idle := by simp [hconn]
  have hclosing (hc : v.session.status = .closing ∧ v.session.uniqueVal = 0) : False := by
    simp [hconn] at hc
  cases side with
  | client =>
      have h : ClientFit (link.config .client) (p.value .client) ends fd v := h
      refine ⟨fun _ hready => ?_, h.send, h.call, h.counting⟩
      obtain ⟨hvalue, hlinked⟩ := (h.tag hne hready).resolve_left hclosing
      exact .inr ⟨hvalue, hlinked.known, hlinked.answered⟩
  | server =>
      have h : ServerFit (p.value .server) ends fd v := h
      exact ⟨fun _ => .inr ((h.tag hne).resolve_left hclosing), h.stage⟩

/-- The slot is not taken by a connect that has still the value of the message there. -/
def NotStale (s : SessTable) (fd : ℕ) (u : UInt32) : Prop :=
  ∀ call, s.stageAt fd = some (.taken call) → (s.sessions fd).uniqueVal ≠ u

theorem Agreeing.closeHandled {u : UInt32} (h : Agreeing link ends p)
    (hfresh : NotStale (p.table side) fd u) :
    Agreeing link ends (p.handled side fd u
      (hdcdrvCtrlMsgClose (link.config side) (p.table side) ⟨fd, u⟩).2) := by
  have ht : SessInv (link.config side)
      (hdcdrvCtrlMsgClose (link.config side) (p.table side) ⟨fd, u⟩).2 := (h.inv side).msgClose
  revert ht
  simp only [hdcdrvCtrlMsgClose]
  split_ifs with hfd hclosed hunique
  · exact fun _ => (handled_self p side fd u).symm ▸ h
  · exact fun _ => (handled_self p side fd u).symm ▸ h
  · exact fun _ => (handled_self p side fd u).symm ▸ h
  · intro ht
    have hconn : ((p.table side).sessions fd).status = .conn := by
      cases hstatus : ((p.table side).sessions fd).status <;> simp_all
    have hvalue : ((p.table side).sessions fd).uniqueVal = u := not_not.mp hunique
    have hview : ((p.table side).setStatus fd .remoteClosed).view fd =
        ⟨{ (p.table side).sessions fd with status := .remoteClosed },
          (p.table side).holder fd, (p.table side).stageAt fd⟩ := by
      simp [SessTable.view, SessTable.setStatus, SessTable.setSession, SessTable.stageAt]
    have hfit := h.fit side fd
    refine h.handled ht rfl rfl (fun k hk => ?_) ?_ ?_ fun _ => ?_
    · simp [SessTable.view, SessTable.setStatus, SessTable.setSession, SessTable.stageAt, hk]
    · rw [hview]
      refine ⟨rfl, rfl, rfl, fun hidle => ?_, fun hclosing => ?_, id⟩
      · exact absurd (hconn.symm.trans hidle) (by decide)
      · exact absurd (hconn.symm.trans hclosing) (by decide)
    · rw [hview]
      exact hfit.remoteClosed hconn
    · have htag := hfit.tagged hconn fun call heq => hfresh call heq hvalue
      exact hvalue ▸ htag

/-- Channels that exist are not the mark for no channel. -/
theorem chans_ne_invalid {x : Session} (h : hdcdrvSessionChanUpdate cfg x = true) :
    x.chanId ≠ HDCDRV_INVALID_CHAN_ID ∧ x.fastChanId ≠ HDCDRV_INVALID_CHAN_ID := by
  simp only [hdcdrvSessionChanUpdate, decide_eq_true_eq] at h
  have hchan : x.chanId < HDCDRV_SUPPORT_MAX_DEV_MSG_CHAN :=
    (h.1.trans_le (cfg.normal_le _)).trans_le (cfg.cnt_le _)
  have hfast : x.fastChanId < HDCDRV_SUPPORT_MAX_DEV_MSG_CHAN := h.2.trans_le (cfg.cnt_le _)
  exact ⟨fun heq => absurd (heq ▸ hchan) (by decide), fun heq => absurd (heq ▸ hfast) (by decide)⟩

theorem replySession_same {x : Session} {msg : ReplyMsg}
    (h : hdcdrvSessionChanUpdate cfg x = true) :
    replySession cfg x msg = { x with remoteSessionFd := msg.serverSession } := by
  have hne := (chans_ne_invalid h).1
  simp only [replySession, hne, and_false, if_false, h, if_true]

theorem replySession_uniqueVal {x : Session} {msg : ReplyMsg} :
    (replySession cfg x msg).uniqueVal = x.uniqueVal := by
  simp only [replySession]
  split <;> rfl

/-- A reply that is accepted has channels that exist. -/
theorem replySession_update {x : Session} {msg : ReplyMsg}
    (h : (replySession cfg x msg).Answered) :
    hdcdrvSessionChanUpdate cfg (replySession cfg x msg) = true ∧
      (replySession cfg x msg).remoteSessionFd = msg.serverSession := by
  have h' := h.2
  simp only [replySession, ne_eq, ite_eq_right_iff, not_forall] at h'
  obtain ⟨hupdate, -⟩ := h'
  refine ⟨?_, ?_⟩
  · exact hupdate
  · simp only [replySession, if_pos hupdate]

/-- The channels of the peer are taken over only by a session without channels. -/
theorem replySession_chanIds (cfg : SessionConfig) (x : Session) (msg : ReplyMsg) :
    ((replySession cfg x msg).chanId = msg.chanId ∧
      (replySession cfg x msg).fastChanId = msg.fastChanId) ∨
    ((replySession cfg x msg).chanId = x.chanId ∧
      (replySession cfg x msg).fastChanId = x.fastChanId) := by
  simp only [replySession]
  split
  · exact .inl ⟨rfl, rfl⟩
  · exact .inr ⟨rfl, rfl⟩

theorem ClientFit.reply {e : Ends} (h : ClientFit cfg value ends fd v) (msg : ReplyMsg)
    (hne : v.session.status ≠ .idle) (hready : ∀ call, v.stage ≠ some (.taken call))
    (hunique : v.session.uniqueVal = msg.uniqueVal) (hzero : msg.uniqueVal ≠ 0)
    (hends : ends msg.uniqueVal = some e) (hserver : (e.server : ℤ) = msg.serverSession)
    (hchans : e.chanId = msg.chanId ∧ e.fastChanId = msg.fastChanId) :
    value v.conn = some msg.uniqueVal ∧ Heard v ⟨replySession cfg v.session msg, v.conn, v.stage⟩ ∧
      ClientFit cfg value ends fd ⟨replySession cfg v.session msg, v.conn, v.stage⟩ := by
  obtain ⟨hvalue, hlinked⟩ := (h.tag hne hready).resolve_left fun hc =>
    hzero (hunique.symm.trans hc.2)
  have hself : ends v.session.uniqueVal = some e := hunique ▸ hends
  have hstatus : (replySession cfg v.session msg).status = v.session.status :=
    SessInv.replySession_frame.1
  have hans (hx : v.session.Answered) : (replySession cfg v.session msg).Answered := by
    rw [replySession_same (hlinked.answered hx).1]
    refine ⟨?_, ?_⟩
    · rw [← hserver]
      exact fun heq => by simp [HDCDRV_INVALID_VALUE] at heq
    · rw [← hserver]
      exact fun heq => by simp [HDCDRV_INVALID_REMOTE_SESSION_ID] at heq
  have hsame : (replySession cfg v.session msg).uniqueVal = v.session.uniqueVal :=
    replySession_uniqueVal
  refine ⟨hunique ▸ hvalue, ⟨rfl, rfl, hsame, ?_, ?_, hans⟩,
    fun _ _ => .inr ⟨hsame.symm ▸ hvalue, ?_, ?_⟩, fun call hsend => ?_, ?_, ?_⟩
  · exact fun hidle => hstatus.trans hidle
  · exact fun hclosing => hstatus.trans hclosing
  · intro e' he'
    rw [hsame, hself] at he'
    obtain rfl := Option.some.inj he'
    refine ⟨(hlinked.known e hself).1, ?_⟩
    rcases replySession_chanIds cfg v.session msg with hnew | hold
    · rw [hnew.1, hnew.2]
      exact fun _ _ => hchans
    · rw [hold.1, hold.2]
      exact (hlinked.known e hself).2
  · intro ha
    obtain ⟨hupdate, hremote⟩ := replySession_update ha
    exact ⟨hupdate, e, hsame.symm ▸ hself, hserver.trans hremote.symm⟩
  · have hcall := h.call _ hsend call rfl
    have hnone := (h.send call hsend).1
    rw [hcall, hself] at hnone
    exact absurd hnone (Option.some_ne_none e)
  · intro st hst call hcall
    rw [replySession_uniqueVal]
    exact h.call st hst call hcall
  · exact fun st hst hcounting => hans (h.counting st hst hcounting)

/-- A connect that is about to send its message. -/
theorem ClientFit.sendTag {call : ConnectCall} (h : ClientFit cfg value ends fd (s.view fd))
    (hs : SessInv cfg s) (hstage : s.stageAt fd = some (.send call)) :
    (s.sessions fd).status ≠ .idle ∧ value (s.holder fd) = some call.uniqueVal := by
  obtain ⟨job, hjob, rfl, hjs⟩ := exists_of_stageAt hstage
  have hfit := hs.jobs.fit job hjob
  rw [hjs] at hfit
  have hready : ∀ call', (s.view job.fd).stage ≠ some (.taken call') := by
    intro call' heq
    cases hstage.symm.trans heq
  have hvalue := ((h.tag hfit.1.ne_idle hready).resolve_left fun hclosing =>
    hfit.1.ne_closing hclosing.1).1
  rw [← h.call _ hstage call rfl] at hvalue
  exact ⟨hfit.1.ne_idle, hvalue⟩

/-- What the server knows about a session that is open. -/
theorem Agreeing.serverEnds (h : Agreeing link ends p)
    (hlive : ((p.table .server).sessions fd).Live) :
    InUse p ((p.table .server).sessions fd).uniqueVal ∧
      ∃ e, ends ((p.table .server).sessions fd).uniqueVal = some e ∧ e.server = fd ∧
        (e.client : ℤ) = ((p.table .server).sessions fd).remoteSessionFd ∧
        e.chanId = ((p.table .server).sessions fd).chanId ∧
        e.fastChanId = ((p.table .server).sessions fd).fastChanId := by
  have hfit : ServerFit (p.value .server) ends fd ((p.table .server).view fd) := h.fit .server fd
  obtain ⟨-, e, he⟩ := (hfit.tag hlive.ne_idle).resolve_left fun hclosing =>
    hlive.ne_closing hclosing.1
  exact ⟨h.ends _ e he.1, e, he⟩

theorem InUse.ne_zero {u : UInt32} (h : InUse p u) : u ≠ 0 := by
  rintro rfl
  exact absurd h.1 (by decide)

theorem Agreeing.replyHandled (h : Agreeing link ends p)
    (hlive : ((p.table .server).sessions fd).Live)
    (hfresh : NotStale (p.table .client)
      ((p.table .server).sessions fd).remoteSessionFd.toNat
      ((p.table .server).sessions fd).uniqueVal) :
    Agreeing link ends (deliverReply link p fd ((p.table .server).sessions fd)).2 := by
  obtain ⟨huse, e, hends, hserver, hclient, hchan, hfast⟩ := h.serverEnds hlive
  generalize hx : (p.table .server).sessions fd = x at *
  have hremote : x.remoteSessionFd.toNat = e.client := by omega
  rw [deliverReply, if_neg (by omega)]
  rw [hremote] at hfresh ⊢
  have ht : SessInv (link.config .client) (hdcdrvCtrlMsgConnectReply (link.config .client)
      (p.table .client) (replyMsg link fd x)).2 := (h.inv .client).msgReply
  revert ht
  simp only [hdcdrvCtrlMsgConnectReply]
  split_ifs with hcheck
  · exact fun _ => (handled_self p .client _ x.uniqueVal).symm ▸ h
  · intro ht
    push Not at hcheck
    obtain ⟨-, hne, -, hunique⟩ := hcheck
    have hslot : (replyMsg link fd x).clientSession = e.client := hremote
    have hmsg : (replyMsg link fd x).uniqueVal = x.uniqueVal := rfl
    rw [hslot] at hne hunique ht ⊢
    have hfit : ClientFit (link.config .client) (p.value .client) ends e.client
      ((p.table .client).view e.client) := h.fit .client e.client
    have hready : ∀ call, (p.table .client).stageAt e.client ≠ some (.taken call) :=
      fun call heq => hfresh call heq hunique
    obtain ⟨hvalue, hheard, hnew⟩ := hfit.reply (replyMsg link fd x) hne hready hunique
      huse.ne_zero hends (hserver ▸ rfl) ⟨hchan, hfast⟩
    have hview : ((p.table .client).setSession e.client
        (replySession (link.config .client) ((p.table .client).sessions e.client)
          (replyMsg link fd x))).view e.client =
        ⟨replySession (link.config .client) ((p.table .client).sessions e.client)
          (replyMsg link fd x), (p.table .client).holder e.client,
          (p.table .client).stageAt e.client⟩ := by
      simp [SessTable.view, SessTable.setSession, SessTable.stageAt]
    refine h.handled ht rfl rfl (fun k hk => ?_) (hview ▸ hheard) (hview ▸ hnew) fun _ => hvalue
    simp [SessTable.view, SessTable.setSession, SessTable.stageAt, hk]

end OpiaiKernel.Hdc
