import OpiaiKernel.Hdc.SessionEnds

/-!
# The two ends of a session agree

The runs of both drivers.  A connect takes its slot in one section and writes its value in
the next one; in between a message for the connection before it finds the old value.
-/

namespace OpiaiKernel.Hdc

variable {cfg : SessionConfig} {s t : SessTable} {fd : ℕ} {ends : UInt32 → Option Ends}
  {link : SessionLink} {p p' : PairState} {side : Side}

/-! ## New connections -/


/-- A slot has been taken by the next connection. -/
theorem Agreeing.take (h : Agreeing link ends p) (ht : SessInv (link.config side) t)
    (hvalue : t.uniqueVal = (p.table side).uniqueVal) (hnext : (p.table side).next ≤ t.next)
    (hother : ∀ k, k ≠ fd → t.view k = (p.table side).view k)
    (hconn : (t.view fd).conn = (p.table side).next)
    (hfit : SideFit link ends p.value side fd (t.view fd)) :
    Agreeing link ends (p.setTable side t) := by
  refine h.setTable ht hvalue hnext (fun k => ?_) fun e hlt he => ?_
  · by_cases hk : k = fd
    · exact hk ▸ hfit
    · exact hother k hk ▸ h.fit side k
  · by_cases hk : e.2.1 = fd
    · refine ⟨fun hopen => ?_⟩
      have heq : (p.table side).next = e.1 := by
        rw [← hconn, ← hk]
        exact hopen.1
      omega
    · rwa [hother _ hk]

/-- The next connection gets no slot. -/
theorem Agreeing.refuse (h : Agreeing link ends p) :
    Agreeing link ends (p.setTable side { p.table side with
      next := (p.table side).next + 1, freed := (p.table side).next :: (p.table side).freed }) :=
  h.setTable (h.inv side).refused rfl (Nat.le_succ _) (fun k => h.fit side k) fun _ _ he => he

theorem Agreeing.connect {call : ConnectCall} {short other : Bool} (h : Agreeing link ends p) :
    Agreeing link ends (p.setTable .client
      (takeSlot (link.config .client) (p.table .client) short other call.pid
        (.taken call)).2) := by
  have ht : SessInv (link.config .client) (takeSlot (link.config .client) (p.table .client) short
      other call.pid (.taken call)).2 := (h.inv .client).connect
  rcases SessInv.takeSlot_cases (link.config .client) (p.table .client) short other call.pid
    (.taken call) with ⟨fd, a, b, -, hidle, heq⟩ | heq
  · rw [heq] at ht ⊢
    obtain ⟨hother, hself⟩ := view_give (h.inv .client) hidle a b (.taken call)
    have hfit : ClientFit (link.config .client) (p.value .client) ends fd
        ((SessInv.give (p.table .client) fd a b (.taken call)).view fd) := by
      rw [hself]
      exact .plain (fun _ hready => absurd rfl (hready call)) (by simp [SessStage.call])
    exact h.take ht rfl (Nat.le_succ _) hother (by rw [hself]) hfit
  · rw [heq]
    exact h.refuse

/-- A connect writes its value, which no session had before. -/
theorem Agreeing.generate {job : SessJob} {x : Session} {call : ConnectCall}
    (h : Agreeing link ends p) (ht : SessInv (link.config .client) t)
    (hjob : job ∈ (p.table .client).jobs)
    (hstage : (p.table .client).stageAt job.fd ≠ none)
    (hgen : Generated (p.table .client) t job x call) :
    Agreeing link ends ((p.setTable .client t).setValue .client job.conn x.uniqueVal) := by
  have hs := h.inv .client
  have hholder := hs.jobs.holder job hjob
  have hne := (hs.jobs.fit job hjob).ne_idle
  have hclient : ((p.setTable .client t).setValue .client job.conn x.uniqueVal).table .client =
      t := by simp [PairState.setTable, PairState.setValue]
  have hserver : ((p.setTable .client t).setValue .client job.conn x.uniqueVal).table .server =
      p.table .server := by simp [PairState.setTable, PairState.setValue]
  have hvalues (conn : ℕ) : ((p.setTable .client t).setValue .client job.conn
      x.uniqueVal).value .client conn =
      if conn = job.conn then some x.uniqueVal else p.value .client conn := by
    simp [PairState.setValue, PairState.setTable, Function.update_apply]
  have hbefore (u : UInt32) (hu : InUse p u) : u ≠ x.uniqueVal ∧
      InUse ((p.setTable .client t).setValue .client job.conn x.uniqueVal) u := by
    obtain ⟨hlow, hhigh⟩ := hu
    have hvalue := hgen.value
    refine ⟨?_, hlow, ?_⟩
    · rintro rfl
      omega
    · rw [hclient, hgen.counter]
      omega
  have hnone : ends x.uniqueVal = none := by
    cases hends : ends x.uniqueVal with
    | none => rfl
    | some e => exact absurd rfl (hbefore _ (h.ends _ e hends)).1
  have hself : ClientFit (link.config .client)
      (((p.setTable .client t).setValue .client job.conn x.uniqueVal).value .client) ends job.fd
      (t.view job.fd) := by
    rw [hgen.view]
    refine ⟨fun _ _ => .inr ⟨by rw [hvalues, if_pos rfl], fun e he => ?_, fun hans => ?_⟩, ?_, ?_,
      ?_⟩
    · exact absurd (hnone.symm.trans he) (Option.some_ne_none e).symm
    · exact absurd hans hgen.remote
    · rintro _ ⟨⟩
      exact ⟨hgen.sent ▸ hnone, hgen.chans⟩
    · rintro _ ⟨⟩ _ ⟨⟩
      exact hgen.sent
    · rintro _ ⟨⟩ hcounting
      exact Bool.noConfusion hcounting
  have hothers (k : ℕ) (hk : k ≠ job.fd) : ClientFit (link.config .client)
      (((p.setTable .client t).setValue .client job.conn x.uniqueVal).value .client) ends k
      (t.view k) := by
    rw [hgen.other k hk]
    have hfit : ClientFit (link.config .client) (p.value .client) ends k
      ((p.table .client).view k) := h.fit .client k
    refine ⟨fun hk' hready => ?_, hfit.send, hfit.call, hfit.counting⟩
    have hconn : ((p.table .client).view k).conn ≠ job.conn := fun heq =>
      hk (hs.holder_inj hne hk' (heq.trans hholder.symm))
    rw [hvalues, if_neg hconn]
    exact hfit.tag hk' hready
  refine ⟨fun side => ?_, fun side k => ?_, fun conn u hu => ?_, fun conn conn' u hu hu' => ?_,
    fun u e he => (hbefore u (h.ends u e he)).2, fun side e he => ?_, h.changed⟩
  · cases side with
    | client => rwa [hclient]
    | server => exact hserver ▸ h.inv .server
  · cases side with
    | client =>
        rw [hclient]
        by_cases hk : k = job.fd
        · exact hk ▸ hself
        · exact hothers k hk
    | server =>
        rw [hserver]
        exact h.fit .server k
  · rw [hvalues] at hu
    split_ifs at hu with hconn
    · obtain rfl := Option.some.inj hu
      have hvalue := hgen.value
      refine ⟨by omega, ?_⟩
      rw [hclient, hgen.counter, hvalue]
    · exact (hbefore u (h.values conn u hu)).2
  · rw [hvalues] at hu hu'
    split_ifs at hu hu' with hconn hconn' hconn'
    · exact hconn.trans hconn'.symm
    · exact absurd (Option.some.inj hu).symm (hbefore u (h.values conn' u hu')).1
    · exact absurd (Option.some.inj hu').symm (hbefore u (h.values conn u hu)).1
    · exact h.inj conn conn' u hu hu'
  · cases side with
    | client =>
        have he' := h.returned .client e he
        rw [hclient]
        refine ⟨he'.1.trans_le hgen.next, ?_⟩
        by_cases hk : e.2.1 = job.fd
        · refine ⟨fun hopen => ?_⟩
          rw [hk, hgen.view] at hopen
          rw [hk] at he'
          have hopen' : ((p.table .client).view job.fd).Open e.1 :=
            ⟨hholder.trans hopen.1, hne, hgen.status ▸ hopen.2.2⟩
          exact absurd (he'.2.fit hopen').1 hstage
        · rw [hgen.other _ hk]
          exact he'.2
    | server =>
        rw [hserver]
        exact h.returned .server e he

/-- A connect or an accept returns success, and no job is left on its slot. -/
theorem Agreeing.returnWith (h : Agreeing link ends p) (side : Side) (entry : ℕ × ℕ × UInt32)
    (hlt : entry.1 < (p.table side).next) (hnone : (p.table side).stageAt entry.2.1 = none)
    (hvalue : ((p.table side).sessions entry.2.1).uniqueVal = entry.2.2)
    (hans : side = .client → ((p.table side).sessions entry.2.1).Answered)
    (htable : p'.table = p.table) (hvalues : p'.value = p.value) (hchanged : p'.changed = p.changed)
    (hside : p'.returned side = entry :: p.returned side)
    (hpeer : p'.returned side.peer = p.returned side.peer) : Agreeing link ends p' := by
  refine ⟨fun other => htable ▸ h.inv other, fun other k => ?_, ?_, ?_, ?_, fun other e he => ?_,
    hchanged ▸ h.changed⟩
  · rw [htable, hvalues]
    exact h.fit other k
  · simpa only [InUse, htable, hvalues] using h.values
  · rw [hvalues]
    exact h.inj
  · simpa only [InUse, htable] using h.ends
  · rw [htable]
    by_cases hother : other = side
    · subst hother
      rw [hside, List.mem_cons] at he
      rcases he with rfl | he
      · exact ⟨hlt, ⟨fun _ => ⟨hnone, hvalue, hans⟩⟩⟩
      · exact h.returned other e he
    · have hpeer' : other = side.peer := by
        cases other <;> cases side <;> first | rfl | exact absurd rfl hother
      rw [hpeer', hpeer] at he
      exact hpeer' ▸ h.returned side.peer e he

/-- The last section of a connect. -/
theorem Agreeing.own {job : SessJob} {call : ConnectCall} {ok : Bool} (h : Agreeing link ends p)
    (hjob : job ∈ (p.table .client).jobs) (hstage : job.stage = .own call)
    (hrun : runJob (link.config .client) (p.table .client) job ok = some t) :
    Agreeing link ends { p.setTable .client t with
      connected := (job.conn, job.fd, call.uniqueVal) :: p.connected } := by
  have hs := h.inv .client
  have ht := hs.runJob hjob hrun
  have hready : ∀ call, job.stage ≠ .taken call := by
    simp [hstage]
  have hstep := runJob_step hs hjob hready hrun
  have hset := h.tableStep ht hstep
  have hfit : ClientFit (link.config .client) (p.value .client) ends job.fd
    ((p.table .client).view job.fd) := h.fit .client job.fd
  have hat : (p.table .client).stageAt job.fd = some (.own call) :=
    hstage ▸ hs.jobs.stageAt hjob
  have hne := (hs.jobs.fit job hjob).ne_idle
  have hcall := hfit.call _ hat call rfl
  have hans := hfit.counting _ hat rfl
  have hsess : t.sessions job.fd =
      { (p.table .client).sessions job.fd with ownerPid := call.pid } := by
    rw [runJob, hstage] at hrun
    obtain rfl := Option.some.inj hrun
    exact Function.update_self ..
  have hjobs : t.jobs = (p.table .client).jobs.erase job := by
    rw [runJob, hstage] at hrun
    obtain rfl := Option.some.inj hrun
    rfl
  have hnone : t.stageAt job.fd = none := by
    refine stageAt_none ?_
    rw [hjobs]
    exact hs.jobs.apart_erase hjob
  refine hset.returnWith .client (job.conn, job.fd, call.uniqueVal) ?_ ?_ ?_ ?_ rfl rfl rfl rfl rfl
  · rw [setTable_same, ← hstep.next, ← hs.jobs.holder job hjob]
    exact hs.holder_lt hne
  · rw [setTable_same]
    exact hnone
  · rw [setTable_same, hsess]
    exact hcall.symm
  · intro _
    rw [setTable_same, hsess]
    exact hans

/-! ## Sends -/

/-- The connect message has been handled, and its value belongs to a slot of the server. -/
theorem Agreeing.addEnds {u : UInt32} {e : Ends} {k : ℕ} (h : Agreeing link ends p)
    (huse : InUse p u) (hnone : ends u = none)
    (hholder : p.value .client ((p.table .client).holder k) = some u)
    (hne : ((p.table .client).sessions k).status ≠ .idle)
    (hsend : ∀ call, (p.table .client).stageAt k ≠ some (.send call))
    (hclient : e.client = k)
    (hchans : ((p.table .client).sessions k).chanId ≠ HDCDRV_INVALID_CHAN_ID →
      ((p.table .client).sessions k).fastChanId ≠ HDCDRV_INVALID_CHAN_ID →
        e.chanId = ((p.table .client).sessions k).chanId ∧
          e.fastChanId = ((p.table .client).sessions k).fastChanId) :
    Agreeing link (Function.update ends u (some e)) p := by
  have hs := h.inv .client
  have hold {u' : UInt32} {e' : Ends} (he : ends u' = some e') :
      Function.update ends u (some e) u' = some e' := by
    have hu' : u' ≠ u := by
      rintro rfl
      exact absurd (hnone.symm.trans he) (Option.some_ne_none e').symm
    rw [Function.update_of_ne hu', he]
  refine ⟨h.inv, fun side fd => ?_, h.values, h.inj, fun u' e' he => ?_, h.returned, h.changed⟩
  · cases side with
    | client =>
        have hfit : ClientFit (link.config .client) (p.value .client) ends fd
          ((p.table .client).view fd) := h.fit .client fd
        have hsole (hfd : ((p.table .client).sessions fd).status ≠ .idle)
            (hvalue : p.value .client ((p.table .client).holder fd) = some u) : fd = k :=
          hs.holder_inj hne hfd (h.inj _ _ u hvalue hholder)
        refine ⟨fun hfd hready => ?_, fun call hcall => ?_, hfit.call, hfit.counting⟩
        · rcases hfit.tag hfd hready with hclosing | ⟨hvalue, hlinked⟩
          · exact .inl hclosing
          · refine .inr ⟨hvalue, fun e' he' => ?_, fun hans => ?_⟩
            · by_cases hu : ((p.table .client).view fd).session.uniqueVal = u
              · obtain rfl : fd = k := hsole hfd (hu ▸ hvalue)
                rw [hu, Function.update_self] at he'
                obtain rfl := Option.some.inj he'
                exact ⟨hclient, hchans⟩
              · rw [Function.update_of_ne hu] at he'
                exact hlinked.known e' he'
            · obtain ⟨hupdate, e', he', hserver⟩ := hlinked.answered hans
              exact ⟨hupdate, e', hold he', hserver⟩
        · obtain ⟨hidle, hvalue⟩ := hfit.sendTag hs hcall
          have hu : call.uniqueVal ≠ u := by
            rintro rfl
            exact hsend call (hsole hidle hvalue ▸ hcall)
          rw [Function.update_of_ne hu]
          exact hfit.send call hcall
    | server =>
        have hfit : ServerFit (p.value .server) ends fd ((p.table .server).view fd) :=
          h.fit .server fd
        refine ⟨fun hfd => ?_, hfit.stage⟩
        rcases hfit.tag hfd with hclosing | ⟨hvalue, e', he', hrest⟩
        · exact .inl hclosing
        · exact .inr ⟨hvalue, e', hold he', hrest⟩
  · by_cases hu : u' = u
    · exact hu ▸ huse
    · rw [Function.update_of_ne hu] at he
      exact h.ends u' e' he

/-- The connect message is handled at the server, and its value belongs to no slot yet. -/
theorem Agreeing.connectHandled (h : Agreeing link ends p) (msg : ConnectMsg)
    (choice : ConnectChoice) {k : ℕ} (huse : InUse p msg.uniqueVal) (hnone : ends msg.uniqueVal = none)
    (hholder : p.value .client ((p.table .client).holder k) = some msg.uniqueVal)
    (hne : ((p.table .client).sessions k).status ≠ .idle)
    (hsend : ∀ call, (p.table .client).stageAt k ≠ some (.send call))
    (hclient : msg.clientSession = k)
    (hchans : msg.chanId = ((p.table .client).sessions k).chanId ∧
      msg.fastChanId = ((p.table .client).sessions k).fastChanId) :
    ∃ ends', Agreeing link ends' ((p.setTable .server
      (hdcdrvCtrlMsgConnect (link.config .server) (p.table .server) msg choice.short choice.other
        choice.listenPid choice.chans).2).setValue .server (p.table .server).next msg.uniqueVal) := by
  have hs := h.inv .server
  have ht : SessInv (link.config .server) (hdcdrvCtrlMsgConnect (link.config .server)
    (p.table .server) msg choice.short choice.other choice.listenPid choice.chans).2 :=
      hs.msgConnect
  have hclientValue : (p.setValue .server (p.table .server).next msg.uniqueVal).value .client =
      p.value .client := by simp [PairState.setValue]
  have hnext : (p.setValue .server (p.table .server).next msg.uniqueVal).value .server
      (p.table .server).next = some msg.uniqueVal := by simp [PairState.setValue]
  -- the next connection of the server holds no slot, so it may get its value first
  have hvalue : Agreeing link ends
      (p.setValue .server (p.table .server).next msg.uniqueVal) := by
    refine ⟨h.inv, fun side fd => ?_, ?_, ?_, h.ends, h.returned, h.changed⟩
    · cases side with
      | client =>
          rw [SideFit, hclientValue]
          exact h.fit .client fd
      | server =>
          have hfit : ServerFit (p.value .server) ends fd ((p.table .server).view fd) :=
            h.fit .server fd
          refine ⟨fun hopen => ?_, hfit.stage⟩
          have hlt : ((p.table .server).view fd).conn ≠ (p.table .server).next :=
            (hs.holder_lt hopen).ne
          simpa [PairState.setValue, hlt] using hfit.tag hopen
    · rw [hclientValue]
      exact h.values
    · rw [hclientValue]
      exact h.inj
  rcases hdcdrvCtrlMsgConnect_cases (link.config .server) (p.table .server) msg
    choice.short choice.other choice.listenPid choice.chans with heq | ⟨fd, a, b, x, hidle, hx, heq | heq⟩
  · rw [heq]
    exact ⟨ends, hvalue.refuse⟩
  · rw [heq] at ht ⊢
    obtain ⟨hother, hself⟩ := view_queue hs hidle a b msg.service x
    let e : Ends := ⟨k, fd, x.chanId, x.fastChanId⟩
    have hadd : Agreeing link (Function.update ends msg.uniqueVal (some e))
        (p.setValue .server (p.table .server).next msg.uniqueVal) := by
      refine hvalue.addEnds huse hnone (hclientValue ▸ hholder) hne hsend rfl fun hc hf => ?_
      have hsame := hx.chans (by rw [hchans.1]; exact hc) (by rw [hchans.2]; exact hf)
      exact ⟨hsame.1.trans hchans.1, hsame.2.trans hchans.2⟩
    refine ⟨_, hadd.take ht ?_ ?_ hother (congrArg SlotView.conn hself) ?_⟩
    · rw [SessTable.modSessionCnt_eq]
      rfl
    · rw [SessTable.modSessionCnt_next]
      exact Nat.le_succ _
    · rw [hself]
      refine ⟨fun _ => .inr ⟨?_, e, ?_, rfl, ?_, rfl, rfl⟩, ?_⟩
      · rw [hx.uniqueVal]
        exact hnext
      · rw [hx.uniqueVal, Function.update_self]
      · rw [hx.remote, hclient]
      · simp [SessStage.call]
  · rw [heq] at ht ⊢
    obtain ⟨hother, hself⟩ := view_queueFail hs hidle a b msg.service x
    refine ⟨ends, hvalue.take ht rfl (Nat.le_succ _) hother (congrArg SlotView.conn hself) ?_⟩
    rw [hself]
    exact ⟨fun hopen => absurd rfl hopen, by simp⟩

/-! ## Steps -/

theorem Agreeing.runJob {job : SessJob} {ok : Bool} (h : Agreeing link ends p)
    (hjob : job ∈ (p.table side).jobs) (hready : ∀ call, job.stage ≠ .taken call)
    (hrun : Hdc.runJob (link.config side) (p.table side) job ok = some t) :
    Agreeing link ends (p.setTable side t) :=
  h.tableStep ((h.inv side).runJob hjob hrun) (runJob_step (h.inv side) hjob hready hrun)

/-- The jobs of the server are not connects. -/
theorem Agreeing.serverStage {job : SessJob} (h : Agreeing link ends p)
    (hjob : job ∈ (p.table .server).jobs) :
    job.stage.call = none ∧ ∀ call, job.stage ≠ .taken call := by
  have hfit : ServerFit (p.value .server) ends job.fd ((p.table .server).view job.fd) :=
    h.fit .server job.fd
  exact hfit.stage _ ((h.inv .server).jobs.stageAt hjob)

theorem setTable_comm {t' : SessTable} {u : UInt32} {conn : ℕ} :
    ((p.setTable .server t').setValue .server conn u).setTable .client t =
      ((p.setTable .client t).setTable .server t').setValue .server conn u := by
  simp only [PairState.setTable, PairState.setValue]
  rw [Function.update_comm (by decide)]

theorem Agreeing.sendConnect {job : SessJob} {call : ConnectCall} {choice : ConnectChoice}
    {delivery : Delivery} (h : Agreeing link ends p) (hjob : job ∈ (p.table .client).jobs)
    (hstage : job.stage = .send call)
    (hsend : Hdc.sendConnect link p job call choice delivery = some p') :
    ∃ ends', Agreeing link ends' p' := by
  have hs := h.inv .client
  have hready : ∀ call, job.stage ≠ .taken call := by
    simp [hstage]
  by_cases hlost : delivery = .lost
  · simp only [Hdc.sendConnect, if_pos hlost] at hsend
    obtain ⟨t, hrun, rfl⟩ := Option.map_eq_some_iff.mp hsend
    exact ⟨ends, h.runJob hjob hready hrun⟩
  · simp only [Hdc.sendConnect, if_neg hlost, deliverConnect] at hsend
    obtain ⟨t, hrun, rfl⟩ := Option.map_eq_some_iff.mp hsend
    have htable : ((p.setTable .server (hdcdrvCtrlMsgConnect (link.config .server)
        (p.table .server) (connectMsg link job.fd call choice.service) choice.short choice.other
        choice.listenPid choice.chans).2).setValue .server (p.table .server).next
        (connectMsg link job.fd call choice.service).uniqueVal).table .client =
        p.table .client := by
      simp [PairState.setTable, PairState.setValue]
    rw [htable] at hrun
    have hq := h.runJob hjob hready hrun
    obtain ⟨x, st, hview, hx, hst⟩ := runJob_send hs hjob hstage hrun
    have hfit : ClientFit (link.config .client) (p.value .client) ends job.fd
      ((p.table .client).view job.fd) := h.fit .client job.fd
    have hat : (p.table .client).stageAt job.fd = some (.send call) :=
      hstage ▸ hs.jobs.stageAt hjob
    obtain ⟨hnone, hchan, hfast⟩ := hfit.send call hat
    obtain ⟨hne, hvalue⟩ := hfit.sendTag hs hat
    have htview : ((p.setTable .client t).table .client).view job.fd =
        ⟨x, (p.table .client).holder job.fd, some st⟩ := by
      rw [setTable_same]
      exact hview
    have hsess : ((p.setTable .client t).table .client).sessions job.fd = x :=
      congrArg SlotView.session htview
    have hconn : ((p.setTable .client t).table .client).holder job.fd =
        (p.table .client).holder job.fd := congrArg SlotView.conn htview
    have hstage' : ((p.setTable .client t).table .client).stageAt job.fd = some st :=
      congrArg SlotView.stage htview
    obtain ⟨ends', hq'⟩ := hq.connectHandled (connectMsg link job.fd call choice.service) choice
      (hq.values _ _ hvalue) hnone (hconn.symm ▸ hvalue) (by rw [hsess, hx.status]; exact hne)
      (fun call heq => hst call (Option.some.inj (hstage'.symm.trans heq))) rfl
      (by rw [hsess, hx.chanId, hx.fastChanId]; exact ⟨hchan, hfast⟩)
    have hserver : (p.setTable .client t).table .server = p.table .server := setTable_of_ne (by decide)
    rw [hserver] at hq'
    exact ⟨ends', setTable_comm ▸ hq'⟩

theorem handled_table {u : UInt32} :
    (p.handled side fd u t).table = (p.setTable side t).table := by
  simp only [PairState.handled]
  split <;> rfl

theorem deliverReply_server {x : Session} :
    (deliverReply link p fd x).2.table .server = p.table .server := by
  rw [deliverReply]
  split
  · rfl
  · exact (congrFun handled_table _).trans (setTable_of_ne (by decide))

theorem Side.ne_peer (side : Side) : side ≠ side.peer := by
  cases side <;> decide

theorem hdcdrvCloseRemoteSession_own {x : Session} {delivered : Bool} :
    (hdcdrvCloseRemoteSession link p side x delivered).table side = p.table side := by
  rw [hdcdrvCloseRemoteSession]
  split
  · rfl
  · exact (congrFun handled_table _).trans (setTable_of_ne side.ne_peer)

theorem Agreeing.closeRemote {x : Session} {delivered : Bool} (h : Agreeing link ends p)
    (hfresh : delivered = true →
      NotStale (p.table side.peer) x.remoteSessionFd.toNat x.uniqueVal) :
    Agreeing link ends (hdcdrvCloseRemoteSession link p side x delivered) := by
  rw [hdcdrvCloseRemoteSession]
  split
  · exact h
  · rename_i hsent
    push Not at hsent
    exact h.closeHandled (hfresh (Bool.eq_true_of_not_eq_false hsent.1))

theorem Agreeing.sendReply {job : SessJob} {delivery : Delivery} (h : Agreeing link ends p)
    (hjob : job ∈ (p.table .server).jobs) (hreplies : job.stage.replies = true)
    (hfresh : delivery ≠ .lost → NotStale (p.table .client)
      ((p.table .server).sessions job.fd).remoteSessionFd.toNat
      ((p.table .server).sessions job.fd).uniqueVal)
    (hsend : Hdc.sendReply link p job delivery = some p') : Agreeing link ends p' := by
  have hs := h.inv .server
  have hready := (h.serverStage hjob).2
  have hstageFit := hs.jobs.fit job hjob
  have hlive : ((p.table .server).sessions job.fd).Live := by
    cases hstage : job.stage with
    | reply pid =>
        rw [hstage] at hstageFit
        exact hstageFit.1
    | _ =>
        rw [hstage] at hreplies
        exact Bool.noConfusion hreplies
  -- the reply is handled or lost, and the table of the server is as before
  obtain ⟨answer, p₁, hp₁, hserver, hrest⟩ : ∃ answer p₁, Agreeing link ends p₁ ∧
      p₁.table .server = p.table .server ∧
      (Hdc.runJob (link.config .server) (p₁.table .server) job
        (decide (answer = true ∧ delivery = .answered))).map (fun t =>
        if decide (answer = true ∧ delivery = .answered) = true then
          { p₁.setTable .server t with accepted := (job.conn, job.fd,
            ((p.table .server).sessions job.fd).uniqueVal) :: (p₁.setTable .server t).accepted }
        else p₁.setTable .server t) = some p' := by
    by_cases hlost : delivery = .lost
    · simp only [Hdc.sendReply, if_pos hlost] at hsend
      exact ⟨false, p, h, rfl, hsend⟩
    · simp only [Hdc.sendReply, if_neg hlost] at hsend
      exact ⟨_, _, h.replyHandled hlive (hfresh hlost), deliverReply_server, hsend⟩
  obtain ⟨t, hrun, rfl⟩ := Option.map_eq_some_iff.mp hrest
  have hjob₁ : job ∈ (p₁.table .server).jobs := hserver ▸ hjob
  have hq := hp₁.runJob hjob₁ hready hrun
  split
  · rename_i hok
    rw [hok, hserver] at hrun
    have hview : t.sessions job.fd =
        { (p.table .server).sessions job.fd with ownerPid := (t.sessions job.fd).ownerPid } ∧
        t.jobs = (p.table .server).jobs.erase job ∧ t.next = (p.table .server).next := by
      cases hstage : job.stage with
      | reply pid =>
          rw [Hdc.runJob, hstage] at hrun
          obtain rfl := Option.some.inj hrun
          refine ⟨?_, rfl, rfl⟩
          simp [SessTable.dropJob, SessTable.setSession]
      | _ =>
          rw [hstage] at hreplies
          exact Bool.noConfusion hreplies
    obtain ⟨hsess, hjobs, hnext⟩ := hview
    have hnone : t.stageAt job.fd = none := by
      refine stageAt_none ?_
      rw [hjobs]
      exact hs.jobs.apart_erase hjob
    refine hq.returnWith .server (job.conn, job.fd,
      ((p.table .server).sessions job.fd).uniqueVal) ?_ ?_ ?_ (fun h => Side.noConfusion h)
      rfl rfl rfl rfl rfl
    · rw [setTable_same, hnext, ← hs.jobs.holder job hjob]
      exact hs.holder_lt hstageFit.ne_idle
    · rw [setTable_same]
      exact hnone
    · rw [setTable_same, hsess]
  · exact hq

theorem Agreeing.sendClose {job : SessJob} {delivered : Bool} (h : Agreeing link ends p)
    (hjob : job ∈ (p.table side).jobs)
    (hfresh : delivered = true → NotStale (p.table side.peer)
      ((p.table side).sessions job.fd).remoteSessionFd.toNat
      ((p.table side).sessions job.fd).uniqueVal)
    (hsend : Hdc.sendClose link p side job delivered = some p') : Agreeing link ends p' := by
  have hs := h.inv side
  have hp₁ := h.closeRemote hfresh
  have hown : (hdcdrvCloseRemoteSession link p side ((p.table side).sessions job.fd)
      delivered).table side = p.table side := hdcdrvCloseRemoteSession_own
  have hfit := hs.jobs.fit job hjob
  have hgo (stage : SessStage) (hstage : StageFit (link.config side)
      ((p.table side).sessions job.fd) ((p.table side).bound job.fd) stage)
      (hmove : Moves ((p.table side).sessions job.fd) job.stage stage) :
      Agreeing link ends ((hdcdrvCloseRemoteSession link p side
        ((p.table side).sessions job.fd) delivered).setTable side
          ((p.table side).goOn job stage)) := by
    have ht := hs.goOn_same hjob hstage
    have hstep : TableStep ((hdcdrvCloseRemoteSession link p side
        ((p.table side).sessions job.fd) delivered).table side)
        ((p.table side).goOn job stage) job.fd := by
      rw [hown]
      exact .sameOn hs ht hjob hmove
    exact hp₁.tableStep ht hstep
  rw [Hdc.sendClose] at hsend
  cases hstage : job.stage with
  | closing notify creator =>
      rw [hstage] at hsend hfit hgo
      cases notify with
      | true =>
          obtain rfl := Option.some.inj hsend
          rw [hown]
          exact hgo _ hfit (.plain rfl rfl rfl)
      | false => exact absurd hsend (Option.some_ne_none p').symm
  | abort =>
      rw [hstage] at hsend hfit hgo
      obtain rfl := Option.some.inj hsend
      rw [hown]
      exact hgo _ ⟨(hs.jobs.fit job hjob).ne_idle, hfit.2⟩
        (.plain rfl rfl rfl)
  | _ =>
      rw [hstage] at hsend
      exact absurd hsend (Option.some_ne_none p').symm

/-- No connect has the slot without its value, while the value there is that of the
message. -/
def notStale (s : SessTable) (fd : ℕ) (u : UInt32) : Bool :=
  s.jobs.all fun job => job.fd = fd → job.stage.takenBy → (s.sessions fd).uniqueVal ≠ u

/-- The driver closes a slot that nothing else works on, and no message finds its value in
a slot that a connect has just taken. -/
def inOrder (link : SessionLink) (p : PairState) : PairAct → Bool
  | .close side fd pid permitted creator =>
      closeAlone (link.config side) (p.table side) (.close fd pid permitted creator)
  | .remoteCloseWork side fd => closeAlone (link.config side) (p.table side) (.remoteCloseWork fd)
  | .closeUnknowWork side fd delivered =>
      closeAlone (link.config side) (p.table side) (.closeUnknowWork fd) ∧
        (delivered = true → notStale (p.table side.peer)
          ((p.table side).sessions fd).remoteSessionFd.toNat
          ((p.table side).sessions fd).uniqueVal)
  | .sendReply job delivery => delivery ≠ .lost → notStale (p.table .client)
      ((p.table .server).sessions job.fd).remoteSessionFd.toNat
      ((p.table .server).sessions job.fd).uniqueVal
  | .sendClose side job delivered => delivered = true → notStale (p.table side.peer)
      ((p.table side).sessions job.fd).remoteSessionFd.toNat
      ((p.table side).sessions job.fd).uniqueVal
  | _ => true

/-- The counter of the client does not come round. -/
def belowPeriod (p : PairState) : Prop :=
  (p.table .client).uniqueVal.toNat + 1 < 2 ^ 30

instance : Decidable (belowPeriod p) := Nat.decLt _ _

theorem notStale_spec {u : UInt32} (h : notStale s fd u = true) : NotStale s fd u := by
  intro call hstage
  obtain ⟨job, hjob, hfd, hjs⟩ := exists_of_stageAt hstage
  have hall := List.all_eq_true.mp h job hjob
  simp only [decide_eq_true_eq] at hall
  exact hall hfd (by rw [hjs]; rfl)

theorem Agreeing.runLocal {job : SessJob} {ok : Bool} (h : Agreeing link ends p)
    (hperiod : belowPeriod p) (hrun : Hdc.runLocal link p side job ok = some p') :
    Agreeing link ends p' := by
  have hs := h.inv side
  obtain ⟨t, hstep, rfl⟩ := Option.map_eq_some_iff.mp hrun
  simp only [sessStep] at hstep
  split_ifs at hstep with hjob
  have ht := hs.runJob hjob hstep
  cases side with
  | client =>
      cases hstage : job.stage with
      | taken call =>
          obtain ⟨x, call', hgen⟩ := runJob_taken hs hjob hstage hperiod hstep
          have hx : t.sessions job.fd = x := congrArg SlotView.session hgen.view
          have hat := hs.jobs.stageAt hjob
          simp only [hx]
          exact h.generate ht hjob (by rw [hat]; exact Option.some_ne_none _) hgen
      | own call => exact h.own hjob hstage hstep
      | _ => exact h.runJob hjob (by simp [hstage]) hstep
  | server =>
      obtain ⟨hcall, hready⟩ := h.serverStage hjob
      have hq := h.runJob hjob hready hstep
      cases hstage : job.stage with
      | taken call => exact absurd hstage (hready call)
      | own call =>
          rw [hstage] at hcall
          exact absurd hcall (Option.some_ne_none call)
      | _ => exact hq

theorem Agreeing.step (h : Agreeing link ends p) (act : PairAct) (hperiod : belowPeriod p)
    (hok : inOrder link p act = true) (hstep : pairStep link p act = some p') :
    ∃ ends', Agreeing link ends' p' := by
  cases act with
  | connect call short other =>
      obtain rfl := Option.some.inj hstep
      exact ⟨ends, h.connect⟩
  | accept service pid =>
      obtain ⟨t, haccept, rfl⟩ := Option.map_eq_some_iff.mp hstep
      obtain ⟨fd, hslot⟩ := hdcdrvAccept_step (h.inv .server) haccept
      exact ⟨ends, h.tableStep ((h.inv .server).accept haccept) hslot⟩
  | close side fd pid permitted creator =>
      simp only [pairStep] at hstep
      obtain ⟨t, hclose, rfl⟩ := Option.map_eq_some_iff.mp hstep
      simp only [inOrder] at hok
      have ht := (h.inv side).step _ hok hclose
      obtain rfl := Option.some.inj hclose
      simp only [closeAlone, decide_eq_true_eq] at hok
      refine ⟨ends, h.tableStep ht (hdcdrvClose_step (h.inv side) ht fun hfd hne hpid hperm => ?_)⟩
      simpa using hok hfd hne hpid hperm
  | run side job ok =>
      simp only [pairStep] at hstep
      split_ifs at hstep
      exact ⟨ends, h.runLocal hperiod hstep⟩
  | sendConnect job call choice delivery =>
      simp only [pairStep] at hstep
      split_ifs at hstep with hjob
      exact h.sendConnect hjob.1 hjob.2 hstep
  | sendReply job delivery =>
      simp only [pairStep] at hstep
      split_ifs at hstep with hjob
      simp only [inOrder, decide_eq_true_eq] at hok
      exact ⟨ends, h.sendReply hjob.1 hjob.2 (fun hd => notStale_spec (hok hd)) hstep⟩
  | sendClose side job delivered =>
      simp only [pairStep] at hstep
      split_ifs at hstep with hjob
      simp only [inOrder, decide_eq_true_eq] at hok
      exact ⟨ends, h.sendClose hjob (fun hd => notStale_spec (hok hd)) hstep⟩
  | remoteCloseWork side fd =>
      simp only [pairStep] at hstep
      simp only [inOrder] at hok
      obtain ⟨t, hwork, rfl⟩ := Option.map_eq_some_iff.mp hstep
      have ht := (h.inv side).step _ hok hwork
      simp only [sessStep] at hwork
      split_ifs at hwork with hstatus
      obtain rfl := Option.some.inj hwork
      simp only [closeAlone, decide_eq_true_eq] at hok
      have hapart : ∀ job ∈ (p.table side).jobs, job.fd ≠ fd := by simpa using hok hstatus.2
      exact ⟨ends, h.tableStep ht (closeNow_step (h.inv side) ht hapart)⟩
  | closeUnknowWork side fd delivered =>
      simp only [pairStep] at hstep
      obtain ⟨t, hwork, rfl⟩ := Option.map_eq_some_iff.mp hstep
      simp only [inOrder, decide_eq_true_eq] at hok
      obtain ⟨halone, hfresh⟩ := hok
      have ht := (h.inv side).step _ halone hwork
      simp only [sessStep] at hwork
      split_ifs at hwork with hstatus
      obtain rfl := Option.some.inj hwork
      simp only [closeAlone, decide_eq_true_eq] at halone
      have hapart : ∀ job ∈ (p.table side).jobs, job.fd ≠ fd := by simpa using halone hstatus.2
      have hq := h.tableStep ht (closeNow_step (h.inv side) ht hapart)
      refine ⟨ends, hq.closeRemote fun hd => ?_⟩
      rw [setTable_of_ne side.ne_peer.symm]
      exact notStale_spec (hfresh hd)

/-! ## Runs -/

/-- The slot is still that of the connection, and its driver has not closed it. -/
def SessTable.Open (s : SessTable) (fd conn : ℕ) : Prop :=
  s.holder fd = conn ∧ (s.sessions fd).status ≠ .idle ∧ (s.sessions fd).status ≠ .closing

/-- What the two ends promise. -/
structure PairOk (p : PairState) : Prop where
  agree : ∀ c fd c' fd' u, (c, fd, u) ∈ p.connected → (c', fd', u) ∈ p.accepted →
    (p.table .client).Open fd c → (p.table .server).Open fd' c' →
    ((p.table .client).sessions fd).remoteSessionFd = fd' ∧
    ((p.table .server).sessions fd').remoteSessionFd = fd ∧
    ((p.table .client).sessions fd).uniqueVal = u ∧
    ((p.table .server).sessions fd').uniqueVal = u ∧
    ((p.table .client).sessions fd).chanId = ((p.table .server).sessions fd').chanId ∧
    ((p.table .client).sessions fd).fastChanId = ((p.table .server).sessions fd').fastChanId
  changed : ∀ e ∈ p.changed, e.1 = some e.2

theorem Agreeing.ok (h : Agreeing link ends p) : PairOk p := by
  refine ⟨fun c fd c' fd' u hc hs hopen hopen' => ?_, h.changed⟩
  have hclient : ClientFit (link.config .client) (p.value .client) ends fd
    ((p.table .client).view fd) := h.fit .client fd
  obtain ⟨hnone, hu, hans⟩ := (h.returned .client _ hc).2.fit hopen
  obtain ⟨-, hu', -⟩ := (h.returned .server _ hs).2.fit hopen'
  have hopenTag : ¬(((p.table .client).view fd).session.status = .closing ∧
      ((p.table .client).view fd).session.uniqueVal = 0) := fun hclosing => hopen.2.2 hclosing.1
  obtain ⟨-, hlinked⟩ := (hclient.tag hopen.2.1 (by simp [hnone])).resolve_left hopenTag
  have hserver : ServerFit (p.value .server) ends fd' ((p.table .server).view fd') :=
    h.fit .server fd'
  obtain ⟨-, e, he, hserverFd, hclientFd, hchan, hfast⟩ :=
    (hserver.tag hopen'.2.1).resolve_left fun hclosing => hopen'.2.2 hclosing.1
  obtain ⟨hupdate, e', he', hremote⟩ := hlinked.answered (hans rfl)
  rw [hu] at he'
  rw [hu'] at he
  obtain rfl : e' = e := Option.some.inj (he'.symm.trans he)
  obtain ⟨hfd, hchans⟩ := hlinked.known e' (hu.symm ▸ he')
  obtain ⟨hchan', hfast'⟩ := hchans (chans_ne_invalid hupdate).1 (chans_ne_invalid hupdate).2
  refine ⟨hremote.symm.trans (congrArg Nat.cast hserverFd), ?_, hu, hu', hchan'.symm.trans hchan,
    hfast'.symm.trans hfast⟩
  exact hclientFd.symm.trans (congrArg Nat.cast hfd)

theorem agreeing_init (h : (pairMachine link).init p) : Agreeing link (fun _ => none) p := by
  obtain ⟨htable, -, hconnected, haccepted, hchanged, hvalue⟩ := h
  have hidle (side : Side) (fd : ℕ) : ((p.table side).sessions fd).status = .idle :=
    (htable side).1 fd
  have hstage (side : Side) (fd : ℕ) : (p.table side).stageAt fd = none := by
    refine stageAt_none ?_
    rw [(htable side).2.2.1]
    exact fun _ hjob => absurd hjob List.not_mem_nil
  refine ⟨fun side => sessInv_init (htable side), fun side fd => ?_, fun c u hu => ?_,
    fun c c' u hu => ?_, fun u e he => absurd he (Option.some_ne_none e).symm,
    fun side e he => ?_, ?_⟩
  · cases side with
    | client =>
        refine .plain (fun hne => absurd (hidle .client fd) hne) fun st hst => ?_
        exact absurd ((hstage .client fd).symm.trans hst) (Option.some_ne_none st).symm
    | server =>
        refine ⟨fun hne => absurd (hidle .server fd) hne, fun st hst => ?_⟩
        exact absurd ((hstage .server fd).symm.trans hst) (Option.some_ne_none st).symm
  · exact absurd ((hvalue .client c).symm.trans hu) (Option.some_ne_none u).symm
  · exact absurd ((hvalue .client c).symm.trans hu) (Option.some_ne_none u).symm
  · cases side with
    | client =>
        rw [PairState.returned, hconnected] at he
        exact absurd he List.not_mem_nil
    | server =>
        rw [PairState.returned, haccepted] at he
        exact absurd he List.not_mem_nil
  · rw [hchanged]
    exact fun _ he => absurd he List.not_mem_nil

/-- While every close starts alone on its slot and no message finds its value in a slot that
a connect has just taken, the two ends of a session agree. -/
theorem ends_agree (hp : (pairMachine link).ReachIf
    (fun p act => belowPeriod p ∧ inOrder link p act = true) p) : PairOk p := by
  have hinv : ∃ ends, Agreeing link ends p := by
    apply hp.invariant
    · exact fun p hinit => ⟨_, agreeing_init hinit⟩
    · rintro p act p' ⟨ends, h⟩ ⟨hperiod, hok⟩ hstep
      exact h.step act hperiod hok hstep
  obtain ⟨ends, h⟩ := hinv
  exact h.ok

def oneSlot : SessionConfig where
  maxLong := 1
  maxShort := 0
  normalChanNum _ := 2
  msgChanCnt _ := 2
  normal_le _ := Nat.le_refl 2
  cnt_le _ := Nat.le_of_ble_eq_true rfl

def oneSlotLink : SessionLink where
  config _ := oneSlot
  dev _ := 0

def idlePair : PairState where
  table _ := idleSessions
  value _ _ := none
  connected := []
  accepted := []
  changed := []

theorem init_idlePair : (pairMachine oneSlotLink).init idlePair :=
  ⟨fun _ => ⟨fun _ => rfl, fun _ _ => rfl, rfl, rfl, fun _ => rfl, rfl, rfl⟩, rfl, rfl, rfl, rfl,
    fun _ _ => rfl⟩

/-- The connect message of process 5 reaches the service 2 of process 6. -/
def connectSent : List PairAct :=
  [.connect callBefore false false, .run .client ⟨0, 0, .taken callBefore⟩ true,
    .sendConnect ⟨0, 0, .send callAfter⟩ callAfter ⟨2, false, false, 6, (0, 1)⟩ .answered]

/-- The accept replies and both calls return success. -/
def bothReturn : List PairAct :=
  connectSent ++ [.accept 2 6, .sendReply ⟨0, 0, .reply 6⟩ .answered,
    .run .client ⟨0, 0, .wait callAfter⟩ true, .run .client ⟨0, 0, .count callAfter⟩ true,
    .run .client ⟨0, 0, .own callAfter⟩ true]

theorem ends_agree_one : PairOk ((pairMachine oneSlotLink).final idlePair bothReturn) := by
  have hp : (pairMachine oneSlotLink).ReachIf
      (fun p act => belowPeriod p ∧ inOrder oneSlotLink p act = true)
      ((pairMachine oneSlotLink).final idlePair bothReturn) :=
    .final (.start init_idlePair) (by decide +kernel) (by decide +kernel)
  exact ends_agree hp

/-- The connect times out, the reply still reaches its slot, the slot is given back, and
the server closes while the next connect has taken it. -/
def staleClose : List PairAct :=
  connectSent ++ [.run .client ⟨0, 0, .wait callAfter⟩ false,
    .sendClose .client ⟨0, 0, .abort⟩ true, .accept 2 6, .sendReply ⟨0, 0, .reply 6⟩ .answered,
    .run .client ⟨0, 0, .free none⟩ true, .connect callBefore false false,
    .close .server 0 6 true none, .sendClose .server ⟨0, 0, .closing true none⟩ true]

/-- The close message of the first session closes the slot of the second one. -/
theorem ends_stale :
    ∃ p, (pairMachine oneSlotLink).Reach p ∧ (p.table .client).holder 0 = 1 ∧
      ((p.table .client).sessions 0).status = .remoteClosed ∧
      p.value .client 0 = some 0x80000001 ∧ (none, 0x80000001) ∈ p.changed := by
  refine ⟨(pairMachine oneSlotLink).final idlePair staleClose, ?_, ?_⟩
  · exact .final (.start init_idlePair) (by decide +kernel)
  · decide +kernel

end OpiaiKernel.Hdc
