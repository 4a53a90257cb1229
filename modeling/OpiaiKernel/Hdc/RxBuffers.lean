import OpiaiKernel.Hdc.RxChanOrder
import OpiaiKernel.Lib.Placement
import Mathlib.Data.List.Nodup

/-!
# The buffers of the receive path

A buffer goes from the pool to a descriptor, from there to the list of a session or back,
and from the list back to the pool.  A descriptor whose copy fails to be submitted keeps
its buffer and is then cleared.
-/

namespace OpiaiKernel.Hdc

inductive RxPlace
  | pool
  | desc (n : ℕ)
  | list (fd : ℤ)
  deriving DecidableEq

/-- The buffers of a session's list. -/
def RxSession.bufs (session : RxSession) : List ℕ := session.rxList.filterMap BufDesc.buf

/-- Where a buffer is: a descriptor holds one from the submission of its copy to its
answer. -/
def RxState.holds (s : RxState) : RxPlace → ℕ → Prop
  | .pool, buf => buf ∈ s.pool
  | .desc n, buf =>
      (s.cq.length ≤ n ∧ n < s.taken) ∧
        (s.chan.rx (n % HDCDRV_DESC_QUEUE_DEPTH)).skipFlag = false ∧
          (s.chan.rx (n % HDCDRV_DESC_QUEUE_DEPTH)).buf = some buf
  | .list fd, buf => buf ∈ (s.sessions fd).bufs

/-- Every buffer is in one place, and there once. -/
structure RxConserved (buffers : List ℕ) (s : RxState) : Prop where
  place : Placement (· ∈ buffers) s.holds
  pool : s.pool.Nodup
  list : ∀ fd, (s.sessions fd).bufs.Nodup

variable {maxSession : ℤ} {buffers : List ℕ} {s t : RxState} {desc : BufDesc}

/-- The slot of the first readable descriptor is written, and no buffer moves. -/
theorem RxConserved.write (h : RxConserved buffers s) (hinv : RxInv .normal s)
    (hlt : s.taken < s.sent) (hcq : t.cq = s.cq)
    (htaken : t.taken = s.taken ∨ t.taken = s.taken + 1 ∧ desc.skipFlag = true)
    (hrx : t.chan.rx = Function.update s.chan.rx (s.taken % HDCDRV_DESC_QUEUE_DEPTH) desc)
    (hpool : t.pool = s.pool) (hsessions : t.sessions = s.sessions) :
    RxConserved buffers t := by
  obtain ⟨done, submitted, flight, hring⟩ := hinv.ring
  refine ⟨h.place.congr fun place buf => ?_, hpool ▸ h.pool, hsessions ▸ h.list⟩
  cases place with
  | pool => simp only [RxState.holds, hpool]
  | list fd => simp only [RxState.holds, hsessions]
  | desc n =>
      simp only [RxState.holds, hcq, hrx]
      by_cases hn : s.cq.length ≤ n ∧ n < s.taken
      · have hslot : n % HDCDRV_DESC_QUEUE_DEPTH ≠ s.taken % HDCDRV_DESC_QUEUE_DEPTH :=
          hring.slot_ne hlt hn.1 hn.2
        rw [Function.update_of_ne hslot]
        refine and_congr_left fun _ => iff_of_true ⟨hn.1, ?_⟩ hn
        rcases htaken with heq | ⟨heq, -⟩ <;> omega
      · refine iff_of_false (fun hnext => ?_) fun hold => hn hold.1
        obtain ⟨⟨hle, hlt'⟩, hflag, -⟩ := hnext
        rcases htaken with heq | ⟨heq, hskip⟩
        · exact hn ⟨hle, heq ▸ hlt'⟩
        · have heq' : n = s.taken := by omega
          rw [heq', Function.update_self, hskip] at hflag
          cases hflag

/-- A buffer of the pool is written to the next descriptor. -/
theorem RxConserved.submit (h : RxConserved buffers s) (hinv : RxInv .normal s)
    (hlt : s.taken < s.sent) {buf : ℕ} (hbuf : buf ∈ s.pool) (hcq : t.cq = s.cq)
    (htaken : t.taken = s.taken + 1) (hflag : desc.skipFlag = false) (hdesc : desc.buf = some buf)
    (hrx : t.chan.rx = Function.update s.chan.rx (s.taken % HDCDRV_DESC_QUEUE_DEPTH) desc)
    (hpool : t.pool = s.pool.erase buf) (hsessions : t.sessions = s.sessions) :
    RxConserved buffers t := by
  obtain ⟨done, submitted, flight, hring⟩ := hinv.ring
  have hle : s.cq.length ≤ s.taken := hring.answered_le_taken
  refine ⟨h.place.transfer (p := .pool) (q := .desc s.taken) (Q := (· = buf)) ?_ ?_ ?_,
    hpool ▸ h.pool.erase buf, hsessions ▸ h.list⟩
  · intro b
    simp only [RxState.holds, hpool, h.pool.mem_erase_iff]
    exact and_comm
  · intro b
    simp only [RxState.holds, hcq, hrx, htaken, Function.update_self, hflag, hdesc]
    constructor
    · rintro ⟨-, -, heq⟩
      obtain rfl := Option.some.inj heq
      exact .inr ⟨hbuf, rfl⟩
    · rintro (⟨⟨-, hn⟩, -⟩ | ⟨-, rfl⟩)
      · exact absurd hn (lt_irrefl _)
      · exact ⟨⟨hle, Nat.lt_succ_self _⟩, trivial, rfl⟩
  · intro place b hp hq
    cases place with
    | pool => exact absurd rfl hp
    | list fd => simp only [RxState.holds, hsessions]
    | desc n =>
        have hne : n ≠ s.taken := fun heq => hq (heq ▸ rfl)
        simp only [RxState.holds, hcq, hrx, htaken]
        by_cases hn : s.cq.length ≤ n ∧ n < s.taken
        · have hslot : n % HDCDRV_DESC_QUEUE_DEPTH ≠ s.taken % HDCDRV_DESC_QUEUE_DEPTH :=
            hring.slot_ne hlt hn.1 hn.2
          rw [Function.update_of_ne hslot]
          exact and_congr_left fun _ => iff_of_true ⟨hn.1, by omega⟩ hn
        · exact iff_of_false (fun hnext => hn ⟨hnext.1.1, by have := hnext.1.2; omega⟩)
            fun hold => hn hold.1

theorem RxConserved.callback (h : RxConserved buffers s) {status : ℤ}
    (hstep : hdcdrvRxMsgCallback s status = some t) : RxConserved buffers t := by
  rw [hdcdrvRxMsgCallback] at hstep
  split at hstep
  · cases hstep
  · next transId data dma hdma =>
      split at hstep <;> cases hstep
      · exact ⟨h.place, h.pool, h.list⟩
      · refine ⟨h.place.congr fun place buf => ?_, h.pool, h.list⟩
        cases place with
        | pool => exact Iff.rfl
        | list fd => exact Iff.rfl
        | desc n =>
            simp only [RxState.holds, RxState.setDesc]
            by_cases hn : n % HDCDRV_DESC_QUEUE_DEPTH = transId
            · rw [hn, Function.update_self]
            · rw [Function.update_of_ne hn]

/-! ## The receive task -/

/-- The answered descriptor is the only one that no longer holds its buffer. -/
theorem holds_answer (hinv : RxInv .normal s) (hne : s.chan.rxHead ≠ s.chan.dmaHead)
    (pool : List ℕ) (sessions : ℤ → RxSession) (outcome : RxOutcome) (n buf : ℕ) :
    (hdcdrvResponseCq { s with pool := pool, sessions := sessions }
      (s.cq.length % HDCDRV_DESC_QUEUE_DEPTH) outcome).holds (.desc n) buf ↔
        s.holds (.desc n) buf ∧ n ≠ s.cq.length := by
  obtain ⟨done, submitted, flight, hring⟩ := hinv.ring
  have htaken : s.cq.length < s.taken := hring.answered_lt_taken hne
  simp only [RxState.holds, hdcdrvResponseCq, RxState.setDesc, List.length_append,
    List.length_singleton]
  by_cases hn : (s.cq.length ≤ n ∧ n < s.taken) ∧ n ≠ s.cq.length
  · obtain ⟨⟨hlen, hlt⟩, hnew⟩ := hn
    have hslot : n % HDCDRV_DESC_QUEUE_DEPTH ≠ s.cq.length % HDCDRV_DESC_QUEUE_DEPTH :=
      hring.ne_slot (m := s.cq.length) le_rfl htaken hlen hlt hnew
    rw [Function.update_of_ne hslot]
    exact ⟨fun hnext => ⟨⟨⟨hlen, hlt⟩, hnext.2⟩, hnew⟩, fun hold => ⟨⟨by omega, hlt⟩, hold.1.2⟩⟩
  · refine iff_of_false (fun hnext => hn ⟨⟨by omega, hnext.1.2⟩, by omega⟩) ?_
    exact fun hold => hn ⟨hold.1.1, hold.2⟩

theorem RxConserved.answerSkipped (h : RxConserved buffers s) (hinv : RxInv .normal s)
    (hne : s.chan.rxHead ≠ s.chan.dmaHead)
    (hskip : (s.chan.rx (s.cq.length % HDCDRV_DESC_QUEUE_DEPTH)).skipFlag = true) :
    RxConserved buffers (hdcdrvResponseCq s (s.cq.length % HDCDRV_DESC_QUEUE_DEPTH) .skipped) := by
  refine ⟨h.place.congr fun place buf => ?_, h.pool, h.list⟩
  cases place with
  | pool => exact Iff.rfl
  | list fd => exact Iff.rfl
  | desc n =>
      refine (holds_answer hinv hne s.pool s.sessions .skipped n buf).trans ?_
      refine ⟨And.left, fun hold => ⟨hold, ?_⟩⟩
      rintro rfl
      exact absurd (hskip.symm.trans hold.2.1) (by decide)

/-- A descriptor is answered and its buffer is freed. -/
theorem RxConserved.answerFreed (h : RxConserved buffers s) (hinv : RxInv .normal s)
    (hne : s.chan.rxHead ≠ s.chan.dmaHead) {buf : ℕ}
    (hbuf : s.holds (.desc s.cq.length) buf) (outcome : RxOutcome) :
    RxConserved buffers (hdcdrvResponseCq { s with pool := buf :: s.pool, sessions := s.sessions }
      (s.cq.length % HDCDRV_DESC_QUEUE_DEPTH) outcome) := by
  have hnew : buf ∉ s.pool := h.place.notMem_of_ne hbuf (q := .pool) nofun
  refine ⟨h.place.transfer (p := .desc s.cq.length) (q := .pool) (Q := fun _ => True) ?_ ?_ ?_,
    List.nodup_cons.mpr ⟨hnew, h.pool⟩, h.list⟩
  · intro b
    rw [holds_answer hinv hne]
    exact iff_of_false (fun hb => hb.2 rfl) fun hb => hb.2 trivial
  · intro b
    have honly : s.holds (.desc s.cq.length) b ↔ b = buf :=
      ⟨fun hb => Option.some.inj (hb.2.2.symm.trans hbuf.2.2), fun heq => heq ▸ hbuf⟩
    rw [and_true, honly]
    exact List.mem_cons.trans or_comm
  · intro place b hp hq
    cases place with
    | pool => exact absurd rfl hq
    | list fd => exact Iff.rfl
    | desc n =>
        rw [holds_answer hinv hne]
        exact and_iff_left fun heq => hp (heq ▸ rfl)

theorem bufs_update (session : ℤ) (rxList : List BufDesc) (fd : ℤ) :
    (Function.update s.sessions session
      { s.sessions session with rxList := rxList } fd).bufs =
        if fd = session then rxList.filterMap BufDesc.buf else (s.sessions fd).bufs := by
  by_cases hfd : fd = session
  · subst hfd
    rw [Function.update_self, if_pos rfl, RxSession.bufs]
  · rw [Function.update_of_ne hfd, if_neg hfd]

/-- A descriptor is answered and put on the list of its session. -/
theorem RxConserved.answerListed (h : RxConserved buffers s) (hinv : RxInv .normal s)
    (hne : s.chan.rxHead ≠ s.chan.dmaHead) {buf : ℕ}
    (hbuf : s.holds (.desc s.cq.length) buf) (session : ℤ) (outcome : RxOutcome) :
    RxConserved buffers (hdcdrvResponseCq
      (s.setRxList session ((s.sessions session).rxList ++
        [s.chan.rx (s.cq.length % HDCDRV_DESC_QUEUE_DEPTH)]))
      (s.cq.length % HDCDRV_DESC_QUEUE_DEPTH) outcome) := by
  have hnew : buf ∉ (s.sessions session).bufs :=
    h.place.notMem_of_ne hbuf (q := .list session) nofun
  have hlast : [s.chan.rx (s.cq.length % HDCDRV_DESC_QUEUE_DEPTH)].filterMap BufDesc.buf =
      [buf] := by
    rw [List.filterMap_cons_some hbuf.2.2, List.filterMap_nil]
  have hbufs : ((s.sessions session).rxList ++
      [s.chan.rx (s.cq.length % HDCDRV_DESC_QUEUE_DEPTH)]).filterMap BufDesc.buf =
        (s.sessions session).bufs ++ [buf] := by
    rw [List.filterMap_append, hlast, RxSession.bufs]
  refine ⟨h.place.transfer (p := .desc s.cq.length) (q := .list session) (Q := fun _ => True)
    ?_ ?_ ?_, h.pool, fun fd => ?_⟩
  · intro b
    have hiff := holds_answer hinv hne s.pool
      (s.setRxList session ((s.sessions session).rxList ++
        [s.chan.rx (s.cq.length % HDCDRV_DESC_QUEUE_DEPTH)])).sessions outcome s.cq.length b
    refine hiff.trans ?_
    exact iff_of_false (fun hb => hb.2 rfl) fun hb => hb.2 trivial
  · intro b
    have honly : s.holds (.desc s.cq.length) b ↔ b = buf :=
      ⟨fun hb => Option.some.inj (hb.2.2.symm.trans hbuf.2.2), fun heq => heq ▸ hbuf⟩
    rw [and_true, honly]
    show b ∈ RxSession.bufs (Function.update s.sessions session _ session) ↔ _
    rw [bufs_update, if_pos rfl, hbufs, List.mem_append, List.mem_singleton]
    exact Iff.rfl
  · intro place b hp hq
    cases place with
    | pool => exact Iff.rfl
    | list fd =>
        have hfd : fd ≠ session := fun heq => hq (heq ▸ rfl)
        show b ∈ RxSession.bufs (Function.update s.sessions session _ fd) ↔ _
        rw [bufs_update, if_neg hfd]
        exact Iff.rfl
    | desc n =>
        have hiff := holds_answer hinv hne s.pool
          (s.setRxList session ((s.sessions session).rxList ++
            [s.chan.rx (s.cq.length % HDCDRV_DESC_QUEUE_DEPTH)])).sessions outcome n b
        exact hiff.trans (and_iff_left fun heq => hp (heq ▸ rfl))
  · show (RxSession.bufs (Function.update s.sessions session _ fd)).Nodup
    rw [bufs_update, hbufs]
    split
    · exact List.nodup_append.mpr ⟨h.list session, List.nodup_singleton _, by
        rintro a ha b hb rfl
        exact hnew (List.mem_singleton.mp hb ▸ ha)⟩
    · exact h.list fd

theorem RxConserved.taskRound (h : RxConserved buffers s) (hinv : RxInv .normal s) (hook : Bool) :
    RxConserved buffers (hdcdrvMsgChanRecvTask maxSession .normal s hook) := by
  obtain ⟨done, submitted, flight, hring⟩ := hinv.ring
  rw [hdcdrvMsgChanRecvTask]
  split
  · exact ⟨h.place, h.pool, h.list⟩
  · next hne =>
      have hlt : s.cq.length < s.taken := hring.answered_lt_taken hne
      have hhead : (s.chan.rxHead + 1) % HDCDRV_DESC_QUEUE_DEPTH =
          s.cq.length % HDCDRV_DESC_QUEUE_DEPTH := hring.next_head
      have hdesc : DescOk .normal s.skipped flight s.cq.length
          (s.chan.rx (s.cq.length % HDCDRV_DESC_QUEUE_DEPTH)) := hring.desc s.cq.length le_rfl hlt
      simp only [hhead]
      split
      · next hflag => exact h.answerSkipped hinv hne hflag
      · next hflag =>
          have hnew : s.cq.length ∉ s.skipped := fun hmem => hflag (hdesc.flag.mpr hmem)
          obtain ⟨buf, hbuf⟩ := Option.ne_none_iff_exists'.mp (hdesc.buf hnew rfl)
          have hholds : s.holds (.desc s.cq.length) buf :=
            ⟨⟨le_rfl, hlt⟩, Bool.eq_false_iff.mpr hflag, hbuf⟩
          have hfree : s.freeMem .normal [s.chan.rx (s.cq.length % HDCDRV_DESC_QUEUE_DEPTH)] =
              { s with pool := buf :: s.pool, sessions := s.sessions } := by
            simp only [RxState.freeMem, List.filterMap_cons_some hbuf, List.filterMap_nil,
              List.singleton_append]
          split
          · next hnone => exact absurd (hnone.2.symm.trans hbuf) (Option.some_ne_none buf).symm
          · split
            · rw [hfree]
              exact h.answerFreed hinv hne hholds _
            · split
              · rw [hfree]
                exact h.answerFreed hinv hne hholds _
              · split
                · exact ⟨h.place, h.pool, h.list⟩
                · exact h.answerListed hinv hne hholds _ _

/-! ## Readers and the end of a session -/

/-- The head of a list is freed. -/
theorem RxConserved.drain (h : RxConserved buffers s) {fd : ℤ} {freed kept : List BufDesc}
    (hlist : (s.sessions fd).rxList = freed ++ kept) (hsessions : t.sessions =
      Function.update s.sessions fd { s.sessions fd with rxList := kept })
    (hpool : t.pool = freed.filterMap BufDesc.buf ++ s.pool) (hcq : t.cq = s.cq)
    (htaken : t.taken = s.taken) (hrx : t.chan.rx = s.chan.rx) : RxConserved buffers t := by
  have hbufs : (s.sessions fd).bufs =
      freed.filterMap BufDesc.buf ++ kept.filterMap BufDesc.buf := by
    rw [RxSession.bufs, hlist, List.filterMap_append]
  obtain ⟨hfreed, hkept, hdisj⟩ := List.nodup_append.mp (hbufs ▸ h.list fd)
  refine ⟨h.place.transfer (p := .list fd) (q := .pool)
    (Q := (· ∈ freed.filterMap BufDesc.buf)) ?_ ?_ ?_, ?_, fun other => ?_⟩
  · intro b
    simp only [RxState.holds, hsessions, bufs_update, if_true, hbufs, List.mem_append]
    constructor
    · exact fun hb => ⟨.inr hb, fun hf => hdisj b hf b hb rfl⟩
    · exact fun hb => hb.1.resolve_left hb.2
  · intro b
    simp only [RxState.holds, hpool, hbufs, List.mem_append]
    constructor
    · rintro (hb | hb)
      · exact .inr ⟨.inl hb, hb⟩
      · exact .inl hb
    · rintro (hb | ⟨-, hb⟩)
      · exact .inr hb
      · exact .inl hb
  · intro place b hp hq
    cases place with
    | pool => exact absurd rfl hq
    | list other =>
        have hne : other ≠ fd := fun heq => hp (heq ▸ rfl)
        simp only [RxState.holds, hsessions, bufs_update, if_neg hne]
    | desc n => simp only [RxState.holds, hcq, htaken, hrx]
  · rw [hpool]
    refine List.nodup_append.mpr ⟨hfreed, h.pool, ?_⟩
    rintro b hb c hc rfl
    have hin : s.holds (.list fd) b := by
      show b ∈ (s.sessions fd).bufs
      rw [hbufs]
      exact List.mem_append_left _ hb
    exact h.place.notMem_of_ne hin (q := .pool) nofun hc
  · rw [hsessions, bufs_update]
    split
    · exact hkept
    · exact h.list other

/-! ## The steps -/

/-- The submission of a copy fails for no other reason than a full queue. -/
def noCopyFail : RxAct → Bool
  | .notify copy => !copy.fails
  | _ => true

theorem RxConserved.notify (h : RxConserved buffers s) (hinv : RxInv .normal s) {copy : RxCopy}
    (hok : copy.fails = false)
    (hstep : hdcdrvRxMsgNotifyProc maxSession .normal s copy = some t) :
    RxConserved buffers t := by
  rw [hdcdrvRxMsgNotifyProc] at hstep
  split at hstep
  · cases hstep
  · next sqDesc rest hsq =>
      obtain ⟨hlt, -⟩ := hinv.head hsq
      simp only at hstep
      split at hstep
      · cases hstep
        rw [RxState.skip]
        split <;> exact h.write hinv hlt rfl (.inr ⟨rfl, rfl⟩) rfl rfl rfl
      · cases copy with
        | noMem =>
            cases hstep
            exact h.write hinv hlt rfl (.inl rfl) rfl rfl rfl
        | submit buf ret =>
            simp only at hstep
            split at hstep
            · cases hstep
            · next hbuf =>
                have hpool : buf ∈ s.pool := by
                  by_contra hnot
                  exact hbuf ⟨trivial, hnot⟩
                cases ret with
                | noSpace =>
                    cases hstep
                    exact h.write hinv hlt rfl (.inl rfl) rfl rfl rfl
                | fail => cases hok
                | ok =>
                    cases hstep
                    exact h.submit hinv hlt hpool rfl rfl rfl rfl rfl rfl rfl

theorem RxConserved.step (h : RxConserved buffers s) (hinv : RxInv .normal s) (act : RxAct)
    (hok : noCopyFail act = true) (hstep : rxStep maxSession .normal s act = some t) :
    RxConserved buffers t := by
  cases act with
  | send localSession remoteSession checker =>
      simp only [rxStep] at hstep
      split at hstep <;> cases hstep
      exact ⟨h.place, h.pool, h.list⟩
  | notify copy => exact h.notify hinv (Bool.not_eq_true' _ |>.mp hok) hstep
  | callback status => exact h.callback hstep
  | taskStart =>
      simp only [rxStep] at hstep
      split at hstep <;> cases hstep
      exact ⟨h.place, h.pool, h.list⟩
  | taskRound hook =>
      simp only [rxStep] at hstep
      split at hstep <;> cases hstep
      exact h.taskRound hinv hook
  | recv fd count =>
      simp only [rxStep] at hstep
      split at hstep <;> cases hstep
      have hsplit := (List.take_append_drop count (s.sessions fd).rxList).symm
      rw [RxState.trigger]
      split <;> exact h.drain hsplit rfl rfl rfl rfl rfl
  | clearRxBuf fd =>
      cases hstep
      rw [RxState.trigger]
      split <;> exact h.drain (List.append_nil _).symm rfl rfl rfl rfl rfl
  | setSession fd idle checker =>
      cases hstep
      have hbufs : ∀ other, (Function.update s.sessions fd { s.sessions fd with
          idle := idle, innerChecker := checker } other).bufs = (s.sessions other).bufs := by
        intro other
        by_cases hfd : other = fd
        · subst hfd
          rw [Function.update_self, RxSession.bufs, RxSession.bufs]
        · rw [Function.update_of_ne hfd]
      refine ⟨h.place.congr fun place b => ?_, h.pool, fun other => hbufs other ▸ h.list other⟩
      cases place with
      | pool => exact Iff.rfl
      | desc n => exact Iff.rfl
      | list other =>
          show b ∈ RxSession.bufs (Function.update s.sessions fd _ other) ↔ _
          rw [hbufs]
          exact Iff.rfl

theorem rxConserved_init (hnodup : buffers.Nodup)
    (hinit : (rxMachine maxSession .normal buffers).init s) : RxConserved buffers s := by
  obtain ⟨-, -, -, hlists, -, -, -, -, -, hpool, -, htaken, -, -⟩ := hinit
  have hbufs : ∀ fd, (s.sessions fd).bufs = [] := by
    intro fd
    rw [RxSession.bufs, hlists]
    rfl
  have hmem : ∀ b, b ∈ buffers ↔ s.holds .pool b := fun b => hpool ▸ Iff.rfl
  refine ⟨⟨fun place b hb => ?_, fun b hb => ⟨.pool, (hmem b).mp hb, fun place hplace => ?_⟩⟩,
    hpool ▸ hnodup, fun fd => hbufs fd ▸ List.nodup_nil⟩
  · cases place with
    | pool => exact (hmem b).mpr hb
    | desc n => exact absurd hb.1.2 (htaken ▸ Nat.not_lt_zero n)
    | list fd =>
        have hb' : b ∈ (s.sessions fd).bufs := hb
        rw [hbufs] at hb'
        exact absurd hb' List.not_mem_nil
  · cases place with
    | pool => rfl
    | desc n => exact absurd hplace.1.2 (htaken ▸ Nat.not_lt_zero n)
    | list fd =>
        have hb' : b ∈ (s.sessions fd).bufs := hplace
        rw [hbufs] at hb'
        exact absurd hb' List.not_mem_nil

/-- In every run in which no submission fails, every buffer of the pool is in one place. -/
theorem rx_conserved (hnodup : buffers.Nodup)
    (hs : (rxMachine maxSession .normal buffers).ReachIf (fun _ act => noCopyFail act = true) s) :
    RxConserved buffers s := by
  have hinv : RxInv .normal s ∧ RxConserved buffers s := by
    apply hs.invariant
    · exact fun s hinit => ⟨(rxInv_init hinit).1, rxConserved_init hnodup hinit⟩
    · exact fun s act t hinv hok hstep =>
        ⟨hinv.1.step act hstep, hinv.2.step hinv.1 act hok hstep⟩
  exact hinv.2

/-- A packet is put on the list, and another is dropped with its closed session. -/
def listAndDrop : List RxAct :=
  [.send 0 0 1, .send 0 0 1, .notify (.submit 7 .ok), .notify (.submit 8 .noSpace),
    .notify (.submit 8 .ok), .callback 0, .taskStart, .taskRound false, .callback 0,
    .setSession 0 true 0, .taskRound false]

theorem rx_conserved_two :
    RxConserved [7, 8] ((rxMachine 1 .normal [7, 8]).final oneSession listAndDrop) := by
  have hs : (rxMachine 1 .normal [7, 8]).ReachIf (fun _ act => noCopyFail act = true)
      ((rxMachine 1 .normal [7, 8]).final oneSession listAndDrop) :=
    .final (.start init_oneSession) (by decide +kernel) (by decide +kernel)
  exact rx_conserved (by decide) hs

def submitFails : List RxAct :=
  [.send 0 0 1, .notify (.submit 7 .fail), .taskStart, .taskRound false, .taskRound false]

/-- The submission fails, and the buffer is in no place when the descriptor is answered. -/
theorem rx_leaks :
    ∃ s, (rxMachine 1 .normal [7, 8]).Reach s ∧ s.cq.length = s.taken ∧
      ∀ place, ¬s.holds place 7 := by
  refine ⟨(rxMachine 1 .normal [7, 8]).final oneSession submitFails, ?_, ?_, ?_⟩
  · exact .final (.start init_oneSession) (by decide +kernel)
  · decide +kernel
  · intro place hplace
    cases place with
    | pool =>
        have hpool : ((rxMachine 1 .normal [7, 8]).final oneSession submitFails).pool = [8] := by
          decide +kernel
        have hmem : 7 ∈ ((rxMachine 1 .normal [7, 8]).final oneSession submitFails).pool := hplace
        rw [hpool] at hmem
        exact absurd hmem (by decide)
    | desc n =>
        have hcq : ((rxMachine 1 .normal [7, 8]).final oneSession submitFails).cq.length = 1 := by
          decide +kernel
        have htaken : ((rxMachine 1 .normal [7, 8]).final oneSession submitFails).taken = 1 := by
          decide +kernel
        have hwindow := hplace.1
        omega
    | list fd =>
        have hnil : 7 ∈ ([] : List ℕ) := hplace
        exact absurd hnil List.not_mem_nil

end OpiaiKernel.Hdc
