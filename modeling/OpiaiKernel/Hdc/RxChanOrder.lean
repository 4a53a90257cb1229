import OpiaiKernel.Hdc.RxChan

/-!
# Descriptors are answered in order

The numbers of the descriptors that are answered, copied, submitted and taken follow one
another within the depth of the ring, whatever their positions are modulo it.
-/

namespace OpiaiKernel.Hdc

/-! ## The ring -/

/-- What the positions are about. -/
structure RxRing where
  rx : ℕ → BufDesc
  rxHead : ℕ
  dmaHead : ℕ
  submitDmaHead : ℕ
  answered : ℕ
  taken : ℕ
  sent : ℕ
  sq : List ℕ
  dma : List DmaCopy
  skipped : List ℕ

def RxState.ring (s : RxState) : RxRing where
  rx := s.chan.rx
  rxHead := s.chan.rxHead
  dmaHead := s.chan.dmaHead
  submitDmaHead := s.chan.submitDmaHead
  answered := s.cq.length
  taken := s.taken
  sent := s.sent
  sq := s.sq.map SqDesc.data
  dma := s.dma
  skipped := s.skipped

/-- The slot of descriptor `n`, which is taken and not answered. -/
structure DescOk (type : ChanType) (skipped flight : List ℕ) (n : ℕ) (desc : BufDesc) : Prop where
  flag : desc.skipFlag = true ↔ n ∈ skipped
  buf : n ∉ skipped → type = .normal → desc.buf ≠ none
  data : n ∉ skipped → n ∉ flight → desc.status = 0 → desc.data = n

/-- The copies before `done` are complete, those before `submitted` are submitted, and
`flight` are the ones between. -/
structure RingInv (type : ChanType) (r : RxRing) (done submitted : ℕ) (flight : List ℕ) :
    Prop where
  answered_le : r.answered ≤ done
  done_le : done ≤ submitted
  submitted_le : submitted ≤ r.taken
  taken_le : r.taken ≤ r.sent
  sent_lt : r.sent < r.answered + 16
  rxHead : r.rxHead = (r.answered + 15) % 16
  dmaHead : r.dmaHead = (done + 15) % 16
  submitDmaHead : r.submitDmaHead = (submitted + 15) % 16
  sq : r.sq = List.range' r.taken (r.sent - r.taken)
  dma : r.dma = flight.map fun n => ⟨n % 16, n⟩
  sorted : flight.Pairwise (· < ·)
  window : ∀ n ∈ flight, done ≤ n ∧ n < submitted
  last : ∀ n ∈ flight.getLast?, n + 1 = submitted
  idle : flight = [] → done = submitted
  skipped : ∀ n ∈ r.skipped, n < r.taken
  desc : ∀ n, r.answered ≤ n → n < r.taken → DescOk type r.skipped flight n (r.rx (n % 16))

variable {type : ChanType} {r : RxRing} {done submitted : ℕ} {flight : List ℕ} {desc : BufDesc}

/-- A slot that a taken descriptor does not have. -/
theorem RingInv.slot_ne (h : RingInv type r done submitted flight) (hlt : r.taken < r.sent) {n : ℕ}
    (hn : r.answered ≤ n) (hnt : n < r.taken) : n % 16 ≠ r.taken % 16 := by
  have := h.sent_lt
  intro heq
  have := (Ring.mod_eq_iff_of_window hn (by omega) (by omega) (by omega)).mp heq
  omega

theorem DescOk.congr {skipped skipped' flight flight' : List ℕ} {n : ℕ}
    (h : DescOk type skipped flight n desc) (hs : n ∈ skipped' ↔ n ∈ skipped)
    (hf : n ∈ flight → n ∈ flight') : DescOk type skipped' flight' n desc where
  flag := h.flag.trans hs.symm
  buf hn := h.buf (fun hmem => hn (hs.mpr hmem))
  data hn hnf := h.data (fun hmem => hn (hs.mpr hmem)) (fun hmem => hnf (hf hmem))

theorem RingInv.desc_update (h : RingInv type r done submitted flight) (hlt : r.taken < r.sent)
    {n : ℕ} (hn : r.answered ≤ n) (hnt : n < r.taken) :
    DescOk type r.skipped flight n (Function.update r.rx (r.taken % 16) desc (n % 16)) := by
  rw [Function.update_of_ne (h.slot_ne hlt hn hnt)]
  exact h.desc n hn hnt

/-- The slot of the next descriptor is written. -/
theorem RingInv.write (h : RingInv type r done submitted flight) (hlt : r.taken < r.sent) :
    RingInv type { r with rx := Function.update r.rx (r.taken % 16) desc }
      done submitted flight :=
  { h with desc := fun _ hn hnt => h.desc_update hlt hn hnt }

theorem RingInv.send (h : RingInv type r done submitted flight) (hlt : r.sent + 1 < r.answered + 16) :
    RingInv type { r with sq := r.sq ++ [r.sent], sent := r.sent + 1 } done submitted flight :=
  { h with
    taken_le := Nat.le_succ_of_le h.taken_le
    sent_lt := hlt
    sq := by
      have htaken := h.taken_le
      have hnext : r.sent + 1 - r.taken = r.sent - r.taken + 1 := by omega
      have hlast : r.taken + (r.sent - r.taken) = r.sent := by omega
      rw [hnext, List.range'_concat, one_mul, hlast, h.sq] }

theorem RingInv.sq_tail (h : RingInv type r done submitted flight) (hlt : r.taken < r.sent) :
    r.sq.tail = List.range' (r.taken + 1) (r.sent - (r.taken + 1)) := by
  have hnext : r.sent - r.taken = r.sent - (r.taken + 1) + 1 := by omega
  rw [h.sq, hnext, List.range'_succ, List.tail_cons]

/-- The next descriptor is taken without a copy while one is in flight. -/
theorem RingInv.skip (h : RingInv type r done submitted flight) (hlt : r.taken < r.sent)
    {rest : List ℕ} (hrest : rest = r.sq.tail) (hflag : desc.skipFlag = true) :
    RingInv type
      { r with
        rx := Function.update r.rx (r.taken % 16) desc
        taken := r.taken + 1
        sq := rest
        skipped := r.taken :: r.skipped } done submitted flight :=
  { h with
    submitted_le := Nat.le_succ_of_le h.submitted_le
    taken_le := hlt
    sq := hrest.trans (h.sq_tail hlt)
    skipped := fun n hn => by
      rcases List.mem_cons.mp hn with rfl | hn
      · exact Nat.lt_succ_self _
      · exact Nat.lt_succ_of_lt (h.skipped n hn)
    desc := fun n hn hnt => by
      rcases Nat.lt_succ_iff_lt_or_eq.mp hnt with hnt | rfl
      · refine (h.desc_update hlt hn hnt).congr ?_ id
        exact ⟨fun hmem => (List.mem_cons.mp hmem).resolve_left (Nat.ne_of_lt hnt),
          List.mem_cons_of_mem _⟩
      · have hmem : r.taken ∈ r.taken :: r.skipped := List.mem_cons_self
        show DescOk type _ flight r.taken (Function.update r.rx _ desc _)
        rw [Function.update_self]
        exact ⟨iff_of_true hflag hmem, fun hn => absurd hmem hn, fun hn => absurd hmem hn⟩ }

/-- Without a copy in flight all descriptors up to the next one are done. -/
theorem RingInv.pass (h : RingInv type r done submitted flight)
    (hidle : r.submitDmaHead = r.dmaHead) (hpos : r.answered < r.taken) :
    flight = [] ∧ RingInv type
      { r with dmaHead := (r.taken - 1) % 16, submitDmaHead := (r.taken - 1) % 16 }
      r.taken r.taken [] := by
  have hanswered := h.answered_le
  have hdone := h.done_le
  have hsubmitted := h.submitted_le
  have htaken := h.taken_le
  have hsent := h.sent_lt
  have heq : done = submitted := by
    rw [h.submitDmaHead, h.dmaHead] at hidle
    omega
  have hnil : flight = [] := by
    refine List.eq_nil_iff_forall_not_mem.mpr fun n hn => ?_
    have := h.window n hn
    omega
  subst hnil
  have hmod : (r.taken - 1) % 16 = (r.taken + 15) % 16 := by omega
  exact ⟨rfl, { h with
    answered_le := hpos.le
    done_le := le_rfl
    submitted_le := le_rfl
    dmaHead := hmod
    submitDmaHead := hmod
    dma := h.dma
    sorted := List.Pairwise.nil
    window := fun n hn => absurd hn List.not_mem_nil
    last := fun n hn => absurd hn (by simp)
    idle := fun _ => rfl }⟩

/-- The copy of the next descriptor is submitted. -/
theorem RingInv.submit (h : RingInv type r done submitted flight) (hlt : r.taken < r.sent)
    {rest : List ℕ} (hrest : rest = r.sq.tail) (hflag : desc.skipFlag = false) (hbuf : type = .normal → desc.buf ≠ none) :
    RingInv type
      { r with
        rx := Function.update r.rx (r.taken % 16) desc
        submitDmaHead := r.taken % 16
        taken := r.taken + 1
        sq := rest
        dma := r.dma ++ [⟨r.taken % 16, r.taken⟩] } done (r.taken + 1) (flight ++ [r.taken]) := by
  have hanswered := h.answered_le
  have hdone := h.done_le
  have hsubmitted := h.submitted_le
  have hnew : r.taken ∉ r.skipped := fun hmem => lt_irrefl _ (h.skipped _ hmem)
  refine
    { answered_le := h.answered_le, done_le := by omega, submitted_le := le_rfl, taken_le := hlt,
      sent_lt := h.sent_lt, rxHead := h.rxHead, dmaHead := h.dmaHead, submitDmaHead := ?_,
      sq := hrest.trans (h.sq_tail hlt), dma := ?_, sorted := ?_, window := ?_, last := ?_, idle := ?_,
      skipped := fun n hn => Nat.lt_succ_of_lt (h.skipped n hn), desc := ?_ }
  · show r.taken % 16 = (r.taken + 1 + 15) % 16
    omega
  · rw [h.dma, List.map_append]
    rfl
  · refine List.pairwise_append.mpr ⟨h.sorted, List.pairwise_singleton _ _, ?_⟩
    intro a ha b hb
    rw [List.mem_singleton.mp hb]
    have := h.window a ha
    omega
  · intro n hn
    rcases List.mem_append.mp hn with hn | hn
    · have := h.window n hn
      omega
    · rw [List.mem_singleton.mp hn]
      omega
  · intro n hn
    rw [List.getLast?_concat] at hn
    rw [Option.mem_some.mp hn]
  · exact fun hnil => absurd hnil (by simp)
  · intro n hn hnt
    rcases Nat.lt_succ_iff_lt_or_eq.mp hnt with hnt | rfl
    · exact (h.desc_update hlt hn hnt).congr Iff.rfl (List.mem_append_left _)
    · have hmem : r.taken ∈ flight ++ [r.taken] := List.mem_append_right _ List.mem_cons_self
      show DescOk type _ _ r.taken (Function.update r.rx _ desc _)
      rw [Function.update_self]
      exact ⟨iff_of_false (by simp [hflag]) hnew, fun _ => hbuf, fun _ hn => absurd hmem hn⟩

/-- The slots of two descriptors in the window. -/
theorem RingInv.ne_slot (h : RingInv type r done submitted flight) {m n : ℕ}
    (hm : r.answered ≤ m) (hmt : m < r.taken) (hn : r.answered ≤ n) (hnt : n < r.taken)
    (hne : n ≠ m) : n % 16 ≠ m % 16 := by
  have := h.taken_le
  have := h.sent_lt
  exact fun heq =>
    hne ((Ring.mod_eq_iff_of_window hn (by omega) hm (by omega)).mp heq)

/-- The first copy in flight completes. -/
theorem RingInv.complete {p : ℕ} {flight : List ℕ}
    (h : RingInv type r done submitted (p :: flight)) (status : ℤ) (data : ℕ)
    (hdata : status = 0 → data = p) :
    RingInv type
      { r with
        rx := Function.update r.rx (p % 16)
          { r.rx (p % 16) with status := status, data := data }
        dmaHead := p % 16
        dma := r.dma.tail } (p + 1) submitted flight := by
  obtain ⟨hp, hps⟩ := h.window p List.mem_cons_self
  have hanswered := h.answered_le
  have hsubmitted := h.submitted_le
  obtain ⟨hlt, hsorted⟩ := List.pairwise_cons.mp h.sorted
  refine { h with
    answered_le := (hanswered.trans hp).trans (Nat.le_succ p), done_le := hps, dmaHead := ?_,
    dma := ?_, sorted := hsorted, window := ?_, last := ?_, idle := ?_, desc := ?_ }
  · show p % 16 = (p + 1 + 15) % 16
    omega
  · rw [h.dma]
    rfl
  · exact fun n hn => ⟨hlt n hn, (h.window n (List.mem_cons_of_mem _ hn)).2⟩
  · intro n hn
    refine h.last n ?_
    cases flight with
    | nil => simp at hn
    | cons q flight => rwa [List.getLast?_cons_cons]
  · rintro rfl
    exact h.last p rfl
  · intro n hn hnt
    by_cases hnp : n = p
    · subst hnp
      have hdesc := h.desc n hn hnt
      show DescOk type _ flight n (Function.update r.rx (n % 16) _ (n % 16))
      rw [Function.update_self]
      exact ⟨hdesc.flag, hdesc.buf, fun _ _ => hdata⟩
    · have hslot := h.ne_slot (m := p) (by omega) (by omega) hn hnt hnp
      show DescOk type _ flight n (Function.update r.rx (p % 16) _ (n % 16))
      rw [Function.update_of_ne hslot]
      exact (h.desc n hn hnt).congr Iff.rfl
        fun hmem => (List.mem_cons.mp hmem).resolve_left hnp

/-- The first descriptor without an answer is answered. -/
theorem RingInv.answer (h : RingInv type r done submitted flight) (desc : BufDesc)
    (hlt : r.answered < done) :
    RingInv type
      { r with
        rx := Function.update r.rx (r.answered % 16) desc
        rxHead := r.answered % 16
        answered := r.answered + 1 } done submitted flight := by
  have hdone := h.done_le
  have hsubmitted := h.submitted_le
  refine { h with answered_le := hlt, sent_lt := ?_, rxHead := ?_, desc := ?_ }
  · have := h.sent_lt
    show r.sent < r.answered + 1 + 16
    omega
  · show r.answered % 16 = (r.answered + 1 + 15) % 16
    omega
  · intro n hn hnt
    have hslot := h.ne_slot (m := r.answered) le_rfl (by omega) (Nat.le_of_succ_le hn) hnt
      (Nat.ne_of_gt hn)
    show DescOk type _ flight n (Function.update r.rx (r.answered % 16) desc (n % 16))
    rw [Function.update_of_ne hslot]
    exact h.desc n (Nat.le_of_succ_le hn) hnt

/-- The receive task has something to do exactly while a finished descriptor is left. -/
theorem RingInv.rxHead_eq_iff (h : RingInv type r done submitted flight) :
    r.rxHead = r.dmaHead ↔ r.answered = done := by
  have := h.answered_le
  have := h.done_le
  have := h.submitted_le
  have := h.taken_le
  have := h.sent_lt
  rw [h.rxHead, h.dmaHead]
  omega

theorem RingInv.answered_le_taken (h : RingInv type r done submitted flight) :
    r.answered ≤ r.taken :=
  (h.answered_le.trans h.done_le).trans h.submitted_le

/-- The descriptor the receive task takes next is finished. -/
theorem RingInv.answered_lt_done (h : RingInv type r done submitted flight)
    (hne : r.rxHead ≠ r.dmaHead) : r.answered < done :=
  Nat.lt_of_le_of_ne h.answered_le fun heq => hne (h.rxHead_eq_iff.mpr heq)

theorem RingInv.answered_lt_taken (h : RingInv type r done submitted flight)
    (hne : r.rxHead ≠ r.dmaHead) : r.answered < r.taken :=
  (h.answered_lt_done hne).trans_le (h.done_le.trans h.submitted_le)

theorem RingInv.next_head (h : RingInv type r done submitted flight) :
    (r.rxHead + 1) % 16 = r.answered % 16 := by
  rw [h.rxHead]
  omega

/-! ## The answers -/

/-- The packet that is delivered. -/
def RxOutcome.packet : RxOutcome → Option ℕ
  | .hooked _ data => some data
  | .listed _ data => some data
  | _ => none

/-- The packet, if it is put on the list of the session. -/
def listedOn (fd : ℤ) : ℕ × RxOutcome → Option ℕ
  | (_, .listed session data) => if session = fd then some data else none
  | _ => none

structure LogInv (cq : List CqDesc) (log : List (ℕ × RxOutcome)) (skipped : List ℕ)
    (sessions : ℤ → RxSession) : Prop where
  number : log.map Prod.fst = List.range cq.length
  head : cq.map CqDesc.sqHead = (List.range cq.length).map (· % HDCDRV_DESC_QUEUE_DEPTH)
  packet : ∀ n outcome data, (n, outcome) ∈ log → outcome.packet = some data → data = n
  skip : ∀ n, (n, .skipped) ∈ log ↔ n < cq.length ∧ n ∈ skipped
  dead : ∀ n live status, (n, .dead live status) ∈ log → live = false ∨ status ≠ 0
  list : ∀ fd, ((sessions fd).rxList.map BufDesc.data) <:+ log.filterMap (listedOn fd)

variable {cq : List CqDesc} {log : List (ℕ × RxOutcome)} {skipped : List ℕ}
  {sessions sessions' : ℤ → RxSession}

/-- Lists get shorter at their heads only. -/
theorem LogInv.drain (h : LogInv cq log skipped sessions)
    (hsub : ∀ fd, (sessions' fd).rxList <:+ (sessions fd).rxList) :
    LogInv cq log skipped sessions' :=
  { h with list := fun fd => ((hsub fd).map _).trans (h.list fd) }

/-- A descriptor that is taken later is skipped. -/
theorem LogInv.skipLater (h : LogInv cq log skipped sessions) {m : ℕ} (hm : cq.length ≤ m) :
    LogInv cq log (m :: skipped) sessions :=
  { h with
    skip := fun n => by
      rw [h.skip n, List.mem_cons]
      exact and_congr_right fun hn => ⟨.inr, fun hmem => hmem.resolve_left (by omega)⟩ }

/-- The next descriptor is answered. -/
theorem LogInv.answer (h : LogInv cq log skipped sessions) {outcome : RxOutcome} (status session : ℤ)
    (hpacket : ∀ data, outcome.packet = some data → data = cq.length)
    (hskip : outcome = .skipped ↔ cq.length ∈ skipped)
    (hdead : ∀ live status, outcome = .dead live status → live = false ∨ status ≠ 0)
    (hlist : ∀ fd, ((sessions' fd).rxList.map BufDesc.data) <:+
      log.filterMap (listedOn fd) ++ (listedOn fd (cq.length, outcome)).toList) :
    LogInv (cq ++ [⟨cq.length % HDCDRV_DESC_QUEUE_DEPTH, status, session⟩])
      (log ++ [(cq.length, outcome)]) skipped sessions' where
  number := by
    rw [List.map_append, h.number, List.length_append, List.length_singleton, List.range_succ]
    rfl
  head := by
    rw [List.map_append, h.head, List.length_append, List.length_singleton, List.range_succ,
      List.map_append]
    rfl
  packet n o data hmem hdata := by
    rcases List.mem_append.mp hmem with hmem | hmem
    · exact h.packet n o data hmem hdata
    · obtain ⟨rfl, rfl⟩ := Prod.mk.inj (List.mem_singleton.mp hmem)
      exact hpacket data hdata
  skip n := by
    rw [List.mem_append, h.skip n, List.mem_singleton, Prod.mk.injEq, List.length_append,
      List.length_singleton, Nat.lt_succ_iff_lt_or_eq]
    constructor
    · rintro (⟨hn, hs⟩ | ⟨rfl, ho⟩)
      · exact ⟨.inl hn, hs⟩
      · exact ⟨.inr rfl, hskip.mp ho.symm⟩
    · rintro ⟨hn | rfl, hs⟩
      · exact .inl ⟨hn, hs⟩
      · exact .inr ⟨rfl, (hskip.mpr hs).symm⟩
  dead n live status hmem := by
    rcases List.mem_append.mp hmem with hmem | hmem
    · exact h.dead n live status hmem
    · exact hdead live status (Prod.mk.inj (List.mem_singleton.mp hmem)).2.symm
  list fd := by
    have hsplit : (log ++ [(cq.length, outcome)]).filterMap (listedOn fd) =
        log.filterMap (listedOn fd) ++ (listedOn fd (cq.length, outcome)).toList := by
      rw [List.filterMap_append]
      congr 1
    rw [hsplit]
    exact hlist fd

theorem LogInv.list_unlisted (h : LogInv cq log skipped sessions) {entry : ℕ × RxOutcome}
    (hentry : ∀ fd, listedOn fd entry = none) (fd : ℤ) :
    ((sessions fd).rxList.map BufDesc.data) <:+
      log.filterMap (listedOn fd) ++ (listedOn fd entry).toList := by
  rw [hentry fd, Option.toList_none, List.append_nil]
  exact h.list fd

theorem LogInv.list_listed (h : LogInv cq log skipped sessions) (n : ℕ) (session : ℤ) (fd : ℤ) :
    ((Function.update sessions session { sessions session with
        rxList := (sessions session).rxList ++ [desc] } fd).rxList.map BufDesc.data) <:+
      log.filterMap (listedOn fd) ++ (listedOn fd (n, .listed session desc.data)).toList := by
  by_cases hfd : fd = session
  · subst hfd
    obtain ⟨before, hbefore⟩ := h.list fd
    have hon : listedOn fd (n, .listed fd desc.data) = some desc.data := if_pos rfl
    rw [Function.update_self, hon, List.map_append, ← hbefore, List.append_assoc]
    exact List.suffix_append _ _
  · have hon : listedOn fd (n, .listed session desc.data) = none := if_neg (Ne.symm hfd)
    rw [Function.update_of_ne hfd, hon, Option.toList_none, List.append_nil]
    exact h.list fd

/-! ## The state -/

/-- A receive task that has stopped before a finished descriptor waits for room on the
list of its session. -/
def Parked (type : ChanType) (s : RxState) : Prop :=
  s.rxTask = false → s.running = false → s.chan.rxHead ≠ s.chan.dmaHead →
    s.chan.rxTriggerFlag = true ∧
      hdcdrvSessionRxListIsFull type
        (s.sessions (s.chan.rx ((s.chan.rxHead + 1) % 16)).localSession) = true

structure RxInv (type : ChanType) (s : RxState) : Prop where
  ring : ∃ done submitted flight, RingInv type s.ring done submitted flight
  log : LogInv s.cq s.log s.skipped s.sessions
  parked : Parked type s

variable {maxSession : ℤ} {buffers : List ℕ} {s t : RxState}

@[simp] theorem ring_setRxList (fd : ℤ) (rxList : List BufDesc) :
    (s.setRxList fd rxList).ring = s.ring := rfl

@[simp] theorem ring_freeMem (descs : List BufDesc) : (s.freeMem type descs).ring = s.ring := by
  cases type <;> rfl

@[simp] theorem ring_trigger : s.trigger.ring = s.ring := by
  rw [RxState.trigger]
  split <;> rfl

theorem Parked.trigger (h : s.rxTask = false → s.running = false →
    s.chan.rxHead ≠ s.chan.dmaHead → s.chan.rxTriggerFlag = true) : Parked type s.trigger := by
  rw [RxState.trigger]
  split
  · exact fun htask => absurd htask (by simp)
  · next hflag => exact fun htask hrun hne => absurd (h htask hrun hne) hflag

/-! ## The steps -/

/-- What is written for the first readable descriptor does not concern a parked task. -/
theorem Parked.congr (h : Parked type s) {done submitted : ℕ} {flight : List ℕ}
    (hring : RingInv type s.ring done submitted flight) (hlt : s.taken < s.sent)
    (htask : t.rxTask = s.rxTask) (hrun : t.running = s.running)
    (hrx : t.chan.rx = Function.update s.chan.rx (s.taken % 16) desc)
    (hhead : t.chan.rxHead = s.chan.rxHead) (hdma : t.chan.dmaHead = s.chan.dmaHead)
    (hflag : t.chan.rxTriggerFlag = s.chan.rxTriggerFlag) (hsessions : t.sessions = s.sessions) :
    Parked type t := by
  intro htask' hrun' hne
  rw [hhead, hdma] at hne
  obtain ⟨htrigger, hfull⟩ := h (htask ▸ htask') (hrun ▸ hrun') hne
  have hnext : (s.chan.rxHead + 1) % 16 = s.cq.length % 16 := hring.next_head
  have hslot : (s.chan.rxHead + 1) % 16 ≠ s.taken % 16 :=
    hnext ▸ hring.slot_ne hlt le_rfl (hring.answered_lt_taken hne)
  rw [hflag, hhead, hrx, Function.update_of_ne hslot, hsessions]
  exact ⟨htrigger, hfull⟩

/-- A descriptor is taken without a copy. -/
theorem RxInv.skip (hinv : RxInv type s) (hlt : s.taken < s.sent) {rest : List SqDesc}
    (hrest : rest.map SqDesc.data = (s.sq.map SqDesc.data).tail) (pool : List ℕ)
    (hflag : desc.skipFlag = true) :
    RxInv type (((({ s with pool := pool, skipped := s.taken :: s.skipped } : RxState).setDesc
      (s.taken % HDCDRV_DESC_QUEUE_DEPTH) desc).skip (s.taken % HDCDRV_DESC_QUEUE_DEPTH)).take
        rest) := by
  obtain ⟨done, submitted, flight, hring⟩ := hinv.ring
  have hle : s.cq.length ≤ s.taken := hring.answered_le_taken
  have hskip := hring.skip hlt hrest hflag
  have hlog := hinv.log.skipLater (m := s.taken) hle
  rw [RxState.skip]
  split
  · next hidle =>
      have hpass := (hskip.pass hidle (Nat.lt_succ_of_le hle)).2
      exact ⟨⟨s.taken + 1, s.taken + 1, [], hpass⟩, hlog,
        fun htask => absurd htask (by simp [RxState.take])⟩
  · exact ⟨⟨done, submitted, flight, hskip⟩, hlog,
      hinv.parked.congr hring hlt rfl rfl rfl rfl rfl rfl rfl⟩

/-- The slot of the first readable descriptor is written, and it stays readable. -/
theorem RxInv.write (hinv : RxInv type s) (hlt : s.taken < s.sent) :
    RxInv type (s.setDesc (s.taken % HDCDRV_DESC_QUEUE_DEPTH) desc) := by
  obtain ⟨done, submitted, flight, hring⟩ := hinv.ring
  exact ⟨⟨done, submitted, flight, hring.write hlt⟩, hinv.log,
    hinv.parked.congr hring hlt rfl rfl rfl rfl rfl rfl rfl⟩

theorem RxInv.noSpace (hinv : RxInv type s) (hlt : s.taken < s.sent) :
    RxInv type { s.setDesc (s.taken % HDCDRV_DESC_QUEUE_DEPTH) desc with
      chan := { (s.setDesc (s.taken % HDCDRV_DESC_QUEUE_DEPTH) desc).chan with
        dmaNeedSubmitFlag := true } } :=
  have hwrite := hinv.write hlt
  ⟨hwrite.ring, hwrite.log, hwrite.parked⟩

theorem RxInv.submit (hinv : RxInv type s) (hlt : s.taken < s.sent) {rest : List SqDesc}
    (hrest : rest.map SqDesc.data = (s.sq.map SqDesc.data).tail) (pool : List ℕ)
    (hflag : desc.skipFlag = false) (hbuf : type = .normal → desc.buf ≠ none) :
    RxInv type
      { s with
        chan := { s.chan with
          rx := Function.update s.chan.rx (s.taken % HDCDRV_DESC_QUEUE_DEPTH) desc
          submitDmaHead := s.taken % HDCDRV_DESC_QUEUE_DEPTH }
        pool := pool
        dma := s.dma ++ [⟨s.taken % HDCDRV_DESC_QUEUE_DEPTH, s.taken⟩]
        sq := rest
        taken := s.taken + 1 } := by
  obtain ⟨done, submitted, flight, hring⟩ := hinv.ring
  exact ⟨⟨done, s.taken + 1, flight ++ [s.taken], hring.submit hlt hrest hflag hbuf⟩, hinv.log,
    hinv.parked.congr hring hlt rfl rfl rfl rfl rfl rfl rfl⟩

/-- The number of the first readable descriptor is the number of descriptors taken. -/
theorem RxInv.head (hinv : RxInv type s) {sqDesc : SqDesc} {rest : List SqDesc}
    (hsq : s.sq = sqDesc :: rest) : s.taken < s.sent ∧ sqDesc.data = s.taken := by
  obtain ⟨done, submitted, flight, hring⟩ := hinv.ring
  have hlist : s.sq.map SqDesc.data = List.range' s.taken (s.sent - s.taken) := hring.sq
  rw [hsq, List.map_cons] at hlist
  cases hn : s.sent - s.taken with
  | zero => simp [hn] at hlist
  | succ n =>
      rw [hn, List.range'_succ] at hlist
      exact ⟨by omega, (List.cons.inj hlist).1⟩

theorem RxInv.notify (hinv : RxInv type s) {copy : RxCopy}
    (hstep : hdcdrvRxMsgNotifyProc maxSession type s copy = some t) : RxInv type t := by
  rw [hdcdrvRxMsgNotifyProc] at hstep
  split at hstep
  · cases hstep
  · next sqDesc rest hsq =>
      obtain ⟨hlt, hdata⟩ := hinv.head hsq
      have hrest : rest.map SqDesc.data = (s.sq.map SqDesc.data).tail := by rw [hsq]; rfl
      simp only at hstep
      split at hstep
      · cases hstep
        exact hinv.skip hlt hrest s.pool rfl
      · cases copy with
        | noMem =>
            simp only at hstep
            split at hstep
            · cases hstep
              exact hinv.write hlt
            · cases hstep
        | submit buf ret =>
            simp only at hstep
            split at hstep
            · cases hstep
            · cases ret with
              | noSpace =>
                  cases hstep
                  exact hinv.noSpace hlt
              | fail =>
                  cases hstep
                  exact hinv.skip hlt hrest _ rfl
              | ok =>
                  cases hstep
                  rw [hdata]
                  refine hinv.submit hlt hrest _ rfl ?_
                  rintro rfl
                  exact Option.some_ne_none buf

theorem RxInv.callback (hinv : RxInv type s) {status : ℤ}
    (hstep : hdcdrvRxMsgCallback s status = some t) : RxInv type t := by
  obtain ⟨done, submitted, flight, hring⟩ := hinv.ring
  have hdma : s.dma = flight.map fun n => ⟨n % 16, n⟩ := hring.dma
  cases flight with
  | nil =>
      rw [hdcdrvRxMsgCallback, hdma] at hstep
      cases hstep
  | cons p flight =>
      simp only [hdcdrvRxMsgCallback, hdma, List.map_cons] at hstep
      have hin : ¬HDCDRV_DESC_QUEUE_DEPTH ≤ p % 16 := Nat.not_le.mpr (Nat.mod_lt p (by decide))
      rw [if_neg hin] at hstep
      cases hstep
      have htail : (flight.map fun n => (⟨n % 16, n⟩ : DmaCopy)) = s.ring.dma.tail := by
        rw [hring.dma]
        rfl
      have hnext := hring.complete status
        (if status = 0 then p else (s.chan.rx (p % 16)).data) fun h0 => if_pos h0
      rw [← htail] at hnext
      exact ⟨⟨p + 1, submitted, flight, hnext⟩, hinv.log, fun htask => absurd htask (by simp)⟩

/-- A descriptor is answered by the running task. -/
theorem RxInv.answer (hinv : RxInv type s) (hrun : s.running = true)
    (hne : s.chan.rxHead ≠ s.chan.dmaHead) {outcome : RxOutcome} (pool : List ℕ)
    (sessions' : ℤ → RxSession)
    (hpacket : ∀ data, outcome.packet = some data → data = s.cq.length)
    (hskip : outcome = .skipped ↔ s.cq.length ∈ s.skipped)
    (hdead : ∀ live status, outcome = .dead live status → live = false ∨ status ≠ 0)
    (hlist : ∀ fd, ((sessions' fd).rxList.map BufDesc.data) <:+
      s.log.filterMap (listedOn fd) ++ (listedOn fd (s.cq.length, outcome)).toList) :
    RxInv type (hdcdrvResponseCq { s with pool := pool, sessions := sessions' }
      (s.cq.length % HDCDRV_DESC_QUEUE_DEPTH) outcome) := by
  obtain ⟨done, submitted, flight, hring⟩ := hinv.ring
  have hnext := hring.answer (hdcdrvDescClear (s.chan.rx (s.cq.length % 16)))
    (hring.answered_lt_done hne)
  refine ⟨⟨done, submitted, flight, ?_⟩, ?_, fun _ hstop => ?_⟩
  · convert hnext using 1
    simp [RxState.ring, hdcdrvResponseCq, RxState.setDesc, HDCDRV_DESC_QUEUE_DEPTH]
  · exact hinv.log.answer _ _ hpacket hskip hdead hlist
  · exact absurd (hrun.symm.trans hstop) (by decide)

theorem freeMem_eq (type : ChanType) (s : RxState) (descs : List BufDesc) :
    ∃ pool, s.freeMem type descs = { s with pool := pool } := by
  cases type
  · exact ⟨_, rfl⟩
  · exact ⟨s.pool, rfl⟩

theorem RxInv.taskRound (hinv : RxInv type s) (hrun : s.running = true) (hook : Bool) :
    RxInv type (hdcdrvMsgChanRecvTask maxSession type s hook) := by
  obtain ⟨done, submitted, flight, hring⟩ := hinv.ring
  rw [hdcdrvMsgChanRecvTask]
  split
  · next heq => exact ⟨hinv.ring, hinv.log, fun _ _ hne => absurd heq hne⟩
  · next hne =>
      have hhead : (s.chan.rxHead + 1) % HDCDRV_DESC_QUEUE_DEPTH =
          s.cq.length % HDCDRV_DESC_QUEUE_DEPTH := hring.next_head
      have hdesc : DescOk type s.skipped flight s.cq.length
          (s.chan.rx (s.cq.length % HDCDRV_DESC_QUEUE_DEPTH)) :=
        hring.desc s.cq.length le_rfl (hring.answered_lt_taken hne)
      simp only [hhead]
      split
      · next hflag =>
          exact hinv.answer hrun hne s.pool s.sessions nofun
            (iff_of_true rfl (hdesc.flag.mp hflag)) nofun (hinv.log.list_unlisted fun _ => rfl)
      · next hflag =>
          have hnew : s.cq.length ∉ s.skipped := fun hmem => hflag (hdesc.flag.mpr hmem)
          split
          · next hbuf => exact absurd hbuf.2 (hdesc.buf hnew hbuf.1)
          · split
            · next hdead =>
                obtain ⟨pool, hpool⟩ := freeMem_eq type s
                  [s.chan.rx (s.cq.length % HDCDRV_DESC_QUEUE_DEPTH)]
                rw [hpool]
                refine hinv.answer hrun hne pool s.sessions nofun (iff_of_false nofun hnew) ?_
                  (hinv.log.list_unlisted fun _ => rfl)
                rintro live status ⟨⟩
                exact hdead
            · next hlive =>
                have hcopied : (s.chan.rx (s.cq.length % HDCDRV_DESC_QUEUE_DEPTH)).data =
                    s.cq.length := by
                  refine hdesc.data hnew (fun hmem => ?_) (not_not.mp (not_or.mp hlive).2)
                  exact absurd (hring.answered_lt_done hne) (hring.window _ hmem).1.not_gt
                split
                · obtain ⟨pool, hpool⟩ := freeMem_eq type s
                    [s.chan.rx (s.cq.length % HDCDRV_DESC_QUEUE_DEPTH)]
                  rw [hpool]
                  refine hinv.answer hrun hne pool s.sessions ?_ (iff_of_false nofun hnew) nofun
                    (hinv.log.list_unlisted fun _ => rfl)
                  rintro data ⟨⟩
                  exact hcopied
                · split
                  · next hfull =>
                      refine ⟨hinv.ring, hinv.log, fun _ _ _ => ⟨rfl, ?_⟩⟩
                      show hdcdrvSessionRxListIsFull type
                        (s.sessions (s.chan.rx ((s.chan.rxHead + 1) % 16)).localSession) = true
                      rw [show (s.chan.rxHead + 1) % 16 = _ from hhead]
                      exact hfull
                  · refine hinv.answer hrun hne s.pool _ ?_ (iff_of_false nofun hnew) nofun
                      (hinv.log.list_listed s.cq.length _)
                    rintro data ⟨⟩
                    exact hcopied

theorem isFull_congr {session session' : RxSession} (h : session.rxList = session'.rxList) :
    hdcdrvSessionRxListIsFull type session = hdcdrvSessionRxListIsFull type session' := by
  cases type <;> simp only [hdcdrvSessionRxListIsFull, h]

theorem rxList_update (fd : ℤ) (rxList : List BufDesc) (other : ℤ) :
    ((s.setRxList fd rxList).sessions other).rxList =
      if other = fd then rxList else (s.sessions other).rxList := by
  by_cases h : other = fd
  · subst h
    simp [RxState.setRxList]
  · simp [RxState.setRxList, h]

/-- Some packets at the head of a list are taken, and the task is triggered. -/
theorem RxInv.drain (hinv : RxInv type s) {fd : ℤ} {rxList : List BufDesc}
    (hsub : rxList <:+ (s.sessions fd).rxList) (pool : List ℕ) :
    RxInv type ({ (s.setRxList fd rxList) with pool := pool } : RxState).trigger := by
  have hring : ({ (s.setRxList fd rxList) with pool := pool } : RxState).trigger.ring = s.ring :=
    ring_trigger
  have hlog : LogInv s.cq s.log s.skipped (s.setRxList fd rxList).sessions := by
    refine hinv.log.drain fun other => ?_
    rw [rxList_update]
    split
    · next h => exact h ▸ hsub
    · exact List.suffix_refl _
  refine ⟨hring ▸ hinv.ring, ?_, Parked.trigger fun htask hrun hne => ?_⟩
  · rw [RxState.trigger]
    split <;> exact hlog
  · exact (hinv.parked htask hrun hne).1

theorem RxInv.step (hinv : RxInv type s) (act : RxAct)
    (hstep : rxStep maxSession type s act = some t) : RxInv type t := by
  cases act with
  | send localSession remoteSession checker =>
      simp only [rxStep] at hstep
      split at hstep
      · next hlt =>
          cases hstep
          obtain ⟨done, submitted, flight, hring⟩ := hinv.ring
          refine ⟨⟨done, submitted, flight, ?_⟩, hinv.log, hinv.parked⟩
          convert hring.send hlt using 1
          simp [RxState.ring]
      · cases hstep
  | notify copy => exact hinv.notify hstep
  | callback status => exact hinv.callback hstep
  | taskStart =>
      simp only [rxStep] at hstep
      split at hstep
      · cases hstep
        exact ⟨hinv.ring, hinv.log, fun _ hstop => absurd hstop (by simp)⟩
      · cases hstep
  | taskRound hook =>
      simp only [rxStep] at hstep
      split at hstep
      · next hrun =>
          cases hstep
          exact hinv.taskRound hrun hook
      · cases hstep
  | recv fd count =>
      simp only [rxStep] at hstep
      split at hstep
      · cases hstep
        obtain ⟨pool, hpool⟩ := freeMem_eq type
          (s.setRxList fd ((s.sessions fd).rxList.drop count)).trigger
          ((s.sessions fd).rxList.take count)
        rw [hpool]
        have hdrain := hinv.drain (List.drop_suffix count (s.sessions fd).rxList) s.pool
        exact ⟨hdrain.ring, hdrain.log, hdrain.parked⟩
      · cases hstep
  | clearRxBuf fd =>
      cases hstep
      obtain ⟨pool, hpool⟩ := freeMem_eq type (s.setRxList fd []) (s.sessions fd).rxList
      rw [hpool]
      exact hinv.drain List.nil_suffix pool
  | setSession fd idle checker =>
      cases hstep
      have hlist : ∀ other, (Function.update s.sessions fd { s.sessions fd with
          idle := idle, innerChecker := checker } other).rxList = (s.sessions other).rxList := by
        intro other
        by_cases h : other = fd
        · subst h
          rw [Function.update_self]
        · rw [Function.update_of_ne h]
      refine ⟨hinv.ring, hinv.log.drain fun other => ?_, fun htask hrun hne => ?_⟩
      · rw [hlist]
      · have hparked := hinv.parked htask hrun hne
        exact ⟨hparked.1, (isFull_congr (hlist _)).trans hparked.2⟩

/-! ## What holds -/

/-- Every descriptor is answered at most once and in order, and every packet that is
delivered is the packet of its descriptor, in order on the list of its session. -/
structure RxOk (s : RxState) : Prop where
  taken : s.cq.length ≤ s.taken
  head : s.cq.map CqDesc.sqHead = (List.range s.cq.length).map (· % HDCDRV_DESC_QUEUE_DEPTH)
  number : s.log.map Prod.fst = List.range s.cq.length
  packet : ∀ n outcome data, (n, outcome) ∈ s.log → outcome.packet = some data → data = n
  skip : ∀ n, (n, .skipped) ∈ s.log ↔ n < s.cq.length ∧ n ∈ s.skipped
  dead : ∀ n live status, (n, .dead live status) ∈ s.log → live = false ∨ status ≠ 0
  list : ∀ fd, ((s.sessions fd).rxList.map BufDesc.data) <:+ s.log.filterMap (listedOn fd)

/-- No copy is in flight, no task scheduled, no descriptor readable and no list full. -/
structure RxQuiet (type : ChanType) (s : RxState) : Prop where
  dma : s.dma = []
  rxTask : s.rxTask = false
  running : s.running = false
  sq : s.sq = []
  room : ∀ fd, hdcdrvSessionRxListIsFull type (s.sessions fd) = false

def RxCopy.fails : RxCopy → Bool
  | .submit _ .fail => true
  | _ => false

/-- The first readable descriptor is skipped only while no copy is in flight. -/
def noSkipInFlight (maxSession : ℤ) (s : RxState) : RxAct → Bool
  | .notify copy =>
      match s.sq with
      | [] => true
      | sqDesc :: _ =>
          if hdcdrvSessionInnerCheck maxSession s.sessions sqDesc.remoteSession
              sqDesc.innerChecker = false ∨ copy.fails = true then
            s.dma = []
          else true
  | _ => true

/-- The submitted descriptors are those taken. -/
def Caught (s : RxState) : Prop := s.chan.submitDmaHead = (s.taken + 15) % 16

theorem Caught.take {head : ℕ} (hhead : head = s.taken % 16) (rest : List SqDesc)
    (hsubmit : s.chan.submitDmaHead = head) : Caught (s.take rest) := by
  show s.chan.submitDmaHead = (s.taken + 1 + 15) % 16
  omega

theorem RxInv.idle (hinv : RxInv type s) (hdma : s.dma = []) :
    s.chan.submitDmaHead = s.chan.dmaHead := by
  obtain ⟨done, submitted, flight, hring⟩ := hinv.ring
  have hflight : s.dma = flight.map fun n => ⟨n % 16, n⟩ := hring.dma
  rw [hdma] at hflight
  have hidle := hring.idle (List.map_eq_nil_iff.mp hflight.symm)
  exact hring.submitDmaHead.trans (hidle ▸ hring.dmaHead.symm)

theorem Caught.skip {head : ℕ} (hhead : head = s.taken % 16) (rest : List SqDesc)
    (hidle : s.chan.submitDmaHead = s.chan.dmaHead) : Caught ((s.skip head).take rest) := by
  rw [RxState.skip, if_pos hidle]
  show head = (s.taken + 1 + 15) % 16
  omega

theorem Caught.notify (h : Caught s) (hinv : RxInv type s) {copy : RxCopy}
    (hok : noSkipInFlight maxSession s (.notify copy) = true)
    (hstep : hdcdrvRxMsgNotifyProc maxSession type s copy = some t) : Caught t := by
  rw [hdcdrvRxMsgNotifyProc] at hstep
  split at hstep
  · cases hstep
  · next sqDesc rest hsq =>
      simp only [noSkipInFlight, hsq] at hok
      simp only at hstep
      split at hstep
      · next hdead =>
          rw [if_pos (.inl hdead)] at hok
          cases hstep
          exact Caught.skip rfl rest (hinv.idle (of_decide_eq_true hok))
      · cases copy with
        | noMem =>
            simp only at hstep
            split at hstep
            · cases hstep
              exact h
            · cases hstep
        | submit buf ret =>
            simp only at hstep
            split at hstep
            · cases hstep
            · cases ret with
              | noSpace =>
                  cases hstep
                  exact h
              | fail =>
                  rw [if_pos (.inr rfl)] at hok
                  cases hstep
                  exact Caught.skip rfl rest (hinv.idle (of_decide_eq_true hok))
              | ok =>
                  cases hstep
                  exact Caught.take rfl rest rfl

theorem Caught.taskRound (h : Caught s) (hook : Bool) :
    Caught (hdcdrvMsgChanRecvTask maxSession type s hook) := by
  have hfree : ∀ descs, Caught (s.freeMem type descs) := by
    intro descs
    obtain ⟨pool, hpool⟩ := freeMem_eq type s descs
    rw [hpool]
    exact h
  rw [hdcdrvMsgChanRecvTask]
  simp only
  split_ifs
  · exact h
  · exact h
  · exact h
  · exact hfree _
  · exact hfree _
  · exact h
  · exact h

theorem Caught.trigger (h : Caught s) : Caught s.trigger := by
  rw [RxState.trigger]
  split <;> exact h

theorem Caught.step (h : Caught s) (hinv : RxInv type s) (act : RxAct)
    (hok : noSkipInFlight maxSession s act = true)
    (hstep : rxStep maxSession type s act = some t) : Caught t := by
  cases act with
  | notify copy => exact h.notify hinv hok hstep
  | callback status =>
      simp only [rxStep, hdcdrvRxMsgCallback] at hstep
      split at hstep
      · cases hstep
      · split at hstep <;> cases hstep <;> exact h
  | taskRound hook =>
      simp only [rxStep] at hstep
      split at hstep
      · cases hstep
        exact h.taskRound hook
      · cases hstep
  | recv fd count =>
      simp only [rxStep] at hstep
      split at hstep
      · cases hstep
        obtain ⟨pool, hpool⟩ := freeMem_eq type
          (s.setRxList fd ((s.sessions fd).rxList.drop count)).trigger
          ((s.sessions fd).rxList.take count)
        rw [hpool]
        have hdrop : Caught (s.setRxList fd ((s.sessions fd).rxList.drop count)) := h
        exact hdrop.trigger
      · cases hstep
  | clearRxBuf fd =>
      cases hstep
      obtain ⟨pool, hpool⟩ := freeMem_eq type (s.setRxList fd []) (s.sessions fd).rxList
      rw [hpool]
      have hclear : Caught { s.setRxList fd [] with pool := pool } := h
      exact hclear.trigger
  | send localSession remoteSession checker =>
      simp only [rxStep] at hstep
      split at hstep <;> cases hstep
      exact h
  | taskStart =>
      simp only [rxStep] at hstep
      split at hstep <;> cases hstep
      exact h
  | setSession fd idle checker =>
      cases hstep
      exact h

theorem rxInv_init (hinit : (rxMachine maxSession type buffers).init s) : RxInv type s ∧ Caught s := by
  obtain ⟨chan, sessions, sq, cq, dma, rxTask, running, pool, sent, taken, skipped, log⟩ := s
  obtain ⟨hrx, hdma, hsubmit, hlists, rfl, rfl, rfl, -, -, -, rfl, rfl, rfl, rfl⟩ := hinit
  refine ⟨⟨⟨0, 0, [], ?_⟩, ?_, ?_⟩, hsubmit⟩
  · exact
      { answered_le := le_rfl, done_le := le_rfl, submitted_le := le_rfl, taken_le := le_rfl,
        sent_lt := Nat.succ_pos 15, rxHead := hrx, dmaHead := hdma, submitDmaHead := hsubmit, sq := rfl,
        dma := rfl, sorted := List.Pairwise.nil, window := fun n hn => absurd hn List.not_mem_nil,
        last := fun n hn => absurd hn (by simp), idle := fun _ => rfl,
        skipped := fun n hn => absurd hn List.not_mem_nil,
        desc := fun n _ hn => absurd hn (Nat.not_lt_zero n) }
  · refine ⟨rfl, rfl, fun _ _ _ hn => absurd hn List.not_mem_nil, fun n => ?_,
      fun _ _ _ hn => absurd hn List.not_mem_nil, fun fd => ?_⟩
    · exact iff_of_false List.not_mem_nil fun h => Nat.not_lt_zero n h.1
    · have hnil : (sessions fd).rxList = [] := hlists fd
      rw [hnil]
      exact List.nil_suffix
  · intro _ _ hne
    exact absurd (hrx.trans hdma.symm) hne

theorem RxInv.reach (hs : (rxMachine maxSession type buffers).Reach s) : RxInv type s :=
  hs.invariant (fun _ h => (rxInv_init h).1) fun _ act _ hinv _ hstep => hinv.step act hstep

/-- In every run the descriptors are answered in order; where none is skipped behind a copy
in flight, a channel that rests has answered all of them. -/
theorem rx_ok :
    (∀ s, (rxMachine maxSession type buffers).Reach s → RxOk s) ∧
      ∀ s, (rxMachine maxSession type buffers).ReachIf
        (fun s act => noSkipInFlight maxSession s act = true) s →
          RxQuiet type s → s.cq.length = s.taken := by
  constructor
  · intro s hs
    have hinv := RxInv.reach hs
    obtain ⟨done, submitted, flight, hring⟩ := hinv.ring
    exact
      { taken := hring.answered_le.trans (hring.done_le.trans hring.submitted_le)
        head := hinv.log.head
        number := hinv.log.number
        packet := hinv.log.packet
        skip := hinv.log.skip
        dead := hinv.log.dead
        list := hinv.log.list }
  · intro s hs hquiet
    have hinv : RxInv type s ∧ Caught s := by
      apply hs.invariant
      · exact fun s hinit => rxInv_init hinit
      · exact fun s act t hinv hok hstep =>
          ⟨hinv.1.step act hstep, hinv.2.step hinv.1 act hok hstep⟩
    obtain ⟨hinv, hcaught⟩ := hinv
    have hheads : s.chan.rxHead = s.chan.dmaHead := by
      by_contra hne
      have hfull := (hinv.parked hquiet.rxTask hquiet.running hne).2
      rw [hquiet.room] at hfull
      cases hfull
    have hidle := hinv.idle hquiet.dma
    obtain ⟨done, submitted, flight, hring⟩ := hinv.ring
    have hanswered : s.cq.length = done := hring.rxHead_eq_iff.mp hheads
    have hdone := hring.done_le
    have hsubmitted : submitted ≤ s.taken := hring.submitted_le
    have htaken : s.taken ≤ s.sent := hring.taken_le
    have hsent : s.sent < s.cq.length + 16 := hring.sent_lt
    have hdma : s.chan.dmaHead = (done + 15) % 16 := hring.dmaHead
    rw [Caught, hidle, hdma] at hcaught
    omega

/-! ## A channel with one session -/

/-- Session 0 is open with the checker 1. -/
def oneSession : RxState where
  chan := ⟨fun _ => ⟨none, 0, 0, 0, 0, false, 0⟩, 15, 15, 15, false, false⟩
  sessions := fun fd => ⟨fd ≠ 0, 1, []⟩
  sq := []
  cq := []
  dma := []
  rxTask := false
  running := false
  pool := [7, 8]
  sent := 0
  taken := 0
  skipped := []
  log := []

theorem init_oneSession : (rxMachine 1 .normal [7, 8]).init oneSession :=
  ⟨rfl, rfl, rfl, fun _ => rfl, rfl, rfl, rfl, rfl, rfl, rfl, rfl, rfl, rfl, rfl⟩

/-- A descriptor of a stale session is skipped, and the next one is given to the hook. -/
def skipFirst : List RxAct :=
  [.send 0 0 9, .send 0 0 1, .notify .noMem, .taskStart, .taskRound false, .taskRound false,
    .notify (.submit 7 .ok), .callback 0, .taskStart, .taskRound true, .taskRound false]

theorem rx_ok_two :
    RxOk ((rxMachine 1 .normal [7, 8]).final oneSession skipFirst) ∧
      ((rxMachine 1 .normal [7, 8]).final oneSession skipFirst).cq.length =
        ((rxMachine 1 .normal [7, 8]).final oneSession skipFirst).taken := by
  have hs : (rxMachine 1 .normal [7, 8]).ReachIf (fun s act => noSkipInFlight 1 s act = true)
      ((rxMachine 1 .normal [7, 8]).final oneSession skipFirst) :=
    .final (.start init_oneSession) (by decide +kernel) (by decide +kernel)
  have hquiet : RxQuiet .normal ((rxMachine 1 .normal [7, 8]).final oneSession skipFirst) :=
    ⟨by decide +kernel, by decide +kernel, by decide +kernel, by decide +kernel, fun fd => rfl⟩
  exact ⟨rx_ok.1 _ hs.reach, rx_ok.2 _ hs hquiet⟩

/-- The second descriptor is skipped while the first is being copied; it stays without an
answer. -/
theorem rx_forgets :
    ∃ s, (rxMachine 1 .normal [7, 8]).Reach s ∧ RxQuiet .normal s ∧ s.taken = 2 ∧ s.cq.length = 1 := by
  refine ⟨(rxMachine 1 .normal [7, 8]).final oneSession
    [.send 0 0 1, .send 0 0 9, .notify (.submit 7 .ok), .notify .noMem, .callback 0,
      .taskStart, .taskRound true, .taskRound false], ?_, ?_, ?_, ?_⟩
  · exact .final (.start init_oneSession) (by decide +kernel)
  · exact ⟨by decide +kernel, by decide +kernel, by decide +kernel, by decide +kernel,
      fun fd => rfl⟩
  · decide +kernel
  · decide +kernel

end OpiaiKernel.Hdc
