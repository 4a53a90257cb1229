import OpiaiKernel.Lib.Machine
import OpiaiKernel.Logdrv.MsgBuf

/-!
# Sending the message buffer to the host

The data of the message buffer is sent in frames.  The head of a frame is kept in
the message buffer itself, right before the data of the frame: from one frame to
the next it is moved over data that was sent.  When a frame is not sent, the data
stays in the buffer for the next call.

The functions are translated from `log_drv_dev.c`.  A call works under the mutex
of the buffer and that of the session, and is one step; the outcomes of the
compression and of the sending of each frame come with the label.
-/

namespace OpiaiKernel.Logdrv

abbrev LOG_MSG_VERSION : UInt16 := 0xff01

/-- `struct log_msg_head` without its reserved fields. -/
structure LogMsgHead where
  versionValue : UInt16
  dataCompressed : Bool
  frameBegin : Bool
  frameEnd : Bool
  smpFlag : Bool
  slogFlag : Bool
  dataLen : UInt32
  deriving DecidableEq

/-- The bytes of the head in memory, the low ones first. -/
def LogMsgHead.bytes (head : LogMsgHead) : List UInt8 :=
  [head.versionValue.toUInt8, (head.versionValue >>> 8).toUInt8,
    head.dataCompressed.toUInt8 + 2 * head.frameBegin.toUInt8 + 4 * head.frameEnd.toUInt8 +
      8 * head.smpFlag.toUInt8 + 16 * head.slogFlag.toUInt8,
    0, 0, 0, 0, 0,
    head.dataLen.toUInt8, (head.dataLen >>> 8).toUInt8, (head.dataLen >>> 16).toUInt8,
    (head.dataLen >>> 24).toUInt8]

/-- What was handed to the host for one frame. -/
structure Frame where
  head : LogMsgHead
  data : List UInt8
  deriving DecidableEq

/-- Whether the compressor succeeded on a frame, and what the session returned. -/
structure Outcome where
  compressed : Bool
  send : LogRet
  deriving DecidableEq

/-- The memory of the message buffer in the loop, where the head of the frame
stands in it, the head, and the frames that the host accepted. -/
structure Sending where
  buf : ℕ → UInt8
  msgHead : ℕ
  head : LogMsgHead
  accepted : List Frame

/-- Write the head to where it stands. -/
def Sending.writeHead (s : Sending) (head : LogMsgHead) : Sending :=
  { s with buf := Ring.fill s.buf s.msgHead head.bytes, head }

/-- The data behind the head. -/
def Sending.segment (s : Sending) (size : ℕ) : List UInt8 :=
  Ring.slice s.buf (s.msgHead + LOG_MSG_HEAD_SIZE) size

/-- Move the head behind the data that was sent. -/
def Sending.slide (s : Sending) (size : ℕ) : Sending :=
  let moved : Sending :=
    { s with buf := Ring.fill s.buf (s.msgHead + size) s.head.bytes, msgHead := s.msgHead + size }
  moved.writeHead { s.head with frameBegin := false }

def logMsgHeadInit (smp slog : Bool) : LogMsgHead where
  versionValue := LOG_MSG_VERSION
  dataCompressed := false
  frameBegin := true
  frameEnd := false
  smpFlag := smp
  slogFlag := slog
  dataLen := 0

section Send

variable (compress : List UInt8 → List UInt8)

/-- The frame of the next `size` bytes, compressed if the compressor succeeds;
its head is written back to the buffer. -/
def logMsgCompress (s : Sending) (size : ℕ) (compressed : Bool) : Sending × Frame :=
  let data := if compressed then compress (s.segment size) else s.segment size
  let head := { s.head with dataCompressed := compressed, dataLen := data.length.toUInt32 }
  (s.writeHead head, ⟨head, data⟩)

/-- The loop over the frames with the size that is left; `i` counts the frames. -/
def sendLoop (dataSegment : ℕ) (outcome : ℕ → Outcome) :
    ℕ → ℕ → Sending → ℕ → LogRet × Sending
  | 0, _, s, _ => (.ok, s)
  | fuel + 1, i, s, totalSize =>
      let sendSize := min totalSize dataSegment
      let s := s.writeHead { s.head with frameEnd := sendSize = totalSize }
      let (s, frame) := logMsgCompress compress s sendSize (outcome i).compressed
      if (outcome i).send = .ok then
        let s := { s with accepted := s.accepted ++ [frame] }
        if totalSize - sendSize = 0 then (.ok, s)
        else sendLoop dataSegment outcome fuel (i + 1) (s.slide sendSize) (totalSize - sendSize)
      else ((outcome i).send, s)

/-- The driver while it collects and sends logs.  Beside the buffer stand the
frames that the host accepted, the bytes that were appended, and whether a frame
of the data in the buffer was accepted in a call that failed. -/
structure LogSender where
  sendBuf : LogMsgBuf
  accepted : List Frame
  appended : List UInt8
  partly : Bool

variable (dataSegment : ℕ) (smp slog : Bool)

/-- The loop is entered with the head at the start of the buffer. -/
def sendStart (sendBuf : LogMsgBuf) : Sending :=
  ({ buf := sendBuf.buf, msgHead := 0, head := logMsgHeadInit smp slog, accepted := [] } :
    Sending).writeHead (logMsgHeadInit smp slog)

/-- The result, the buffer and the frames that the host accepts. -/
def logSendMsgToHost (sendBuf : LogMsgBuf) (suspended connected : Bool)
    (outcome : ℕ → Outcome) : LogRet × LogMsgBuf × List Frame :=
  if suspended then (.ok, sendBuf, [])
  else
    let start := sendStart smp slog sendBuf
    if connected = false then (.error, { sendBuf with buf := start.buf }, [])
    else
      let (ret, s) :=
        sendLoop compress dataSegment outcome sendBuf.dataSize 0 start sendBuf.dataSize
      let dataSize := if ret = .ok then 0 else sendBuf.dataSize
      (ret, { sendBuf with buf := s.buf, dataSize }, s.accepted)

inductive SendOp
  | append (bytes : List UInt8)
  | send (suspended connected : Bool) (outcome : ℕ → Outcome)

/-- A call is made when there is data in the buffer. -/
def sendStep (s : LogSender) : SendOp → Option LogSender
  | .append bytes =>
      if (bytes.length : ℤ) ≤ s.sendBuf.outAvailSize then
        some { s with sendBuf := s.sendBuf.append bytes, appended := s.appended ++ bytes }
      else none
  | .send suspended connected outcome =>
      if 0 < s.sendBuf.dataSize then
        let (_, sendBuf, frames) :=
          logSendMsgToHost compress dataSegment smp slog s.sendBuf suspended connected outcome
        some
          { s with
            sendBuf
            accepted := s.accepted ++ frames
            partly := sendBuf.dataSize ≠ 0 ∧ (s.partly = true ∨ frames ≠ []) }
      else none

def sendMachine : Machine LogSender SendOp where
  init s := s.sendBuf.dataSize = 0 ∧ s.accepted = [] ∧ s.appended = [] ∧ s.partly = false
  step := sendStep compress dataSegment smp slog

end Send

/-! ## What the host makes of the frames -/

section Host

variable (decompress : List UInt8 → List UInt8)

def Frame.payload (frame : Frame) : List UInt8 :=
  if frame.head.dataCompressed then decompress frame.data else frame.data

/-- The data of the frames, decompressed and put together. -/
def payload (frames : List Frame) : List UInt8 := frames.flatMap (Frame.payload decompress)

theorem payload_append (frames frames' : List Frame) :
    payload decompress (frames ++ frames') = payload decompress frames ++ payload decompress frames' :=
  List.flatMap_append

end Host

/-- The first frame begins the message, with `first`, and the last one ends it. -/
def Framed (first : Bool) (frames : List Frame) : Prop :=
  ∀ j, (h : j < frames.length) →
    frames[j].head.frameBegin = (if j = 0 then first else false) ∧
    frames[j].head.frameEnd = decide (j + 1 = frames.length)

theorem Framed.cons {first : Bool} {frame : Frame} {frames : List Frame}
    (hbegin : frame.head.frameBegin = first) (hend : frame.head.frameEnd = false)
    (hne : frames ≠ []) (h : Framed false frames) : Framed first (frame :: frames) := by
  intro j hj
  cases j with
  | zero =>
      have hpos := List.length_pos_iff.mpr hne
      refine ⟨hbegin, ?_⟩
      simp only [List.getElem_cons_zero, hend, List.length_cons]
      exact (decide_eq_false (by omega)).symm
  | succ j =>
      obtain ⟨hj₁, hj₂⟩ := h j (by simpa using hj)
      simp only [List.getElem_cons_succ, hj₁, hj₂, List.length_cons]
      simp

/-! ## The loop -/

variable {s : Sending} {head : LogMsgHead} {n size : ℕ}

theorem buf_writeHead {q : ℕ} (h : s.msgHead + LOG_MSG_HEAD_SIZE ≤ q) :
    (s.writeHead head).buf q = s.buf q :=
  Ring.fill_of_not_mem _ (.inr h)

theorem segment_writeHead : (s.writeHead head).segment n = s.segment n :=
  Ring.slice_fill_of_disjoint _ (.inr (Nat.le_refl _))

theorem segment_slide :
    (s.slide size).segment n = Ring.slice s.buf (s.msgHead + LOG_MSG_HEAD_SIZE + size) n := by
  rw [Sending.slide, segment_writeHead, Nat.add_right_comm]
  exact Ring.slice_fill_of_disjoint _ (.inr (Nat.le_refl _))

variable {compress decompress : List UInt8 → List UInt8}

/-- A frame stands for the data that it was made from. -/
theorem payload_logMsgCompress (hdec : ∀ data, decompress (compress data) = data)
    (compressed : Bool) :
    (logMsgCompress compress s size compressed).2.payload decompress = s.segment size := by
  cases compressed
  · rfl
  · exact hdec _

variable {dataSegment : ℕ} {outcome : ℕ → Outcome}

/-- The frames that are accepted are the first bytes of the data, all of them when
the loop succeeds; when none is accepted the data is as before. -/
theorem sendLoop_spec (outcome : ℕ → Outcome) (hdec : ∀ data, decompress (compress data) = data)
    (hsegment : 0 < dataSegment) (fuel i : ℕ) (s : Sending) (totalSize : ℕ)
    (hpos : 0 < totalSize) (hfuel : totalSize ≤ fuel) :
    let result := sendLoop compress dataSegment outcome fuel i s totalSize
    ∃ frames n, result.2.accepted = s.accepted ++ frames ∧
      payload decompress frames = s.segment n ∧ n ≤ totalSize ∧
      (result.1 = .ok → n = totalSize ∧ frames ≠ [] ∧ Framed s.head.frameBegin frames) ∧
      (frames = [] → ∀ q, s.msgHead + LOG_MSG_HEAD_SIZE ≤ q → result.2.buf q = s.buf q) ∧
      ((outcome i).send ≠ .ok → frames = [] ∧ result.1 ≠ .ok) := by
  induction fuel generalizing i s totalSize with
  | zero => omega
  | succ fuel ih =>
      let sendSize := min totalSize dataSegment
      have hsize : sendSize = min totalSize dataSegment := rfl
      let begun := s.writeHead { s.head with frameEnd := sendSize = totalSize }
      let framed := logMsgCompress compress begun sendSize (outcome i).compressed
      have hpayload : framed.2.payload decompress = s.segment sendSize :=
        (payload_logMsgCompress hdec _).trans segment_writeHead
      have hbuf : ∀ q, s.msgHead + LOG_MSG_HEAD_SIZE ≤ q → framed.1.buf q = s.buf q := by
        intro q hq
        exact (buf_writeHead (s := begun) hq).trans (buf_writeHead hq)
      let accepted : Sending := { framed.1 with accepted := s.accepted ++ [framed.2] }
      intro result
      have hresult : result =
          if (outcome i).send = .ok then
            if totalSize - sendSize = 0 then (.ok, accepted)
            else sendLoop compress dataSegment outcome fuel (i + 1) (accepted.slide sendSize)
              (totalSize - sendSize)
          else ((outcome i).send, framed.1) := rfl
      by_cases hsend : (outcome i).send = .ok
      · rw [if_pos hsend] at hresult
        by_cases hlast : totalSize - sendSize = 0
        · rw [if_pos hlast] at hresult
          rw [hresult]
          refine ⟨[framed.2], sendSize, rfl, ?_, by omega, fun _ => ⟨by omega, by simp, ?_⟩,
            by simp, by simp [hsend]⟩
          · simpa [payload] using hpayload
          · intro j hj
            obtain rfl : j = 0 := by simpa using hj
            refine ⟨rfl, ?_⟩
            have hwhole : sendSize = totalSize := by omega
            exact decide_eq_true hwhole
        · rw [if_neg hlast] at hresult
          obtain ⟨frames, n, haccepted, hframes, hn, hok, -, -⟩ :=
            ih (i + 1) (accepted.slide sendSize) (totalSize - sendSize) (by omega) (by omega)
          rw [← hresult] at haccepted hok
          refine ⟨framed.2 :: frames, sendSize + n, ?_, ?_, by omega, fun hret => ?_, by simp,
            by simp [hsend]⟩
          · rw [haccepted]
            exact (List.append_assoc ..).trans rfl
          · have hrest : (accepted.slide sendSize).segment n =
                Ring.slice s.buf (s.msgHead + LOG_MSG_HEAD_SIZE + sendSize) n := by
              rw [segment_slide]
              exact Ring.slice_congr fun j _ => hbuf _ (by change _ ≤ s.msgHead + _ + _ + j; omega)
            rw [payload, List.flatMap_cons, hpayload, ← payload, hframes, hrest]
            exact (Ring.slice_add ..).symm
          · obtain ⟨hall, hne, hframed⟩ := hok hret
            have hend : framed.2.head.frameEnd = false := decide_eq_false (by omega)
            exact ⟨by omega, by simp, Framed.cons rfl hend hne hframed⟩
      · rw [if_neg hsend] at hresult
        rw [hresult]
        exact ⟨[], 0, by simp [framed, begun, logMsgCompress, Sending.writeHead], rfl,
          Nat.zero_le _, fun h => absurd h hsend, fun _ => hbuf, fun _ => ⟨rfl, hsend⟩⟩

/-! ## A call -/

variable {smp slog suspended connected : Bool} {sendBuf : LogMsgBuf}

/-- What a call does: it sends the first bytes of the data, and either all of them,
framed as one message, and empties the buffer, or keeps the size. -/
structure CallSpec (decompress : List UInt8 → List UInt8) (sendBuf sendBuf' : LogMsgBuf)
    (frames : List Frame) : Prop where
  sent : ∃ n, payload decompress frames = sendBuf.data.take n
  emptied : sendBuf'.dataSize = 0 →
    payload decompress frames = sendBuf.data ∧ frames ≠ [] ∧ Framed true frames
  size : sendBuf'.dataSize = 0 ∨ sendBuf'.dataSize = sendBuf.dataSize
  kept : sendBuf'.dataSize = sendBuf.dataSize → frames = [] → sendBuf'.data = sendBuf.data

/-- A call in which no frame is accepted. -/
def Refused (suspended connected : Bool) (outcome : ℕ → Outcome) : Prop :=
  suspended = true ∨ connected = false ∨ (outcome 0).send ≠ .ok

instance (suspended connected : Bool) (outcome : ℕ → Outcome) :
    Decidable (Refused suspended connected outcome) :=
  inferInstanceAs (Decidable (_ ∨ _ ∨ _))

theorem callSpec_refused {buf : ℕ → UInt8} (hpos : 0 < sendBuf.dataSize)
    (hbuf : ∀ q, LOG_MSG_HEAD_SIZE ≤ q → buf q = sendBuf.buf q) :
    CallSpec decompress sendBuf { sendBuf with buf } [] where
  sent := ⟨0, rfl⟩
  emptied h := absurd h (Nat.ne_of_gt hpos)
  size := .inr rfl
  kept _ _ := Ring.slice_congr fun _ _ => hbuf _ (Nat.le_add_right ..)

theorem take_data {sendBuf : LogMsgBuf} (h : n ≤ sendBuf.dataSize) :
    sendBuf.data.take n = Ring.slice sendBuf.buf LOG_MSG_HEAD_SIZE n := by
  rw [LogMsgBuf.data, ← Nat.add_sub_cancel' h, Ring.slice_add]
  exact List.take_left' (Ring.length_slice ..)

theorem logSendMsgToHost_spec (smp slog suspended connected : Bool) (outcome : ℕ → Outcome)
    (hdec : ∀ data, decompress (compress data) = data) (hsegment : 0 < dataSegment)
    (hpos : 0 < sendBuf.dataSize) :
    let result :=
      logSendMsgToHost compress dataSegment smp slog sendBuf suspended connected outcome
    CallSpec decompress sendBuf result.2.1 result.2.2 ∧
      (result.1 = .ok ∧ suspended = false → result.2.1.dataSize = 0) ∧
      (Refused suspended connected outcome → result.2.2 = []) := by
  have hstart : ∀ q, LOG_MSG_HEAD_SIZE ≤ q →
      (sendStart smp slog sendBuf).buf q = sendBuf.buf q :=
    fun q hq => buf_writeHead (show 0 + LOG_MSG_HEAD_SIZE ≤ q by omega)
  unfold logSendMsgToHost
  cases suspended with
  | true => exact ⟨callSpec_refused hpos fun _ _ => rfl, by simp, fun _ => rfl⟩
  | false =>
      simp only [Bool.false_eq_true, if_false]
      cases connected with
      | false => exact ⟨callSpec_refused hpos hstart, by simp, fun _ => rfl⟩
      | true =>
          let start := sendStart smp slog sendBuf
          obtain ⟨frames, n, haccepted, hframes, hn, hok, hkept, hfirst⟩ :=
            sendLoop_spec outcome hdec hsegment sendBuf.dataSize 0 start sendBuf.dataSize hpos
              (Nat.le_refl _)
          have htake : payload decompress frames = sendBuf.data.take n := by
            rw [hframes, take_data hn]
            exact Ring.slice_congr fun _ _ => hstart _ (by change 12 ≤ 0 + 12 + _; omega)
          have haccepted : _ = frames := haccepted
          simp only [Bool.true_eq_false, if_false]
          rw [haccepted]
          refine ⟨⟨⟨n, htake⟩, fun hempty => ?_, ?_, fun hsize hnil => ?_⟩, fun h => if_pos h.1, ?_⟩
          · have hret := by_contra fun hne => Nat.ne_of_gt hpos ((if_neg hne).symm.trans hempty)
            obtain ⟨hall, hne, hframed⟩ := hok hret
            refine ⟨?_, hne, hframed⟩
            rw [htake, hall]
            exact List.take_of_length_le (Nat.le_of_eq (Ring.length_slice ..))
          · by_cases hret : (sendLoop compress dataSegment outcome sendBuf.dataSize 0 start
              sendBuf.dataSize).1 = .ok
            · exact .inl (if_pos hret)
            · exact .inr (if_neg hret)
          · rw [LogMsgBuf.data, hsize]
            exact Ring.slice_congr fun _ _ =>
              (hkept hnil _ (by change 0 + 12 ≤ 12 + _; omega)).trans
                (hstart _ (Nat.le_add_right ..))
          · rintro (h | h | h)
            · cases h
            · cases h
            · exact (hfirst h).1

/-! ## Runs -/

/-- In a call that finds data of which the host has a part, no frame is accepted. -/
def OncePerData : LogSender → SendOp → Prop
  | _, .append _ => True
  | s, .send suspended connected outcome =>
      s.partly = true → Refused suspended connected outcome

instance (s : LogSender) : ∀ op, Decidable (OncePerData s op)
  | .append _ => inferInstanceAs (Decidable True)
  | .send _ _ _ => inferInstanceAs (Decidable (_ → _))

/-- What the host has, and the data in the buffer unless the host has a part of it,
is what was appended. -/
structure Delivered (decompress : List UInt8 → List UInt8) (s : LogSender) : Prop where
  sent : payload decompress s.accepted <+: s.appended
  rest : s.partly = false → s.appended = payload decompress s.accepted ++ s.sendBuf.data
  partly : s.partly = true → s.sendBuf.dataSize ≠ 0

variable {t : LogSender}

theorem Delivered.step {s : LogSender} (hdec : ∀ data, decompress (compress data) = data)
    (hsegment : 0 < dataSegment) (h : Delivered decompress s) {op : SendOp}
    (honce : OncePerData s op) (hstep : sendStep compress dataSegment smp slog s op = some t) :
    Delivered decompress t := by
  cases op with
  | append bytes =>
      simp only [sendStep, Option.ite_none_right_eq_some, Option.some.injEq] at hstep
      obtain ⟨-, rfl⟩ := hstep
      refine ⟨h.sent.trans (List.prefix_append _ _), fun hpartly => ?_, fun hpartly => ?_⟩
      · rw [h.rest hpartly, LogMsgBuf.data_append, List.append_assoc]
      · have hsize := h.partly hpartly
        simp only [LogMsgBuf.append]
        omega
  | send suspended connected outcome =>
      simp only [sendStep, Option.ite_none_right_eq_some, Option.some.injEq] at hstep
      obtain ⟨hpos, rfl⟩ := hstep
      obtain ⟨hcall, -, hrefused⟩ :=
        logSendMsgToHost_spec smp slog suspended connected outcome hdec hsegment hpos
      obtain ⟨sendBuf, frames, hbuf, hframes⟩ : ∃ sendBuf frames,
          (logSendMsgToHost compress dataSegment smp slog s.sendBuf suspended connected
            outcome).2.1 = sendBuf ∧
          (logSendMsgToHost compress dataSegment smp slog s.sendBuf suspended connected
            outcome).2.2 = frames := ⟨_, _, rfl, rfl⟩
      rw [hbuf, hframes] at hcall
      rw [hframes] at hrefused
      simp only [hbuf, hframes]
      obtain ⟨n, hsent⟩ := hcall.sent
      by_cases hpartly : s.partly = true
      · -- the host has a part of the data, so that nothing is accepted now
        obtain rfl := hrefused (honce hpartly)
        have hsize : sendBuf.dataSize ≠ 0 := by
          intro hzero
          exact (hcall.emptied hzero).2.1 rfl
        refine ⟨by simpa using h.sent, ?_, fun _ => hsize⟩
        simp [hsize, hpartly]
      · have hwhole := h.rest (by simpa using hpartly)
        refine ⟨?_, fun hpartly' => ?_, fun hpartly' => ?_⟩
        · simp only [payload_append, hsent, hwhole]
          exact (List.prefix_append_right_inj _).mpr (List.take_prefix _ _)
        · simp only [payload_append, hwhole]
          by_cases hzero : sendBuf.dataSize = 0
          · have hnil : sendBuf.data = [] := by rw [LogMsgBuf.data, hzero, Ring.slice_zero]
            rw [(hcall.emptied hzero).1, hnil, List.append_nil]
          · have hnone : frames = [] := by simpa [hzero, hpartly] using hpartly'
            have hsize := hcall.size.resolve_left hzero
            rw [hcall.kept hsize hnone, hnone]
            simp [payload]
        · simp only [decide_eq_true_eq] at hpartly'
          exact hpartly'.1

/-- As long as nothing is accepted of data that the host has a part of: the frames
stand for a beginning of what was appended, for all of it when the buffer is empty,
and those of a successful call begin with the first and end with the last one. -/
theorem log_send_faithful {s : LogSender} (hdec : ∀ data, decompress (compress data) = data)
    (hsegment : 0 < dataSegment)
    (h : (sendMachine compress dataSegment smp slog).ReachIf OncePerData s) :
    payload decompress s.accepted <+: s.appended ∧
    (s.sendBuf.dataSize = 0 → payload decompress s.accepted = s.appended) ∧
    ∀ connected outcome, 0 < s.sendBuf.dataSize →
      let result :=
        logSendMsgToHost compress dataSegment smp slog s.sendBuf false connected outcome
      result.1 = .ok → result.2.2 ≠ [] ∧ ∀ j, (h : j < result.2.2.length) →
        result.2.2[j].head.frameBegin = decide (j = 0) ∧
        result.2.2[j].head.frameEnd = decide (j + 1 = result.2.2.length) := by
  have hs : Delivered decompress s := by
    refine h.invariant ?_ fun s op t hs honce hstep => hs.step hdec hsegment honce hstep
    rintro s ⟨hsize, haccepted, happended, hpartly⟩
    refine ⟨by simp [haccepted, payload], fun _ => ?_, by simp [hpartly]⟩
    rw [haccepted, happended, LogMsgBuf.data, hsize]
    rfl
  refine ⟨hs.sent, fun hempty => ?_, fun connected outcome hpos => ?_⟩
  · have hpartly : s.partly = false := by
      cases hp : s.partly with
      | false => rfl
      | true => exact absurd hempty (hs.partly hp)
    have hnil : s.sendBuf.data = [] := by rw [LogMsgBuf.data, hempty, Ring.slice_zero]
    rw [hs.rest hpartly, hnil, List.append_nil]
  · intro result hret
    obtain ⟨hcall, hempty, -⟩ :=
      logSendMsgToHost_spec smp slog false connected outcome hdec hsegment hpos
    obtain ⟨-, hne, hframed⟩ := hcall.emptied (hempty ⟨hret, rfl⟩)
    refine ⟨hne, fun j hj => ?_⟩
    obtain ⟨hbegin, hend⟩ := hframed j hj
    exact ⟨hbegin.trans (by by_cases hzero : j = 0 <;> simp [hzero]), hend⟩

/-- Frames of two bytes, the data reversed by the compressor. -/
def reversed : Machine LogSender SendOp := sendMachine List.reverse 2 false true

def emptySender : LogSender := ⟨⟨fun _ => 0, 64, 0⟩, [], [], false⟩

/-- The first call times out at once, the second one sends everything. -/
theorem log_send_retried :
    let s := reversed.final emptySender
      [.append [1, 2, 3], .send false true fun _ => ⟨false, .timeout⟩, .append [4],
        .send false true fun i => ⟨i = 0, .ok⟩]
    s.accepted.map Frame.data = [[2, 1], [3, 4]] ∧ payload List.reverse s.accepted = s.appended := by
  refine ⟨by decide +kernel, ?_⟩
  refine (log_send_faithful List.reverse_reverse (by decide) (Machine.ReachIf.final
    (.start ⟨rfl, rfl, rfl, rfl⟩) (by decide +kernel) (by decide +kernel))).2.1 ?_
  decide +kernel

/-- The second frame of a call times out, and the next call begins again; two bytes
of the head of the second frame are sent as data. -/
theorem log_send_repeated :
    let s := reversed.final emptySender
      [.append [1, 2, 3, 4], .send false true fun i => ⟨false, if i = 0 then .ok else .timeout⟩,
        .send false true fun _ => ⟨false, .ok⟩]
    reversed.Reach s ∧ payload List.reverse s.accepted = [1, 2, 0, 0, 3, 4] ∧
      ¬ payload List.reverse s.accepted <+: s.appended := by
  refine ⟨.final (.start ⟨rfl, rfl, rfl, rfl⟩) (by decide +kernel), by decide +kernel, ?_⟩
  decide +kernel

end OpiaiKernel.Logdrv
