import OpiaiKernel.Lib.Ring
import OpiaiKernel.Lib.Scan

/-!
# The ring of a TS channel

The device writes the data of a channel to a ring; a reader copies what it has
room for, in one or two parts.  A part of no bytes is an error of the copy, and
only the second part is left out when the room is used up.

The functions are translated from `prof_ts.c` and `prof_drv_dev.c`.
-/

namespace OpiaiKernel.Prof.TsRing

inductive ProfRet
  | ok
  | error
  | einval
  deriving DecidableEq

/-- The counters of `struct prof_dev_dfx_info` that a read changes. -/
structure DfxInfo where
  outTotalSize : ℕ
  readCount : ℕ
  readFlippedCount : ℕ

/-- The reader's parameters and its memory, the read pointer, and what has been
read of the ring. -/
structure Reader where
  readPtr : ℕ
  bufLen : ℕ
  retVal : ℕ
  dfx : DfxInfo
  outBuf : ℕ → UInt8
  extents : List Extent

/-- The bytes are written from `off` on. -/
def writeBytes (mem : ℕ → UInt8) (off : ℕ) (data : List UInt8) : ℕ → UInt8 :=
  fun a => if off ≤ a ∧ a < off + data.length then data.getD (a - off) 0 else mem a

/-- `prof_send_data` to the reader's memory at `off`; a copy that fails may have
written some of the bytes. -/
def profSendData (fault : Option ℕ) (mem : ℕ → UInt8) (off : ℕ) (data : List UInt8) :
    ProfRet × (ℕ → UInt8) :=
  if data.length = 0 then (.error, mem)
  else
    match fault with
    | none => (.ok, writeBytes mem off data)
    | some done => (.error, writeBytes mem off (data.take done))

variable (m : ℕ → UInt8) (d : ℕ)

/-- `prof_tscpu_read_ringbuffer` -/
def profTscpuReadRingbuffer (fault : Option ℕ) (couldReadSize off : ℕ) (s : Reader) :
    ProfRet × Reader :=
  if d ≤ s.readPtr then (.einval, s)
  else
    let sent := profSendData fault s.outBuf off (Ring.slice m s.readPtr couldReadSize)
    let s := { s with
      outBuf := sent.2
      extents := s.extents ++ [⟨s.readPtr, couldReadSize⟩] }
    if sent.1 ≠ .ok then (.error, s)
    else (.ok, { s with readPtr := (s.readPtr + couldReadSize) % d })

/-- What is counted after a part has been read. -/
def Reader.count (s : Reader) (couldReadSize : ℕ) : Reader :=
  { s with
    retVal := s.retVal + couldReadSize
    bufLen := s.bufLen - couldReadSize
    dfx := { s.dfx with outTotalSize := s.dfx.outTotalSize + couldReadSize } }

def Reader.addRead (s : Reader) : Reader :=
  { s with dfx := { s.dfx with readCount := s.dfx.readCount + 1 } }

def Reader.addFlip (s : Reader) : Reader :=
  if s.readPtr = 0 then
    { s with dfx := { s.dfx with readFlippedCount := s.dfx.readFlippedCount + 1 } }
  else s

/-- `prof_tscpu_ringbuffer`, with the outcomes of its copies. -/
def profTscpuRingbuffer (fault fault' : Option ℕ) (writePtr : ℕ) (s : Reader) :
    ProfRet × Reader :=
  let outBuf := s.retVal
  let readPtr := s.readPtr
  if readPtr = writePtr then (.ok, s)
  else if d ≤ readPtr ∨ d ≤ writePtr then (.error, s)
  else if readPtr < writePtr then
    let couldReadSize := if s.bufLen < writePtr - readPtr then s.bufLen else writePtr - readPtr
    let part := profTscpuReadRingbuffer m d fault couldReadSize outBuf s
    if part.1 ≠ .ok then part else (.ok, (part.2.count couldReadSize).addRead)
  else
    let couldReadSize := if s.bufLen < d - readPtr then s.bufLen else d - readPtr
    let part := profTscpuReadRingbuffer m d fault couldReadSize outBuf s
    if part.1 ≠ .ok then part
    else
      let s := (part.2.count couldReadSize).addFlip
      if writePtr = 0 ∨ s.bufLen = 0 then (.ok, s.addRead)
      else
        let outBuf := outBuf + couldReadSize
        let couldReadSize := if s.bufLen < writePtr then s.bufLen else writePtr
        let part := profTscpuReadRingbuffer m d fault' couldReadSize outBuf s
        if part.1 ≠ .ok then part else (.ok, (part.2.count couldReadSize).addRead)

/-! ## Exact reads -/

/-- The pointers say what the ring holds. -/
def Valid (writePtr : ℕ) (s : Reader) : Prop :=
  s.readPtr = writePtr ∨ (s.readPtr < d ∧ writePtr < d)

/-- From `s` to `s'`, `n` bytes have been appended to the reader's buffer. -/
structure Appended (s s' : Reader) (n : ℕ) : Prop where
  retVal : s'.retVal = s.retVal + n
  bufLen : s'.bufLen + n = s.bufLen
  readPtr : s'.readPtr = if n = 0 then s.readPtr else Ring.pos d s.readPtr n
  data : (List.range n).map (fun i => s'.outBuf (s.retVal + i)) = Ring.content m d s.readPtr n
  before : ∀ a < s.retVal, s'.outBuf a = s.outBuf a
  after : ∀ a, s.retVal + s.bufLen ≤ a → s'.outBuf a = s.outBuf a

/-- What a read returns and does: it succeeds exactly if it appends all that the
ring holds and the buffer has room for, and it does so unless a copy fails. -/
structure ReadExact (fault fault' : Option ℕ) (writePtr : ℕ) (s : Reader)
    (res : ProfRet × Reader) : Prop where
  appended : Valid d writePtr s → ∃ n, Appended m d s res.2 n ∧
    (res.1 = .ok ↔ n = min s.bufLen (Ring.count d s.readPtr writePtr)) ∧
    n ≤ min s.bufLen (Ring.count d s.readPtr writePtr) ∧
    (fault = none → fault' = none → res.1 = .ok)
  invalid : ¬ Valid d writePtr s → res.1 ≠ .ok ∧ res.2 = s
  inside : ∃ es, res.2.extents = s.extents ++ es ∧ ∀ e ∈ es, e.off + e.len ≤ d

variable {m d} {s s' s'' : Reader} {fault fault' : Option ℕ} {writePtr k n n' off : ℕ}

/-! ## One part -/

theorem writeBytes_of_lt {mem : ℕ → UInt8} {data : List UInt8} {a : ℕ} (h : a < off) :
    writeBytes mem off data a = mem a :=
  if_neg (by omega)

theorem writeBytes_of_ge {mem : ℕ → UInt8} {data : List UInt8} {a : ℕ}
    (h : off + data.length ≤ a) : writeBytes mem off data a = mem a :=
  if_neg (by omega)

theorem map_writeBytes {mem : ℕ → UInt8} {data : List UInt8} (hn : data.length = n) :
    (List.range n).map (fun i => writeBytes mem off data (off + i)) = data := by
  apply List.ext_getElem
  · simp [hn]
  · intro i hi hi'
    simp [writeBytes, hi']

theorem slice_eq_content (hn : s.readPtr + n ≤ d) :
    Ring.slice m s.readPtr n = Ring.content m d s.readPtr n := by
  apply List.map_congr_left
  intro i hi
  rw [Ring.pos_of_lt (by have := List.mem_range.mp hi; omega)]

theorem readPtr_eq (hr : s.readPtr < d) :
    (if n = 0 then s.readPtr else Ring.pos d s.readPtr n) = Ring.pos d s.readPtr n := by
  split_ifs with hn
  · rw [hn, Ring.pos_of_lt (by omega)]
    rfl
  · rfl

/-- A part of some bytes that is copied is appended. -/
theorem readRingbuffer_ok (hr : s.readPtr < d) (hk : 0 < k) (hd : s.readPtr + k ≤ d)
    (hbuf : k ≤ s.bufLen) :
    (profTscpuReadRingbuffer m d none k s.retVal s).1 = .ok ∧
      Appended m d s ((profTscpuReadRingbuffer m d none k s.retVal s).2.count k) k := by
  have hlen : (Ring.slice m s.readPtr k).length = k := Ring.length_slice m s.readPtr k
  have hres : profTscpuReadRingbuffer m d none k s.retVal s =
      (.ok, { s with
        readPtr := (s.readPtr + k) % d
        outBuf := writeBytes s.outBuf s.retVal (Ring.slice m s.readPtr k)
        extents := s.extents ++ [⟨s.readPtr, k⟩] }) := by
    have hsend : profSendData none s.outBuf s.retVal (Ring.slice m s.readPtr k) =
        (.ok, writeBytes s.outBuf s.retVal (Ring.slice m s.readPtr k)) :=
      if_neg (by omega)
    simp [profTscpuReadRingbuffer, Nat.not_le.mpr hr, hsend]
  rw [hres]
  refine ⟨rfl, rfl, ?_, ?_, ?_, fun a ha => writeBytes_of_lt ha, fun a ha => ?_⟩
  · exact Nat.sub_add_cancel hbuf
  · rw [if_neg (by omega)]
    rfl
  · rw [← slice_eq_content hd]
    exact map_writeBytes hlen
  · exact writeBytes_of_ge (by omega)

/-- A part of no bytes, or one that is not copied, is not appended. -/
theorem readRingbuffer_error (hr : s.readPtr < d) (hbuf : k ≤ s.bufLen)
    (hfail : k = 0 ∨ fault ≠ none) :
    (profTscpuReadRingbuffer m d fault k s.retVal s).1 = .error ∧
      Appended m d s (profTscpuReadRingbuffer m d fault k s.retVal s).2 0 := by
  obtain ⟨data, hdata, hres⟩ : ∃ data, data.length ≤ k ∧
      profTscpuReadRingbuffer m d fault k s.retVal s =
        (.error, { s with
          outBuf := writeBytes s.outBuf s.retVal data
          extents := s.extents ++ [⟨s.readPtr, k⟩] }) := by
    have hlen : (Ring.slice m s.readPtr k).length = k := Ring.length_slice m s.readPtr k
    rcases Nat.eq_zero_or_pos k with rfl | hpos
    · refine ⟨[], le_rfl, ?_⟩
      have hnil : writeBytes s.outBuf s.retVal [] = s.outBuf := by
        funext a
        exact if_neg (by simp)
      have hsend : profSendData fault s.outBuf s.retVal [] = (.error, s.outBuf) := if_pos rfl
      simp [profTscpuReadRingbuffer, Nat.not_le.mpr hr, hsend, hnil]
    · cases fault with
      | none => exact absurd rfl (hfail.resolve_left (by omega))
      | some done =>
          refine ⟨(Ring.slice m s.readPtr k).take done, by simp, ?_⟩
          have hsend : profSendData (some done) s.outBuf s.retVal (Ring.slice m s.readPtr k) =
              (.error, writeBytes s.outBuf s.retVal ((Ring.slice m s.readPtr k).take done)) :=
            if_neg (by omega)
          simp [profTscpuReadRingbuffer, Nat.not_le.mpr hr, hsend]
  rw [hres]
  refine ⟨rfl, rfl, rfl, rfl, rfl, fun a ha => writeBytes_of_lt ha, fun a ha => ?_⟩
  exact writeBytes_of_ge (by omega)

theorem Appended.addRead (h : Appended m d s s' n) : Appended m d s s'.addRead n :=
  ⟨h.retVal, h.bufLen, h.readPtr, h.data, h.before, h.after⟩

theorem Appended.addFlip (h : Appended m d s s' n) : Appended m d s s'.addFlip n := by
  unfold Reader.addFlip
  split_ifs
  · exact ⟨h.retVal, h.bufLen, h.readPtr, h.data, h.before, h.after⟩
  · exact h

/-- Two parts, one after the other. -/
theorem Appended.trans (hr : s.readPtr < d) (h : Appended m d s s' n)
    (h' : Appended m d s' s'' n') : Appended m d s s'' (n + n') := by
  have hr' : s'.readPtr = Ring.pos d s.readPtr n := h.readPtr.trans (readPtr_eq hr)
  have hlt : s'.readPtr < d := hr' ▸ Ring.pos_lt (by omega)
  have hbuf := h.bufLen
  have hbuf' := h'.bufLen
  refine ⟨?_, by omega, ?_, ?_, fun a ha => ?_, fun a ha => ?_⟩
  · rw [h'.retVal, h.retVal, Nat.add_assoc]
  · rw [readPtr_eq hr, h'.readPtr, readPtr_eq hlt, hr', Ring.pos_pos]
  · rw [List.range_add, List.map_append, List.map_map, Ring.content_add, ← h.data, ← hr',
      ← h'.data]
    congr 1
    · apply List.map_congr_left
      intro i hi
      have hin := List.mem_range.mp hi
      exact h'.before _ (by rw [h.retVal]; omega)
    · apply List.map_congr_left
      intro i _
      rw [Function.comp_apply, h.retVal, Nat.add_assoc]
  · rw [h'.before a (by rw [h.retVal]; omega), h.before a ha]
  · rw [h'.after a (by rw [h.retVal]; omega), h.after a ha]

/-! ## The ring -/

/-- What a part reads lies in the ring. -/
theorem readRingbuffer_inside (m : ℕ → UInt8) (fault : Option ℕ) (off : ℕ)
    (hd : s.readPtr < d → s.readPtr + k ≤ d) :
    ∃ es, (profTscpuReadRingbuffer m d fault k off s).2.extents = s.extents ++ es ∧
      ∀ e ∈ es, e.off + e.len ≤ d := by
  rw [profTscpuReadRingbuffer]
  by_cases hge : d ≤ s.readPtr
  · rw [if_pos hge]
    exact ⟨[], (List.append_nil _).symm, by simp⟩
  · rw [if_neg hge]
    refine ⟨[⟨s.readPtr, k⟩], ?_, by simpa using hd (by omega)⟩
    dsimp only
    split_ifs <;> rfl

/-- The outcome of a read that appends `n` bytes of a valid ring. -/
theorem ReadExact.of_appended {res : ProfRet × Reader} (hvalid : Valid d writePtr s)
    (happ : Appended m d s res.2 n)
    (hok : res.1 = .ok ↔ n = min s.bufLen (Ring.count d s.readPtr writePtr))
    (hle : n ≤ min s.bufLen (Ring.count d s.readPtr writePtr))
    (hfault : fault = none → fault' = none → res.1 = .ok)
    (hinside : ∃ es, res.2.extents = s.extents ++ es ∧ ∀ e ∈ es, e.off + e.len ≤ d) :
    ReadExact m d fault fault' writePtr s res :=
  ⟨fun _ => ⟨n, happ, hok, hle, hfault⟩, fun h => absurd hvalid h, hinside⟩

theorem Appended.zero (s : Reader) : Appended m d s s 0 :=
  ⟨rfl, rfl, rfl, rfl, fun _ _ => rfl, fun _ _ => rfl⟩

/-- The pointers of a ring that holds data. -/
theorem ringbuffer_error (m : ℕ → UInt8) (fault fault' : Option ℕ)
    (hr : s.readPtr < d) (hw : writePtr < d) (hne : s.readPtr ≠ writePtr)
    (hfail : s.bufLen = 0 ∨ fault ≠ none) :
    (profTscpuRingbuffer m d fault fault' writePtr s).1 = .error ∧
      Appended m d s (profTscpuRingbuffer m d fault fault' writePtr s).2 0 ∧
      ∃ es, (profTscpuRingbuffer m d fault fault' writePtr s).2.extents = s.extents ++ es ∧
        ∀ e ∈ es, e.off + e.len ≤ d := by
  obtain ⟨k, hk, hbuf, hd, hres⟩ : ∃ k, (s.bufLen = 0 → k = 0) ∧ k ≤ s.bufLen ∧
      s.readPtr + k ≤ d ∧
      ((profTscpuReadRingbuffer m d fault k s.retVal s).1 = .error →
        profTscpuRingbuffer m d fault fault' writePtr s =
          profTscpuReadRingbuffer m d fault k s.retVal s) := by
    rcases Nat.lt_or_ge s.readPtr writePtr with hlt | hge
    · refine ⟨if s.bufLen < writePtr - s.readPtr then s.bufLen else writePtr - s.readPtr, ?_, ?_,
        ?_, fun herr => ?_⟩
      · split_ifs <;> omega
      · split_ifs <;> omega
      · split_ifs <;> omega
      · rw [profTscpuRingbuffer, if_neg hne, if_neg (by omega), if_pos hlt]
        exact if_pos (by rw [herr]; decide)
    · refine ⟨if s.bufLen < d - s.readPtr then s.bufLen else d - s.readPtr, ?_, ?_, ?_,
        fun herr => ?_⟩
      · split_ifs <;> omega
      · split_ifs <;> omega
      · split_ifs <;> omega
      · rw [profTscpuRingbuffer, if_neg hne, if_neg (by omega), if_neg (by omega)]
        exact if_pos (by rw [herr]; decide)
  obtain ⟨herr, happ⟩ := readRingbuffer_error (m := m) hr hbuf (hfail.imp_left hk)
  rw [hres herr]
  exact ⟨herr, happ, readRingbuffer_inside m fault s.retVal fun _ => hd⟩

/-- The data do not wrap around. -/
theorem ringbuffer_straight (hlt : s.readPtr < writePtr) (hw : writePtr < d) (hbuf : 0 < s.bufLen) :
    ReadExact m d none fault' writePtr s (profTscpuRingbuffer m d none fault' writePtr s) := by
  set k := if s.bufLen < writePtr - s.readPtr then s.bufLen else writePtr - s.readPtr with hk
  have hcount : Ring.count d s.readPtr writePtr = writePtr - s.readPtr :=
    Ring.count_of_le hlt.le hw
  have hmin : k = min s.bufLen (Ring.count d s.readPtr writePtr) := by
    rw [hk, hcount]
    split_ifs <;> omega
  obtain ⟨hret, happ⟩ := readRingbuffer_ok (m := m) (d := d) (s := s) (k := k) (by omega)
    (by omega) (by omega) (by omega)
  have hres : profTscpuRingbuffer m d none fault' writePtr s =
      (.ok, ((profTscpuReadRingbuffer m d none k s.retVal s).2.count k).addRead) := by
    rw [profTscpuRingbuffer, if_neg hlt.ne, if_neg (by omega), if_pos hlt]
    exact if_neg (by rw [← hk, hret]; decide)
  rw [hres]
  exact .of_appended (Or.inr ⟨by omega, hw⟩) happ.addRead (iff_of_true rfl hmin) hmin.le
    (fun _ _ => rfl) (readRingbuffer_inside m none s.retVal fun _ => by omega)

@[simp] theorem Reader.extents_addFlip : s.addFlip.extents = s.extents := by
  unfold Reader.addFlip
  split_ifs <;> rfl

@[simp] theorem Reader.bufLen_addFlip : s.addFlip.bufLen = s.bufLen := by
  unfold Reader.addFlip
  split_ifs <;> rfl

/-- The data wrap around; the second part is at the start of the ring. -/
theorem ringbuffer_wrapped (hlt : writePtr < s.readPtr) (hr : s.readPtr < d)
    (hbuf : 0 < s.bufLen) :
    ReadExact m d none fault' writePtr s (profTscpuRingbuffer m d none fault' writePtr s) := by
  set k := if s.bufLen < d - s.readPtr then s.bufLen else d - s.readPtr with hk
  have hvalid : Valid d writePtr s := Or.inr ⟨hr, by omega⟩
  have hcount : Ring.count d s.readPtr writePtr = writePtr + d - s.readPtr :=
    Ring.count_of_gt hlt hr
  have hkpos : 0 < k := by
    rw [hk]
    split_ifs <;> omega
  have hkle : k ≤ s.bufLen ∧ s.readPtr + k ≤ d := by
    rw [hk]
    constructor <;> split_ifs <;> omega
  obtain ⟨hret, happ⟩ := readRingbuffer_ok (m := m) (d := d) hr hkpos hkle.2 hkle.1
  have hfirst : ∃ es, (profTscpuReadRingbuffer m d none k s.retVal s).2.extents =
      s.extents ++ es ∧ ∀ e ∈ es, e.off + e.len ≤ d :=
    readRingbuffer_inside m none s.retVal fun _ => hkle.2
  have hfirstEq : ((profTscpuReadRingbuffer m d none k s.retVal s).2.count k).addFlip.extents =
      (profTscpuReadRingbuffer m d none k s.retVal s).2.extents := Reader.extents_addFlip
  replace happ := happ.addFlip
  rw [profTscpuRingbuffer, if_neg hlt.ne', if_neg (by omega), if_neg (by omega)]
  dsimp only
  rw [← hk, if_neg (by rw [hret]; decide)]
  generalize ((profTscpuReadRingbuffer m d none k s.retVal s).2.count k).addFlip = s₁
    at happ hfirstEq ⊢
  rw [← hfirstEq] at hfirst
  have hbuf₁ := happ.bufLen
  by_cases hend : writePtr = 0 ∨ s₁.bufLen = 0
  · rw [if_pos hend]
    have hmin : k = min s.bufLen (Ring.count d s.readPtr writePtr) := by
      rw [hcount]
      rw [hk] at hbuf₁ ⊢
      split_ifs at hbuf₁ ⊢ <;> omega
    exact .of_appended hvalid happ.addRead (iff_of_true rfl hmin) hmin.le (fun _ _ => rfl) hfirst
  · rw [if_neg hend]
    obtain ⟨hwpos, hbufpos⟩ := not_or.mp hend
    have hkd : k = d - s.readPtr := by
      rw [hk] at hbuf₁ ⊢
      split_ifs at hbuf₁ ⊢ <;> omega
    have hzero : s₁.readPtr = 0 := by
      rw [happ.readPtr, readPtr_eq hr, hkd, Ring.pos_of_ge (by omega) (by omega)]
      omega
    have hoff : s.retVal + k = s₁.retVal := happ.retVal.symm
    set k' := if s₁.bufLen < writePtr then s₁.bufLen else writePtr with hk'
    have hkle' : k' ≤ s₁.bufLen ∧ s₁.readPtr + k' ≤ d := by
      rw [hk', hzero]
      constructor <;> split_ifs <;> omega
    have hsecond : ∃ es, (profTscpuReadRingbuffer m d fault' k' s₁.retVal s₁).2.extents =
        s.extents ++ es ∧ ∀ e ∈ es, e.off + e.len ≤ d := by
      obtain ⟨es, hes, hin⟩ := hfirst
      obtain ⟨es', hes', hin'⟩ := readRingbuffer_inside m fault' s₁.retVal fun _ =>
        hkle'.2
      refine ⟨es ++ es', by rw [hes', hes, List.append_assoc], fun e he => ?_⟩
      exact (List.mem_append.mp he).elim (hin e) (hin' e)
    rw [hoff]
    cases fault' with
    | none =>
        obtain ⟨hret', happ'⟩ := readRingbuffer_ok (m := m) (d := d) (s := s₁) (k := k')
          (by omega) (by rw [hk']; split_ifs <;> omega) hkle'.2 hkle'.1
        rw [if_neg (by rw [hret']; decide)]
        have hmin : k + k' = min s.bufLen (Ring.count d s.readPtr writePtr) := by
          rw [hcount, hk']
          split_ifs <;> omega
        exact .of_appended hvalid (happ.trans hr happ').addRead (iff_of_true rfl hmin) hmin.le
          (fun _ _ => rfl) hsecond
    | some done =>
        obtain ⟨hret', happ'⟩ := readRingbuffer_error (m := m) (d := d) (s := s₁) (k := k')
          (by omega) hkle'.1 (Or.inr (Option.some_ne_none done))
        rw [if_pos (by rw [hret']; decide)]
        have hshort : k + 0 < min s.bufLen (Ring.count d s.readPtr writePtr) := by
          rw [hcount]
          omega
        refine .of_appended hvalid (happ.trans hr happ') (iff_of_false ?_ hshort.ne) hshort.le
          (fun _ hfault => by cases hfault) hsecond
        rw [hret']
        decide

/-- A read is exact unless the reader has no room and the ring holds data. -/
theorem readExact_iff (m : ℕ → UInt8) (d : ℕ) (fault fault' : Option ℕ) (writePtr : ℕ)
    (s : Reader) :
    ReadExact m d fault fault' writePtr s (profTscpuRingbuffer m d fault fault' writePtr s) ↔
      (0 < s.bufLen ∨ s.readPtr = writePtr ∨ d ≤ s.readPtr ∨ d ≤ writePtr) := by
  by_cases hne : s.readPtr = writePtr
  · refine iff_of_true ?_ (Or.inr (Or.inl hne))
    have hres : profTscpuRingbuffer m d fault fault' writePtr s = (.ok, s) := if_pos hne
    have hcount : Ring.count d s.readPtr writePtr = 0 := by
      rw [hne, Ring.count]
      rcases Nat.lt_or_ge writePtr d with hlt | hge
      · simp
      · simp
    rw [hres]
    refine .of_appended (Or.inl hne) (.zero s) (iff_of_true rfl ?_) (Nat.zero_le _)
      (fun _ _ => rfl) ⟨[], (List.append_nil _).symm, by simp⟩
    rw [hcount, Nat.min_zero]
  by_cases hbad : d ≤ s.readPtr ∨ d ≤ writePtr
  · refine iff_of_true ?_ (Or.inr (Or.inr hbad))
    have hres : profTscpuRingbuffer m d fault fault' writePtr s = (.error, s) := by
      rw [profTscpuRingbuffer, if_neg hne, if_pos hbad]
    have hinvalid : ¬ Valid d writePtr s := fun h => by
      rcases h with h | h
      · exact hne h
      · omega
    rw [hres]
    exact ⟨fun h => absurd h hinvalid, fun _ => ⟨by simp, rfl⟩,
      ⟨[], (List.append_nil _).symm, by simp⟩⟩
  obtain ⟨hr, hw⟩ : s.readPtr < d ∧ writePtr < d := by omega
  rcases Nat.eq_zero_or_pos s.bufLen with hzero | hpos
  · refine iff_of_false (fun h => ?_) (by omega)
    obtain ⟨herr, -, -⟩ := ringbuffer_error m fault fault' hr hw hne
      (Or.inl hzero)
    obtain ⟨n, -, hok, hle, -⟩ := h.appended (Or.inr ⟨hr, hw⟩)
    rw [hzero, Nat.zero_min] at hok hle
    have hret := hok.mpr (by omega)
    rw [herr] at hret
    cases hret
  · refine iff_of_true ?_ (Or.inl hpos)
    cases fault with
    | none =>
        rcases Nat.lt_or_ge s.readPtr writePtr with hlt | hge
        · exact ringbuffer_straight hlt hw hpos
        · exact ringbuffer_wrapped (by omega) hr hpos
    | some done =>
        obtain ⟨herr, happ, hinside⟩ := ringbuffer_error m (some done) fault' hr hw hne
          (Or.inr (by simp))
        have hcount := mt (Ring.count_eq_zero_iff hr hw).mp (Ne.symm hne)
        refine .of_appended (Or.inr ⟨hr, hw⟩) happ (iff_of_false (by rw [herr]; decide) ?_)
          (Nat.zero_le _) (fun hfault => by cases hfault) hinside
        omega

/-- A ring that holds one byte, and a reader without room. -/
theorem no_room_fails :
    ¬ ReadExact (fun _ => 0) 4 none none 1 ⟨0, 0, 0, ⟨0, 0, 0⟩, fun _ => 0, []⟩
      (profTscpuRingbuffer (fun _ => 0) 4 none none 1 ⟨0, 0, 0, ⟨0, 0, 0⟩, fun _ => 0, []⟩) := by
  intro h
  obtain ⟨n, -, -, -, hok⟩ := h.appended (Or.inr ⟨by decide, by decide⟩)
  exact absurd (hok rfl rfl) (by decide)

end OpiaiKernel.Prof.TsRing
