import OpiaiKernel.Lib.Machine
import OpiaiKernel.Lib.Scan
import OpiaiKernel.Logdrv.MsgBuf

/-!
# Reading the log ring of a channel

A producer appends logs to the ring of a channel while the driver reads what is
there into the message buffer.  Both indices may stand at the capacity.  A read
across the wrap is done in two copies, and the read index is published after each
of them.

The functions are translated from `log_drv_dev.c`.  The command mutex is held for
a whole read, so that there is one reader; its loads, copies and stores of the
indices are steps of their own, between which the producer runs.
-/

namespace OpiaiKernel.Logdrv

/-- `sizeof(struct log_channel_buf_head)`. -/
abbrev LOG_CHANNEL_BUF_HEAD_SIZE : ℕ := 128

/-- Where a call of `log_read_channel` stands; the arguments are what it loaded. -/
inductive ReadPhase
  | idle
  | readLoaded (bufRead : ℕ)
  | loaded (bufRead bufWrite : ℕ)
  | publish (bufWrite : ℕ)
  | publishZero (bufWrite : ℕ)
  | second (bufWrite : ℕ)
  deriving DecidableEq

/-- A channel with the bytes behind the head of its buffer, and the message
buffer.  Beside them stand what the producer wrote, what was appended to the
message buffer, and the ranges of the ring that were read. -/
structure LogChannel where
  bufSize : ℕ
  size_ge : LOG_CHANNEL_BUF_HEAD_SIZE ≤ bufSize
  size_lt : bufSize < 2 ^ 31
  sis : Bool
  vir : ℕ → UInt8
  bufRead : ℕ
  bufWrite : ℕ
  recvBuf : LogMsgBuf
  phase : ReadPhase
  ret : LogRet
  produced : List UInt8
  appended : List UInt8
  reads : List Extent

/-- The capacity of the ring. -/
def LogChannel.cap (c : LogChannel) : ℕ := c.bufSize - LOG_CHANNEL_BUF_HEAD_SIZE

/-- A word as the signed number that the functions below take. -/
def toS32 (x : ℕ) : ℤ := if x < 2 ^ 31 then x else x - 2 ^ 32

/-- Copy from the ring to the message buffer; `memcpy_s` fails when there is no
room at all. -/
def copyOut (c : LogChannel) (base : ℕ) (bufLen : ℤ) : LogRet × LogChannel :=
  if bufLen > c.recvBuf.outAvailSize then (.eof, c)
  else if c.sis = false ∧ c.recvBuf.outAvailSize = 0 then (.error, c)
  else
    let recvBuf := c.recvBuf.append (Ring.slice c.vir base bufLen.toNat)
    (.ok,
      { c with
        recvBuf
        appended := c.appended ++
          Ring.slice recvBuf.buf (LOG_MSG_HEAD_SIZE + c.recvBuf.dataSize) bufLen.toNat
        reads := ⟨base, bufLen.toNat⟩ :: c.reads })

/-- The call returns. -/
def LogChannel.finish (c : LogChannel) (ret : LogRet) : LogChannel :=
  { c with phase := .idle, ret }

/-- Copy, and go on to publish when that succeeds. -/
def copyThen (c : LogChannel) (base : ℕ) (bufLen : ℤ) (next : ReadPhase) : LogChannel :=
  match copyOut c base bufLen with
  | (.ok, c) => { c with phase := next }
  | (ret, c) => c.finish ret

/-- The beginning of the ring, up to the write index. -/
def logReadRingbufferSecond (c : LogChannel) (bufWrite : ℤ) : LogChannel :=
  copyThen c 0 bufWrite (.publish bufWrite.toNat)

def logReadRingbuffer (c : LogChannel) (bufRead bufWrite : ℤ) : LogChannel :=
  if bufWrite > bufRead then
    copyThen c bufRead.toNat (bufWrite - bufRead) (.publish bufWrite.toNat)
  else if bufRead < (c.cap : ℤ) then
    copyThen c bufRead.toNat (c.cap - bufRead) (.publishZero bufWrite.toNat)
  else logReadRingbufferSecond c bufWrite

/-- After the indices are loaded they are checked. -/
def logReadChannel (c : LogChannel) (bufRead bufWrite : ℕ) : LogChannel :=
  if bufWrite > c.cap ∨ bufRead > c.cap then c.finish .error
  else if bufWrite = bufRead then c.finish .ok
  else logReadRingbuffer c (toS32 bufRead) (toS32 bufWrite)

/-- The next step of a call. -/
def readNext (c : LogChannel) : Option LogChannel :=
  match c.phase with
  | .idle => none
  | .readLoaded bufRead => some { c with phase := .loaded bufRead c.bufWrite }
  | .loaded bufRead bufWrite => some (logReadChannel c bufRead bufWrite)
  | .publish bufWrite => some ({ c with bufRead := bufWrite }.finish .ok)
  | .publishZero bufWrite =>
      let c := { c with bufRead := 0 }
      some (if bufWrite = 0 then c.finish .ok else { c with phase := .second bufWrite })
  | .second bufWrite => some (logReadRingbufferSecond c bufWrite)

/-! ## The producer -/

/-- The number of bytes between the indices. -/
def unread (cap bufRead bufWrite : ℕ) : ℕ :=
  if bufRead ≤ bufWrite then bufWrite - bufRead else cap - bufRead + bufWrite

/-- The write index moves on by `n`, at the capacity it may stay or wrap, and it
does not overtake the reader. -/
def MayProduce (c : LogChannel) (n bufWrite : ℕ) : Prop :=
  bufWrite ≤ c.cap ∧
  (bufWrite = c.bufWrite + n ∨ bufWrite + c.cap = c.bufWrite + n) ∧
  unread c.cap c.bufRead bufWrite = unread c.cap c.bufRead c.bufWrite + n

instance (c : LogChannel) (n bufWrite : ℕ) : Decidable (MayProduce c n bufWrite) :=
  inferInstanceAs (Decidable (_ ∧ _ ∧ _))

/-- The producer writes behind the write index and moves it on. -/
def LogChannel.write (c : LogChannel) (bytes : List UInt8) (bufWrite : ℕ) : LogChannel :=
  { c with
    vir := Ring.put c.vir c.cap c.bufWrite bytes
    bufWrite
    produced := c.produced ++ bytes }

inductive LogOp
  /-- Begin a call of `log_read_channel`. -/
  | read
  | next
  | produce (bytes : List UInt8) (bufWrite : ℕ)
  /-- The message buffer was sent, or filled from other channels. -/
  | buffer (recvBuf : LogMsgBuf)
  /-- Something else writes the indices. -/
  | corrupt (bufRead bufWrite : ℕ)

def logStep (c : LogChannel) : LogOp → Option LogChannel
  | .read => if c.phase = .idle then some { c with phase := .readLoaded c.bufRead } else none
  | .next => readNext c
  | .produce bytes bufWrite =>
      if MayProduce c bytes.length bufWrite then some (c.write bytes bufWrite) else none
  | .buffer recvBuf =>
      if c.phase = .idle ∧ recvBuf.dataSize ≤ recvBuf.bufSize - LOG_MSG_HEAD_SIZE then
        some { c with recvBuf }
      else none
  | .corrupt bufRead bufWrite => some { c with bufRead, bufWrite }

/-- A channel whose ring is empty, and a message buffer with any fill level. -/
def logMachine : Machine LogChannel LogOp where
  init c :=
    c.bufRead ≤ c.cap ∧ c.bufWrite = c.bufRead ∧ c.phase = .idle ∧
    c.recvBuf.dataSize ≤ c.recvBuf.bufSize - LOG_MSG_HEAD_SIZE ∧
    c.produced = [] ∧ c.appended = [] ∧ c.reads = []
  step := logStep

/-! ## A copy -/

variable {c t : LogChannel}

/-- The channel after `n` bytes were copied. -/
def LogChannel.copied (c : LogChannel) (base n : ℕ) (next : ReadPhase) : LogChannel :=
  { c with
    recvBuf := c.recvBuf.append (Ring.slice c.vir base n)
    appended := c.appended ++ Ring.slice c.vir base n
    reads := ⟨base, n⟩ :: c.reads
    phase := next }

/-- A copy fits into the message buffer, or the call returns and nothing is
copied. -/
theorem copyThen_cases (c : LogChannel) (base n : ℕ) (next : ReadPhase) :
    (∃ ret, copyThen c base n next = c.finish ret) ∨
      ((n : ℤ) ≤ c.recvBuf.outAvailSize ∧ copyThen c base n next = c.copied base n next) := by
  unfold copyThen copyOut
  by_cases heof : (n : ℤ) > c.recvBuf.outAvailSize
  · left
    exact ⟨.eof, by simp only [heof, if_true]⟩
  · by_cases hnone : c.sis = false ∧ c.recvBuf.outAvailSize = 0
    · left
      exact ⟨.error, by rw [if_neg heof, if_pos hnone]⟩
    · right
      refine ⟨Int.not_lt.mp heof, ?_⟩
      have hslice := Ring.slice_fill c.recvBuf.buf (LOG_MSG_HEAD_SIZE + c.recvBuf.dataSize)
        (Ring.slice c.vir base n)
      rw [Ring.length_slice] at hslice
      simp only [heof, if_false, hnone, Int.toNat_natCast, LogMsgBuf.append, hslice,
        LogChannel.copied]

theorem toS32_of_le (h : x ≤ c.cap) : toS32 x = x := by
  have hlt := c.size_lt
  have hcap : c.cap ≤ c.bufSize := Nat.sub_le ..
  exact if_pos (by omega)

/-- What a call does after the check, with the indices as they are. -/
theorem logReadChannel_cases (c : LogChannel) (bufRead bufWrite : ℕ) :
    (∃ ret, logReadChannel c bufRead bufWrite = c.finish ret) ∨
    (bufRead < bufWrite ∧ bufWrite ≤ c.cap ∧
      logReadChannel c bufRead bufWrite =
        copyThen c bufRead (bufWrite - bufRead : ℕ) (.publish bufWrite)) ∨
    (bufWrite < bufRead ∧ bufRead < c.cap ∧
      logReadChannel c bufRead bufWrite =
        copyThen c bufRead (c.cap - bufRead : ℕ) (.publishZero bufWrite)) ∨
    (bufWrite < bufRead ∧ bufRead = c.cap ∧
      logReadChannel c bufRead bufWrite = copyThen c 0 bufWrite (.publish bufWrite)) := by
  unfold logReadChannel
  by_cases hbad : bufWrite > c.cap ∨ bufRead > c.cap
  · exact .inl ⟨_, if_pos hbad⟩
  have hw : bufWrite ≤ c.cap := by omega
  have hr : bufRead ≤ c.cap := by omega
  rw [if_neg hbad]
  by_cases heq : bufWrite = bufRead
  · exact .inl ⟨_, if_pos heq⟩
  right
  rw [if_neg heq, logReadRingbuffer, toS32_of_le hr, toS32_of_le hw]
  rcases Nat.lt_or_gt_of_ne heq with hlt | hgt
  · right
    rw [if_neg (by omega)]
    rcases Nat.lt_or_eq_of_le hr with hin | hcap
    · left
      rw [if_pos (by omega), Int.toNat_natCast, Int.toNat_natCast, Int.ofNat_sub hr]
      exact ⟨hlt, hin, rfl⟩
    · right
      rw [if_neg (by omega), logReadRingbufferSecond, Int.toNat_natCast]
      exact ⟨hlt, hcap, rfl⟩
  · left
    rw [if_pos (by omega), Int.toNat_natCast, Int.toNat_natCast, Int.ofNat_sub (Nat.le_of_lt hgt)]
    exact ⟨hgt, hw, rfl⟩

/-! ## What is read -/

/-- The reads stay inside the ring, whatever the indices are, and the data inside
the message buffer. -/
structure Bounded (c : LogChannel) : Prop where
  data : c.recvBuf.dataSize ≤ c.recvBuf.bufSize - LOG_MSG_HEAD_SIZE
  reads : ∀ e ∈ c.reads, e.off + e.len ≤ c.cap
  zero : ∀ w, c.phase = .publishZero w → w ≤ c.cap
  second : ∀ w, c.phase = .second w → w ≤ c.cap

theorem Bounded.finish (h : Bounded c) (ret : LogRet) : Bounded (c.finish ret) :=
  ⟨h.data, h.reads, by simp [LogChannel.finish], by simp [LogChannel.finish]⟩

theorem Bounded.copyThen (h : Bounded c) {base n : ℕ} {next : ReadPhase} (hin : base + n ≤ c.cap)
    (hzero : ∀ w, next = .publishZero w → w ≤ c.cap) (hsecond : ∀ w, next ≠ .second w) :
    Bounded (copyThen c base n next) := by
  obtain ⟨ret, heq⟩ | ⟨hfit, heq⟩ := copyThen_cases c base n next
  · rw [heq]
    exact h.finish ret
  · rw [heq]
    refine ⟨?_, ?_, hzero, fun w hw => absurd hw (hsecond w)⟩
    · have hdata := h.data
      simp only [LogMsgBuf.outAvailSize] at hfit
      simp only [LogChannel.copied, LogMsgBuf.append, Ring.length_slice]
      omega
    · intro e he
      rcases List.mem_cons.mp he with rfl | he
      · exact hin
      · exact h.reads e he

theorem Bounded.step (h : Bounded c) {op : LogOp} (hstep : logStep c op = some t) : Bounded t := by
  cases op with
  | read =>
      simp only [logStep, Option.ite_none_right_eq_some, Option.some.injEq] at hstep
      obtain ⟨-, rfl⟩ := hstep
      exact ⟨h.data, h.reads, by simp, by simp⟩
  | next =>
      simp only [logStep, readNext] at hstep
      split at hstep
      · cases hstep
      · obtain rfl := Option.some.inj hstep
        exact ⟨h.data, h.reads, by simp, by simp⟩
      · rename_i r w hphase
        obtain rfl := Option.some.inj hstep
        obtain ⟨ret, heq⟩ | ⟨hlt, hw, heq⟩ | ⟨hlt, hr, heq⟩ | ⟨hlt, hr, heq⟩ :=
          logReadChannel_cases c r w <;> rw [heq]
        · exact h.finish ret
        · exact h.copyThen (by omega) (by simp) (by simp)
        · refine h.copyThen (by omega) ?_ (by simp)
          intro w' hw'
          cases hw'
          omega
        · exact h.copyThen (by omega) (by simp) (by simp)
      · obtain rfl := Option.some.inj hstep
        exact ⟨h.data, h.reads, by simp [LogChannel.finish], by simp [LogChannel.finish]⟩
      · rename_i w hphase
        obtain rfl := Option.some.inj hstep
        have hw := h.zero w hphase
        split
        · exact ⟨h.data, h.reads, by simp [LogChannel.finish], by simp [LogChannel.finish]⟩
        · refine ⟨h.data, h.reads, by simp, ?_⟩
          intro w' hw'
          cases hw'
          exact hw
      · rename_i w hphase
        obtain rfl := Option.some.inj hstep
        have hw := h.second w hphase
        exact h.copyThen (by omega) (by simp) (by simp)
  | produce bytes bufWrite =>
      simp only [logStep, Option.ite_none_right_eq_some, Option.some.injEq] at hstep
      obtain ⟨-, rfl⟩ := hstep
      exact ⟨h.data, h.reads, h.zero, h.second⟩
  | buffer recvBuf =>
      simp only [logStep, Option.ite_none_right_eq_some, Option.some.injEq] at hstep
      obtain ⟨⟨hidle, hdata⟩, rfl⟩ := hstep
      exact ⟨hdata, h.reads, h.zero, h.second⟩
  | corrupt bufRead bufWrite =>
      obtain rfl := Option.some.inj hstep
      exact ⟨h.data, h.reads, h.zero, h.second⟩

theorem Bounded.of_reach (h : logMachine.Reach c) : Bounded c := by
  refine h.invariant ?_ fun s op t hs _ hstep => hs.step hstep
  rintro c ⟨-, -, hphase, hdata, -, -, hreads⟩
  exact ⟨hdata, by simp [hreads], by simp [hphase], by simp [hphase]⟩

/-! ## What is lost -/

section Indices

variable {cap r w w₀ w' n : ℕ}

/-- The index `w₀` lies between the read index and the write index. -/
def Ahead (cap r w₀ w : ℕ) : Prop :=
  w₀ ≤ cap ∧ unread cap r w = unread cap r w₀ + unread cap w₀ w

theorem unread_cases (cap r w : ℕ) :
    r ≤ w ∧ unread cap r w = w - r ∨ w < r ∧ unread cap r w = cap - r + w := by
  unfold unread
  split
  · exact .inl ⟨by assumption, rfl⟩
  · exact .inr ⟨Nat.lt_of_not_le (by assumption), rfl⟩

theorem unread_self : unread cap r r = 0 := by
  rw [unread, if_pos (Nat.le_refl r), Nat.sub_self]

theorem Ahead.refl (hw : w ≤ cap) : Ahead cap r w w :=
  ⟨hw, by rw [unread_self, Nat.add_zero]⟩

theorem unread_le (hr : r ≤ cap) (hw : w ≤ cap) : unread cap r w ≤ cap := by
  have := unread_cases cap r w
  omega

theorem Ahead.produce (h : Ahead cap r w₀ w) (hr : r ≤ cap) (hw' : w' ≤ cap)
    (hmove : w' = w + n ∨ w' + cap = w + n)
    (hroom : unread cap r w' = unread cap r w + n) : Ahead cap r w₀ w' := by
  obtain ⟨hw₀, hahead⟩ := h
  refine ⟨hw₀, ?_⟩
  have h₁ := unread_cases cap r w
  have h₂ := unread_cases cap r w₀
  have h₃ := unread_cases cap w₀ w
  have h₄ := unread_cases cap r w'
  have h₅ := unread_cases cap w₀ w'
  omega

/-- Where the reader stands after `w₀` is published. -/
theorem unread_mod (hr : r ≤ cap) : (r + unread cap r w₀) % cap = w₀ % cap := by
  unfold unread
  split
  · rw [Nat.add_sub_cancel' (by assumption)]
  · rw [show r + (cap - r + w₀) = w₀ + cap by omega, Nat.add_mod_right]

/-- After the end of the ring was read, its beginning up to the write index is
left. -/
theorem Ahead.zero (h : Ahead cap r w₀ w) (hlt : w₀ < r) (hr : r ≤ cap) :
    unread cap r w = cap - r + unread cap 0 w ∧ Ahead cap 0 w₀ w := by
  obtain ⟨hw₀, hahead⟩ := h
  have h₁ := unread_cases cap r w
  have h₂ := unread_cases cap r w₀
  have h₃ := unread_cases cap w₀ w
  have h₄ := unread_cases cap 0 w
  have h₅ := unread_cases cap 0 w₀
  unfold Ahead
  omega

end Indices

/-- The number of bytes that were copied and are not published yet. -/
def LogChannel.unpublished (c : LogChannel) : ℕ :=
  match c.phase with
  | .publish bufWrite => unread c.cap c.bufRead bufWrite
  | .publishZero _ => c.cap - c.bufRead
  | _ => 0

/-- The bytes of the ring that the producer wrote and that are not released. -/
def LogChannel.unreadBytes (c : LogChannel) : List UInt8 :=
  Ring.content c.vir c.cap c.bufRead (unread c.cap c.bufRead c.bufWrite)

/-- What a call loaded lies between the indices. -/
def PhaseOk (c : LogChannel) : Prop :=
  match c.phase with
  | .idle => True
  | .readLoaded bufRead => bufRead = c.bufRead
  | .loaded bufRead bufWrite => bufRead = c.bufRead ∧ Ahead c.cap bufRead bufWrite c.bufWrite
  | .publish bufWrite => Ahead c.cap c.bufRead bufWrite c.bufWrite
  | .publishZero bufWrite => bufWrite < c.bufRead ∧ Ahead c.cap c.bufRead bufWrite c.bufWrite
  | .second bufWrite => c.bufRead = 0 ∧ Ahead c.cap 0 bufWrite c.bufWrite

/-- What was appended is what was produced, but for what the ring still holds. -/
structure Lossless (c : LogChannel) : Prop where
  read_le : c.bufRead ≤ c.cap
  write_le : c.bufWrite ≤ c.cap
  phase : PhaseOk c
  flow : ∃ done, c.produced = done ++ c.unreadBytes ∧
    c.appended = done ++ c.unreadBytes.take c.unpublished
  ahead : c.unpublished ≤ unread c.cap c.bufRead c.bufWrite

namespace Lossless

variable (h : Lossless c)

include h

/-- A call that returns has published all that it copied. -/
theorem finish (hnone : c.unpublished = 0) (ret : LogRet) : Lossless (c.finish ret) := by
  obtain ⟨done, hproduced, happended⟩ := h.flow
  rw [hnone, List.take_zero] at happended
  exact ⟨h.read_le, h.write_le, trivial, ⟨done, hproduced, happended⟩, Nat.zero_le _⟩

/-- A copy of the first unread bytes. -/
theorem copyThen (hnone : c.unpublished = 0) {base n : ℕ} {next : ReadPhase}
    (hbytes : Ring.slice c.vir base n = c.unreadBytes.take n)
    (hphase : PhaseOk { c with phase := next })
    (hnext : ({ c with phase := next } : LogChannel).unpublished = n)
    (hle : n ≤ unread c.cap c.bufRead c.bufWrite) :
    Lossless (copyThen c base n next) := by
  obtain ⟨ret, heq⟩ | ⟨-, heq⟩ := copyThen_cases c base n next
  · rw [heq]
    exact h.finish hnone ret
  · rw [heq]
    obtain ⟨done, hproduced, happended⟩ := h.flow
    rw [hnone, List.take_zero, List.append_nil] at happended
    have hn : (c.copied base n next).unpublished = n := hnext
    refine ⟨h.read_le, h.write_le, hphase, ⟨done, hproduced, ?_⟩, hn ▸ hle⟩
    rw [hn]
    change c.appended ++ Ring.slice c.vir base n = done ++ c.unreadBytes.take n
    rw [happended, hbytes]

/-- What was copied is released. -/
theorem publish {r : ℕ} (next : ReadPhase) (hr : r ≤ c.cap)
    (hmod : (c.bufRead + c.unpublished) % c.cap = r % c.cap)
    (hrest : unread c.cap c.bufRead c.bufWrite = c.unpublished + unread c.cap r c.bufWrite)
    (hphase : PhaseOk { c with bufRead := r, phase := next })
    (hnone : ({ c with bufRead := r, phase := next } : LogChannel).unpublished = 0)
    (ret : LogRet) : Lossless { c with bufRead := r, phase := next, ret } := by
  obtain ⟨done, hproduced, happended⟩ := h.flow
  have hsplit : c.unreadBytes = c.unreadBytes.take c.unpublished ++
      Ring.content c.vir c.cap r (unread c.cap r c.bufWrite) := by
    have htail : c.unreadBytes.drop c.unpublished =
        Ring.content c.vir c.cap r (unread c.cap r c.bufWrite) := by
      rw [LogChannel.unreadBytes, Ring.drop_content _ h.ahead, hrest, Nat.add_sub_cancel_left]
      exact Ring.content_mod _ (by rw [Ring.pos, Nat.mod_mod, hmod]) _
    rw [← htail, List.take_append_drop]
  have hn : ({ c with bufRead := r, phase := next, ret } : LogChannel).unpublished = 0 := hnone
  refine ⟨hr, h.write_le, hphase, ⟨done ++ c.unreadBytes.take c.unpublished, ?_, ?_⟩, ?_⟩
  · change c.produced = _ ++ Ring.content c.vir c.cap r (unread c.cap r c.bufWrite)
    rw [List.append_assoc, ← hsplit]
    exact hproduced
  · rw [hn, List.take_zero, List.append_nil]
    exact happended
  · rw [hn]
    exact Nat.zero_le _

theorem read (hidle : c.phase = .idle) : Lossless { c with phase := .readLoaded c.bufRead } := by
  obtain ⟨done, hproduced, happended⟩ := h.flow
  have hnone : c.unpublished = 0 := by simp [LogChannel.unpublished, hidle]
  rw [hnone] at happended
  exact ⟨h.read_le, h.write_le, rfl, ⟨done, hproduced, happended⟩, Nat.zero_le _⟩

theorem next (hstep : readNext c = some t) : Lossless t := by
  have hr := h.read_le
  have hw := h.write_le
  have hphase := h.phase
  obtain ⟨done, hproduced, happended⟩ := h.flow
  simp only [readNext] at hstep
  split at hstep <;> rename_i hp <;> simp only [PhaseOk, hp] at hphase
  · cases hstep
  · obtain rfl := Option.some.inj hstep
    have hnone : c.unpublished = 0 := by simp [LogChannel.unpublished, hp]
    rw [hnone] at happended
    exact ⟨hr, hw, ⟨hphase, .refl hw⟩, ⟨done, hproduced, happended⟩, Nat.zero_le _⟩
  · rename_i r w₀
    obtain rfl := Option.some.inj hstep
    obtain ⟨rfl, hahead⟩ := hphase
    have hnone : c.unpublished = 0 := by simp [LogChannel.unpublished, hp]
    obtain ⟨ret, heq⟩ | ⟨hlt, hcap, heq⟩ | ⟨hlt, hin, heq⟩ | ⟨hlt, hend, heq⟩ :=
      logReadChannel_cases c c.bufRead w₀ <;> rw [heq]
    · exact h.finish hnone ret
    · have hlen : unread c.cap c.bufRead w₀ = w₀ - c.bufRead := if_pos (Nat.le_of_lt hlt)
      have hle : w₀ - c.bufRead ≤ unread c.cap c.bufRead c.bufWrite := by
        have := hahead.2
        omega
      refine h.copyThen hnone ?_ hahead hlen hle
      rw [LogChannel.unreadBytes, Ring.take_content _ hle, Ring.content_eq_slice _ (by omega)]
    · have hzero := (hahead.zero hlt hr).1
      refine h.copyThen hnone ?_ ⟨hlt, hahead⟩ rfl (by omega)
      rw [LogChannel.unreadBytes, Ring.take_content _ (by omega),
        Ring.content_eq_slice _ (by omega)]
    · have hlen : unread c.cap c.bufRead w₀ = w₀ := by
        rw [unread, if_neg (Nat.not_le.mpr hlt)]
        omega
      have hle : w₀ ≤ unread c.cap c.bufRead c.bufWrite := by
        have := hahead.2
        omega
      refine h.copyThen hnone ?_ hahead hlen hle
      have hmod : c.bufRead % c.cap = 0 % c.cap := by rw [hend, Nat.mod_self, Nat.zero_mod]
      rw [LogChannel.unreadBytes, Ring.take_content _ hle, Ring.content_mod _ hmod,
        Ring.content_eq_slice _ (by omega)]
  · rename_i w₀
    obtain rfl := Option.some.inj hstep
    have hlen : c.unpublished = unread c.cap c.bufRead w₀ := by
      simp [LogChannel.unpublished, hp]
    exact h.publish .idle hphase.1 (hlen ▸ unread_mod hr) (hlen ▸ hphase.2) trivial rfl .ok
  · rename_i w₀
    obtain rfl := Option.some.inj hstep
    obtain ⟨hlt, hahead⟩ := hphase
    obtain ⟨hrest, hahead'⟩ := hahead.zero hlt hr
    have hlen : c.unpublished = c.cap - c.bufRead := by simp [LogChannel.unpublished, hp]
    have hmod : (c.bufRead + c.unpublished) % c.cap = 0 % c.cap := by
      rw [hlen, Nat.add_sub_cancel' hr, Nat.mod_self, Nat.zero_mod]
    rw [← hlen] at hrest
    split
    · exact h.publish .idle (Nat.zero_le _) hmod hrest trivial rfl .ok
    · exact h.publish (.second w₀) (Nat.zero_le _) hmod hrest ⟨rfl, hahead'⟩ rfl c.ret
  · rename_i w₀
    obtain rfl := Option.some.inj hstep
    obtain ⟨hzero, hahead⟩ := hphase
    have hnone : c.unpublished = 0 := by simp [LogChannel.unpublished, hp]
    have hlen : unread c.cap 0 w₀ = w₀ := if_pos (Nat.zero_le _)
    have hle : w₀ ≤ unread c.cap c.bufRead c.bufWrite := by
      rw [hzero]
      have := hahead.2
      omega
    refine h.copyThen hnone ?_ (by rw [← hzero] at hahead; exact hahead) ?_ hle
    · rw [LogChannel.unreadBytes, Ring.take_content _ hle, hzero, Ring.content_eq_slice]
      have := hahead.1
      omega
    · change unread c.cap c.bufRead w₀ = w₀
      rw [hzero, hlen]

theorem produce {bytes : List UInt8} {bufWrite : ℕ} (hmay : MayProduce c bytes.length bufWrite) :
    Lossless (c.write bytes bufWrite) := by
  obtain ⟨hr, hw, hphase, ⟨done, hproduced, happended⟩, hle⟩ := h
  obtain ⟨hw', hmove, hroom⟩ := hmay
  have hmove' : bufWrite = c.bufWrite + bytes.length ∨ bufWrite + c.cap = c.bufWrite + bytes.length :=
    hmove
  have hbytes : (c.write bytes bufWrite).unreadBytes = c.unreadBytes ++ bytes := by
    change Ring.content _ c.cap c.bufRead (unread c.cap c.bufRead bufWrite) = _
    rw [hroom]
    refine Ring.content_put _ (unread_mod hr).symm ?_
    rw [← hroom]
    exact unread_le hr hw'
  refine ⟨hr, hw', ?_, ⟨done, ?_, ?_⟩, ?_⟩
  · unfold PhaseOk at hphase ⊢
    cases hp : c.phase <;> simp only [LogChannel.write, hp] at hphase ⊢
    · exact hphase
    · obtain ⟨rfl, hahead⟩ := hphase
      exact ⟨rfl, hahead.produce hr hw' hmove' hroom⟩
    · exact hphase.produce hr hw' hmove' hroom
    · exact ⟨hphase.1, hphase.2.produce hr hw' hmove' hroom⟩
    · obtain ⟨hzero, hahead⟩ := hphase
      rw [hzero] at hroom
      exact ⟨hzero, hahead.produce (Nat.zero_le _) hw' hmove' hroom⟩
  · rw [hbytes, ← List.append_assoc, ← hproduced]
    rfl
  · rw [hbytes]
    change c.appended = done ++ (c.unreadBytes ++ bytes).take c.unpublished
    rw [List.take_append_of_le_length (by rwa [LogChannel.unreadBytes, Ring.length_content]),
      happended]
  · change c.unpublished ≤ unread c.cap c.bufRead bufWrite
    omega

end Lossless

/-- A step that leaves the indices to the producer and the reader. -/
def Honest : LogChannel → LogOp → Prop
  | _, .corrupt _ _ => False
  | _, _ => True

instance (c : LogChannel) : ∀ op, Decidable (Honest c op)
  | .corrupt _ _ => inferInstanceAs (Decidable False)
  | .read => inferInstanceAs (Decidable True)
  | .next => inferInstanceAs (Decidable True)
  | .produce _ _ => inferInstanceAs (Decidable True)
  | .buffer _ => inferInstanceAs (Decidable True)

theorem Lossless.of_reach (h : logMachine.ReachIf Honest c) : Lossless c := by
  refine h.invariant ?_ ?_
  · rintro c ⟨hr, hw, hphase, -, hproduced, happended, -⟩
    have hempty : unread c.cap c.bufRead c.bufWrite = 0 := by rw [hw, unread_self]
    refine ⟨hr, hw ▸ hr, by simp [PhaseOk, hphase], ⟨[], ?_, ?_⟩, ?_⟩
    · rw [hproduced, LogChannel.unreadBytes, hempty]
      rfl
    · rw [happended, LogChannel.unreadBytes, hempty]
      simp
    · simp [LogChannel.unpublished, hphase]
  · intro c op t hc hhonest hstep
    cases op with
    | read =>
        simp only [logMachine, logStep, Option.ite_none_right_eq_some, Option.some.injEq] at hstep
        obtain ⟨hidle, rfl⟩ := hstep
        exact hc.read hidle
    | next => exact hc.next hstep
    | produce bytes bufWrite =>
        simp only [logMachine, logStep, Option.ite_none_right_eq_some, Option.some.injEq] at hstep
        obtain ⟨hmay, rfl⟩ := hstep
        exact hc.produce hmay
    | buffer recvBuf =>
        simp only [logMachine, logStep, Option.ite_none_right_eq_some, Option.some.injEq] at hstep
        obtain ⟨-, rfl⟩ := hstep
        exact ⟨hc.read_le, hc.write_le, hc.phase, hc.flow, hc.ahead⟩
    | corrupt bufRead bufWrite => exact hhonest.elim

/-- What was appended to the message buffer is a beginning of what was produced,
and after each call, whatever it returns, it is all but what the ring still holds.
The data stays inside the message buffer and the reads inside the ring, whatever
the indices are. -/
theorem log_read_lossless :
    (∀ c, logMachine.ReachIf Honest c →
      c.appended <+: c.produced ∧
      (c.phase = .idle → c.produced = c.appended ++ c.unreadBytes)) ∧
    ∀ c, logMachine.Reach c →
      c.recvBuf.dataSize ≤ c.recvBuf.bufSize - LOG_MSG_HEAD_SIZE ∧
      ∀ e ∈ c.reads, e.off + e.len ≤ c.cap := by
  refine ⟨fun c h => ?_, fun c h => ⟨(Bounded.of_reach h).data, (Bounded.of_reach h).reads⟩⟩
  have hc := Lossless.of_reach h
  obtain ⟨done, hproduced, happended⟩ := hc.flow
  constructor
  · rw [hproduced, happended]
    exact (List.prefix_append_right_inj done).mpr (List.take_prefix _ _)
  · intro hidle
    have hnone : c.unpublished = 0 := by simp [LogChannel.unpublished, hidle]
    rw [hnone, List.take_zero, List.append_nil] at happended
    rw [hproduced, happended]

/-- A channel with a ring of four bytes, the indices at its end. -/
def fourBytes : LogChannel where
  bufSize := 132
  size_ge := by decide
  size_lt := by decide
  sis := false
  vir := fun _ => 0
  bufRead := 3
  bufWrite := 3
  recvBuf := ⟨fun _ => 0, 32, 0⟩
  phase := .idle
  ret := .ok
  produced := []
  appended := []
  reads := []

/-- Two bytes are written across the wrap and read, a third one in between. -/
def readAcrossWrap : LogChannel :=
  logMachine.final fourBytes
    [.produce [1, 2] 1, .read, .next, .next, .produce [4] 2, .next, .next, .next]

theorem log_read_across_wrap :
    readAcrossWrap.produced = readAcrossWrap.appended ++ readAcrossWrap.unreadBytes ∧
      readAcrossWrap.unreadBytes = [4] ∧
      ∀ e ∈ readAcrossWrap.reads, e.off + e.len ≤ readAcrossWrap.cap := by
  have hinit : logMachine.init fourBytes := by
    refine ⟨?_, rfl, rfl, ?_, rfl, rfl, rfl⟩ <;> decide
  have hrun : (logMachine.run fourBytes
      [.produce [1, 2] 1, .read, .next, .next, .produce [4] 2, .next, .next, .next]).isSome := by
    decide +kernel
  refine ⟨?_, by decide +kernel, ?_⟩
  · exact (log_read_lossless.1 _ (.final (.start hinit) (by decide +kernel) hrun)).2
      (by decide +kernel)
  · exact (log_read_lossless.2 _ (.final (.start hinit) hrun)).2

end OpiaiKernel.Logdrv
