import OpiaiKernel.Lib.Machine
import OpiaiKernel.Lib.Ring
import Mathlib.Algebra.Ring.Nat

/-!
# The sample ring of a peripheral channel

A thread samples into the slots of a ring; a reader takes whole samples from it.
When the head meets the tail the ring has lost all that it held.  The lengths of
the samples stand beside the indices; a start resets the indices only.

The functions are translated from `prof_peripheral.c`.  Each works under the
state mutex of the channel.  The stop gives the mutex back while it waits for the
reader, and goes on when that takes too long.
-/

namespace OpiaiKernel.Prof

abbrev PROF_PERIPHERAL_CACHE_NUM : ℕ := 10

abbrev PROF_PERIPHERAL_BUFFER_LEN : ℕ := 100 * 1024

/-- `struct prof_peripheral_buff_head`. -/
structure PeripheralBuffHead where
  head : ℕ
  tail : ℕ
  buffNum : ℕ
  oneBuffLen : ℕ
  dataLen : ℕ → ℕ

inductive ChannelState
  | idle
  | enable
  | stopping
  deriving DecidableEq

/-- The channel with the memory of its slots, while it has one.  Beside it stand
the samples that were taken, and for each slot and each sample that was delivered
the number of the sample. -/
structure PeriChannel where
  buffHead : PeripheralBuffHead
  virAddr : Option (ℕ → List UInt8)
  channelState : ChannelState
  taken : List (List UInt8)
  number : ℕ → ℕ
  delivered : List (ℕ × List UInt8)

namespace PeriChannel

/-- The bytes from the address of a slot on. -/
def memory (c : PeriChannel) (slot : ℕ) : List UInt8 :=
  match c.virAddr with
  | some mem => mem slot
  | none => []

/-- What a reader finds in a slot. -/
def sampleAt (c : PeriChannel) (slot : ℕ) : ℕ × List UInt8 :=
  (c.number slot, (c.memory slot).take (c.buffHead.dataLen slot))

/-- The number of slots from the tail to the head. -/
def used (c : PeriChannel) : ℕ :=
  Ring.count PROF_PERIPHERAL_CACHE_NUM c.buffHead.tail c.buffHead.head

/-- The samples that a reader can still obtain. -/
def unread (c : PeriChannel) : List (ℕ × List UInt8) :=
  if c.virAddr = none then []
  else Ring.content c.sampleAt PROF_PERIPHERAL_CACHE_NUM c.buffHead.tail c.used

end PeriChannel

def totalLen (samples : List (ℕ × List UInt8)) : ℕ := (samples.map fun x => x.2.length).sum

def nextIndex (i : ℕ) : ℕ := if i + 1 = PROF_PERIPHERAL_CACHE_NUM then 0 else i + 1

/-- The channel starts with cleared memory; the lengths stay as they are. -/
def profInitSubChannelInfo (c : PeriChannel) : PeriChannel :=
  { c with
    buffHead :=
      { c.buffHead with
        buffNum := PROF_PERIPHERAL_CACHE_NUM
        oneBuffLen := PROF_PERIPHERAL_BUFFER_LEN
        head := 0
        tail := 0 }
    virAddr := some fun _ => List.replicate PROF_PERIPHERAL_BUFFER_LEN 0
    channelState := .enable }

/-- Store a sample at the head. -/
def PeriChannel.store (c : PeriChannel) (mem : ℕ → List UInt8) (bytes : List UInt8) :
    PeriChannel :=
  let head := c.buffHead.head
  { c with
    virAddr := some (Function.update mem head (bytes ++ (mem head).drop bytes.length))
    buffHead :=
      { c.buffHead with
        dataLen := Function.update c.buffHead.dataLen head bytes.length
        head := nextIndex head }
    number := Function.update c.number head c.taken.length
    taken := c.taken ++ [bytes] }

/-- What the handler sampled goes to the head; `none` is a handler that fails. -/
def profAgentSample (c : PeriChannel) (mem : ℕ → List UInt8) (data : Option (List UInt8)) :
    PeriChannel :=
  match data with
  | none => c
  | some bytes =>
      if bytes.length = 0 ∨ bytes.length > c.buffHead.oneBuffLen then c else c.store mem bytes

/-- Go over a slot. -/
def PeriChannel.skip (c : PeriChannel) : PeriChannel :=
  { c with buffHead := { c.buffHead with tail := nextIndex c.buffHead.tail } }

/-- Go over a slot whose sample was sent. -/
def PeriChannel.deliver (c : PeriChannel) : PeriChannel :=
  let tail := c.buffHead.tail
  { c with
    buffHead :=
      { c.buffHead with
        dataLen := Function.update c.buffHead.dataLen tail 0
        tail := nextIndex tail }
    delivered := c.delivered ++ [c.sampleAt tail] }

/-- The loop over the slots, with what is left of the buffer; `sends` is the
number of samples that can be sent before sending fails. -/
def readLoop : ℕ → PeriChannel → ℕ → ℕ → PeriChannel × ℕ
  | 0, c, leftLen, _ => (c, leftLen)
  | fuel + 1, c, leftLen, sends =>
      let nowBufLen := c.buffHead.dataLen c.buffHead.tail
      if c.buffHead.tail = c.buffHead.head then (c, leftLen)
      else if nowBufLen = 0 then readLoop fuel c.skip leftLen sends
      else if nowBufLen > leftLen then (c, leftLen)
      else
        match sends with
        | 0 => (c, leftLen)
        | sends + 1 => readLoop fuel c.deliver (leftLen - nowBufLen) sends

inductive ReadResult
  | stoppedAlready
  | read (bufSize : ℕ)

def ReadResult.size : ReadResult → ℕ
  | .stoppedAlready => 0
  | .read bufSize => bufSize

def profAgentRead (c : PeriChannel) (bufLen sends : ℕ) : ReadResult × PeriChannel :=
  if c.channelState = .idle then (.stoppedAlready, c)
  else if c.buffHead.head = c.buffHead.tail then (.read 0, c)
  else
    let (c, leftLen) := readLoop PROF_PERIPHERAL_CACHE_NUM c bufLen sends
    let state :=
      if c.buffHead.tail = c.buffHead.head ∧ c.channelState = .stopping then .enable
      else c.channelState
    (.read (bufLen - leftLen), { c with channelState := state })

def profAgentGetDataLen (buffHead : PeripheralBuffHead) : ℕ :=
  if buffHead.head = buffHead.tail then 0
  else ((List.range buffHead.buffNum).map buffHead.dataLen).sum

inductive PeriOp
  | start
  | sample (data : Option (List UInt8))
  | read (bufLen sends : ℕ)
  | stopping
  | stop

def periStep (c : PeriChannel) : PeriOp → Option PeriChannel
  | .start => if c.channelState = .idle then some (profInitSubChannelInfo c) else none
  | .sample data =>
      match c.virAddr with
      | some mem => some (profAgentSample c mem data)
      | none => none
  | .read bufLen sends => some (profAgentRead c bufLen sends).2
  | .stopping => if c.channelState = .idle then none else some { c with channelState := .stopping }
  | .stop => if c.channelState = .idle then none
      else some { c with channelState := .idle, virAddr := none }

/-- A channel that was never started. -/
def newChannel : PeriChannel where
  buffHead := ⟨0, 0, 0, 0, fun _ => 0⟩
  virAddr := none
  channelState := .idle
  taken := []
  number := fun _ => 0
  delivered := []

def periMachine : Machine PeriChannel PeriOp where
  init c := c = newChannel
  step := periStep

/-! ## The invariant -/

/-- What is delivered or unread is whole and in the order in which it was taken,
nothing twice; and the slots of unread samples have their lengths. -/
structure PeriInv (c : PeriChannel) : Prop where
  head : c.buffHead.head < PROF_PERIPHERAL_CACHE_NUM
  tail : c.buffHead.tail < PROF_PERIPHERAL_CACHE_NUM
  idle : c.channelState = .idle ↔ c.virAddr = none
  num : c.virAddr ≠ none → c.buffHead.buffNum = PROF_PERIPHERAL_CACHE_NUM
  order : ((c.delivered ++ c.unread).map Prod.fst).Pairwise (· < ·)
  whole : ∀ x ∈ c.delivered ++ c.unread, c.taken[x.1]? = some x.2
  lens : c.virAddr ≠ none → ∀ i < c.used,
    let slot := Ring.pos PROF_PERIPHERAL_CACHE_NUM c.buffHead.tail i
    0 < c.buffHead.dataLen slot ∧ (c.sampleAt slot).2.length = c.buffHead.dataLen slot

/-- Only the slots of unread samples have a length. -/
def NoStale (c : PeriChannel) : Prop :=
  ∀ slot < PROF_PERIPHERAL_CACHE_NUM,
    (∀ i < c.used, Ring.pos PROF_PERIPHERAL_CACHE_NUM c.buffHead.tail i ≠ slot) →
      c.buffHead.dataLen slot = 0

variable {c : PeriChannel} {mem : ℕ → List UInt8} {bytes : List UInt8}

theorem nextIndex_eq {i : ℕ} (h : i < PROF_PERIPHERAL_CACHE_NUM) :
    nextIndex i = (i + 1) % PROF_PERIPHERAL_CACHE_NUM := by
  unfold nextIndex
  split
  · rename_i heq
    rw [heq, Nat.mod_self]
  · rw [Nat.mod_eq_of_lt (by omega)]

theorem unread_of_some (h : c.virAddr ≠ none) :
    c.unread = Ring.content c.sampleAt PROF_PERIPHERAL_CACHE_NUM c.buffHead.tail c.used :=
  if_neg h

theorem length_unread (h : c.virAddr ≠ none) : c.unread.length = c.used := by
  rw [unread_of_some h, Ring.length_content]

theorem unread_of_used (h : c.used = 0) : c.unread = [] := by
  unfold PeriChannel.unread
  split
  · rfl
  · rw [h, Ring.content_zero]

/-! ## Reading -/

theorem sampleAt_deliver {slot : ℕ} (h : slot ≠ c.buffHead.tail) :
    c.deliver.sampleAt slot = c.sampleAt slot ∧
      c.deliver.buffHead.dataLen slot = c.buffHead.dataLen slot := by
  have hlen : c.deliver.buffHead.dataLen slot = c.buffHead.dataLen slot :=
    Function.update_of_ne h _ _
  refine ⟨?_, hlen⟩
  rw [PeriChannel.sampleAt, PeriChannel.sampleAt, hlen]
  rfl

/-- The tail after a slot was gone over, and the slots that are left. -/
theorem PeriInv.used_deliver (h : PeriInv c) (hne : c.buffHead.tail ≠ c.buffHead.head) :
    c.used = 1 + c.deliver.used ∧ ∀ i < c.deliver.used,
      Ring.pos PROF_PERIPHERAL_CACHE_NUM c.deliver.buffHead.tail i =
        Ring.pos PROF_PERIPHERAL_CACHE_NUM c.buffHead.tail (1 + i) ∧
      Ring.pos PROF_PERIPHERAL_CACHE_NUM c.buffHead.tail (1 + i) ≠ c.buffHead.tail := by
  have hpos : 0 < c.used := by
    refine Nat.pos_of_ne_zero fun hzero => ?_
    exact hne.symm ((Ring.count_eq_zero_iff h.tail h.head).mp hzero)
  have hlt : c.used < PROF_PERIPHERAL_CACHE_NUM := Ring.count_lt (by decide)
  have htail : c.deliver.buffHead.tail = Ring.pos PROF_PERIPHERAL_CACHE_NUM c.buffHead.tail 1 :=
    nextIndex_eq h.tail
  have hused : c.deliver.used = c.used - 1 := by
    rw [PeriChannel.used, htail]
    exact Ring.count_advance h.tail h.head hpos
  refine ⟨by omega, fun i hi => ⟨by rw [htail, Ring.pos_pos], ?_⟩⟩
  have hzero : Ring.pos PROF_PERIPHERAL_CACHE_NUM c.buffHead.tail 0 = c.buffHead.tail :=
    Ring.pos_of_lt h.tail
  intro heq
  have := (Ring.pos_eq_iff h.tail (by omega) (by decide)).mp (heq.trans hzero.symm)
  omega

/-- The tail stands on the first unread sample. -/
theorem PeriInv.unread_deliver (h : PeriInv c) (hmem : c.virAddr ≠ none)
    (hne : c.buffHead.tail ≠ c.buffHead.head) :
    c.unread = c.sampleAt c.buffHead.tail :: c.deliver.unread := by
  obtain ⟨hused, hslots⟩ := h.used_deliver hne
  have hfirst : Ring.content c.sampleAt PROF_PERIPHERAL_CACHE_NUM c.buffHead.tail 1 =
      [c.sampleAt c.buffHead.tail] := by
    simp [Ring.content, Ring.pos_of_lt (show c.buffHead.tail + 0 < 10 from h.tail)]
  rw [unread_of_some hmem, unread_of_some (c := c.deliver) hmem, hused, Ring.content_add, hfirst,
    List.singleton_append]
  congr 1
  apply Ring.content_congr
  intro i hi
  obtain ⟨hpos, hapart⟩ := hslots i hi
  rw [hpos, Ring.pos_pos, (sampleAt_deliver hapart).1]

theorem PeriInv.deliver (h : PeriInv c) (hmem : c.virAddr ≠ none)
    (hne : c.buffHead.tail ≠ c.buffHead.head) : PeriInv c.deliver := by
  have hunread := h.unread_deliver hmem hne
  have hall : c.deliver.delivered ++ c.deliver.unread = c.delivered ++ c.unread := by
    rw [hunread]
    simp [PeriChannel.deliver]
  refine ⟨h.head, ?_, h.idle, h.num, hall ▸ h.order, hall ▸ h.whole, ?_⟩
  · simp only [PeriChannel.deliver, nextIndex_eq h.tail]
    exact Nat.mod_lt _ (by decide)
  · intro _ i hi
    obtain ⟨hused, hslots⟩ := h.used_deliver hne
    obtain ⟨hpos, hapart⟩ := hslots i hi
    have hlen := h.lens hmem (1 + i) (by omega)
    simp only [hpos, (sampleAt_deliver hapart).1, (sampleAt_deliver hapart).2]
    exact hlen

theorem NoStale.deliver (h : NoStale c) (hinv : PeriInv c)
    (hne : c.buffHead.tail ≠ c.buffHead.head) : NoStale c.deliver := by
  obtain ⟨hused, hslots⟩ := hinv.used_deliver hne
  intro slot hslot hout
  by_cases htail : slot = c.buffHead.tail
  · rw [htail]
    exact Function.update_self _ _ _
  · rw [(sampleAt_deliver htail).2]
    refine h slot hslot ?_
    intro i hi heq
    rcases Nat.eq_zero_or_pos i with rfl | hpos
    · exact htail (heq.symm.trans (Ring.pos_of_lt hinv.tail))
    · obtain ⟨j, rfl⟩ := Nat.exists_eq_add_of_le hpos
      have hj : j < c.deliver.used := by omega
      exact hout j hj ((hslots j hj).1.trans heq)

/-- What a part of a read does: it sends the first unread samples. -/
structure ReadOff (c : PeriChannel) (leftLen : ℕ) (c' : PeriChannel) (leftLen' : ℕ) : Prop where
  inv : PeriInv c'
  virAddr : c'.virAddr = c.virAddr
  taken : c'.taken = c.taken
  state : c'.channelState = c.channelState
  noStale : NoStale c → NoStale c'
  sent : ∃ sent, c'.delivered = c.delivered ++ sent ∧ c.unread = sent ++ c'.unread ∧
    totalLen sent + leftLen' = leftLen

theorem readLoop_readOff (fuel leftLen sends : ℕ) (h : PeriInv c) (hmem : c.virAddr ≠ none) :
    ReadOff c leftLen (readLoop fuel c leftLen sends).1 (readLoop fuel c leftLen sends).2 := by
  have stop (c : PeriChannel) (leftLen : ℕ) (h : PeriInv c) : ReadOff c leftLen c leftLen :=
    ⟨h, rfl, rfl, rfl, id, [], by simp, rfl, by simp [totalLen]⟩
  induction fuel generalizing c leftLen sends with
  | zero => exact stop c leftLen h
  | succ fuel ih =>
      unfold readLoop
      by_cases hempty : c.buffHead.tail = c.buffHead.head
      · rw [if_pos hempty]
        exact stop c leftLen h
      obtain ⟨hused, -⟩ := h.used_deliver hempty
      have hlen := h.lens hmem 0 (by omega)
      have hzero : Ring.pos PROF_PERIPHERAL_CACHE_NUM c.buffHead.tail 0 = c.buffHead.tail :=
        Ring.pos_of_lt h.tail
      simp only [hzero] at hlen
      rw [if_neg hempty, if_neg (Nat.ne_of_gt hlen.1)]
      by_cases hfit : c.buffHead.dataLen c.buffHead.tail > leftLen
      · rw [if_pos hfit]
        exact stop c leftLen h
      rw [if_neg hfit]
      cases sends with
      | zero => exact stop c leftLen h
      | succ sends =>
          have hrest := ih (leftLen - c.buffHead.dataLen c.buffHead.tail) sends
            (h.deliver hmem hempty) hmem
          obtain ⟨sent, hdelivered, hunread, htotal⟩ := hrest.sent
          refine ⟨hrest.inv, hrest.virAddr, hrest.taken, hrest.state,
            fun hstale => hrest.noStale (hstale.deliver h hempty), c.sampleAt c.buffHead.tail :: sent, ?_, ?_, ?_⟩
          · rw [hdelivered]
            simp [PeriChannel.deliver]
          · rw [h.unread_deliver hmem hempty, hunread, List.cons_append]
          · simp only [totalLen, List.map_cons, List.sum_cons] at htotal ⊢
            omega

/-- A read sends whole samples, the first ones that were unread, and no more than
fits into the buffer. -/
theorem profAgentRead_spec (h : PeriInv c) (bufLen sends : ℕ) :
    PeriInv (profAgentRead c bufLen sends).2 ∧
      (profAgentRead c bufLen sends).2.virAddr = c.virAddr ∧
      (profAgentRead c bufLen sends).2.taken = c.taken ∧
      ∃ sent, (profAgentRead c bufLen sends).2.delivered = c.delivered ++ sent ∧
        c.unread = sent ++ (profAgentRead c bufLen sends).2.unread ∧
        totalLen sent = (profAgentRead c bufLen sends).1.size ∧ totalLen sent ≤ bufLen := by
  unfold profAgentRead
  by_cases hidle : c.channelState = .idle
  · rw [if_pos hidle]
    exact ⟨h, rfl, rfl, [], by simp, rfl, rfl, Nat.zero_le _⟩
  by_cases hempty : c.buffHead.head = c.buffHead.tail
  · rw [if_neg hidle, if_pos hempty]
    exact ⟨h, rfl, rfl, [], by simp, rfl, rfl, Nat.zero_le _⟩
  have hmem : c.virAddr ≠ none := fun hnone => hidle (h.idle.mpr hnone)
  have hloop := readLoop_readOff PROF_PERIPHERAL_CACHE_NUM bufLen sends h hmem
  rw [if_neg hidle, if_neg hempty]
  obtain ⟨sent, hdelivered, hunread, htotal⟩ := hloop.sent
  refine ⟨?_, hloop.virAddr, hloop.taken, sent, hdelivered, hunread, ?_, by omega⟩
  · obtain ⟨hhead, htail, hidle', hnum, horder, hwhole, hlens⟩ := hloop.inv
    refine ⟨hhead, htail, ?_, hnum, horder, hwhole, hlens⟩
    have hstate : (readLoop PROF_PERIPHERAL_CACHE_NUM c bufLen sends).1.channelState ≠ .idle :=
      fun heq => hidle (hloop.state.symm.trans heq)
    have hmem' := fun hnone => hstate (hidle'.mpr hnone)
    constructor
    · intro heq
      simp only at heq
      split at heq
      · cases heq
      · exact absurd heq hstate
    · exact fun hnone => absurd hnone hmem'
  · simp only [ReadResult.size]
    omega

/-! ## Sampling -/

theorem sampleAt_store_head :
    (c.store mem bytes).sampleAt c.buffHead.head = (c.taken.length, bytes) ∧
      (c.store mem bytes).buffHead.dataLen c.buffHead.head = bytes.length := by
  simp [PeriChannel.sampleAt, PeriChannel.memory, PeriChannel.store]

theorem sampleAt_store_ne (hmem : c.virAddr = some mem) {slot : ℕ} (h : slot ≠ c.buffHead.head) :
    (c.store mem bytes).sampleAt slot = c.sampleAt slot ∧
      (c.store mem bytes).buffHead.dataLen slot = c.buffHead.dataLen slot := by
  simp [PeriChannel.sampleAt, PeriChannel.memory, PeriChannel.store, hmem, h]

/-- The slots of unread samples are not the head. -/
theorem PeriInv.slot_ne_head (h : PeriInv c) {i : ℕ} (hi : i < c.used) :
    Ring.pos PROF_PERIPHERAL_CACHE_NUM c.buffHead.tail i ≠ c.buffHead.head := by
  have hlt : c.used < PROF_PERIPHERAL_CACHE_NUM := Ring.count_lt (by decide)
  intro heq
  rw [← Ring.pos_count h.tail h.head] at heq
  have := (Ring.pos_eq_iff h.tail (by omega) hlt).mp heq
  exact absurd this (Nat.ne_of_lt hi)

theorem PeriInv.used_store (h : PeriInv c) :
    (c.store mem bytes).used = if c.used + 1 < PROF_PERIPHERAL_CACHE_NUM then c.used + 1 else 0 := by
  have hhead : (c.store mem bytes).buffHead.head =
      (c.buffHead.head + 1) % PROF_PERIPHERAL_CACHE_NUM := nextIndex_eq h.head
  have hlt : c.used < PROF_PERIPHERAL_CACHE_NUM := Ring.count_lt (by decide)
  unfold PeriChannel.used
  rw [hhead]
  split
  · rename_i hroom
    exact Ring.count_succ h.tail h.head hroom
  · rename_i hfull
    have hlap : (c.buffHead.head + 1) % PROF_PERIPHERAL_CACHE_NUM = c.buffHead.tail :=
      (Ring.succ_eq_head_iff h.tail h.head).mpr (by unfold PeriChannel.used at hlt; omega)
    rw [hlap]
    exact (Ring.count_eq_zero_iff h.tail h.tail).mpr rfl

/-- A sample is added to those that are unread, unless it is the last that the
ring has a slot for. -/
theorem PeriInv.unread_store (h : PeriInv c) (hmem : c.virAddr = some mem) :
    (c.store mem bytes).unread =
      if c.unread.length + 1 < PROF_PERIPHERAL_CACHE_NUM then
        c.unread ++ [(c.taken.length, bytes)]
      else [] := by
  have hsome : c.virAddr ≠ none := by simp [hmem]
  have hused : (c.store mem bytes).used = _ := h.used_store
  rw [length_unread hsome]
  split
  · rename_i hroom
    rw [if_pos hroom] at hused
    rw [unread_of_some (by simp [PeriChannel.store]), unread_of_some hsome, hused]
    change Ring.content _ _ c.buffHead.tail (Ring.count _ c.buffHead.tail c.buffHead.head + 1) = _
    rw [Ring.content_succ _ h.tail h.head, sampleAt_store_head.1]
    congr 1
    exact Ring.content_congr fun i hi => (sampleAt_store_ne hmem (h.slot_ne_head hi)).1
  · rename_i hfull
    exact unread_of_used (hused.trans (if_neg hfull))

theorem PeriInv.number_lt (h : PeriInv c) {x : ℕ × List UInt8} (hx : x ∈ c.delivered ++ c.unread) :
    x.1 < c.taken.length :=
  (List.getElem?_eq_some_iff.mp (h.whole x hx)).1

theorem PeriInv.store (h : PeriInv c) (hmem : c.virAddr = some mem) (hpos : 0 < bytes.length) :
    PeriInv (c.store mem bytes) := by
  have hunread : (c.store mem bytes).unread = _ := h.unread_store hmem
  have hsome : c.virAddr ≠ none := by simp [hmem]
  have hold : ∀ x ∈ c.delivered ++ c.unread, (c.taken ++ [bytes])[x.1]? = some x.2 := by
    intro x hx
    rw [List.getElem?_append_left (h.number_lt hx)]
    exact h.whole x hx
  have hall : (c.store mem bytes).delivered ++ (c.store mem bytes).unread =
        c.delivered ++ c.unread ++ [(c.taken.length, bytes)] ∨
      (c.store mem bytes).delivered ++ (c.store mem bytes).unread = c.delivered := by
    rw [hunread]
    split
    · exact .inl (List.append_assoc ..).symm
    · exact .inr (List.append_nil _)
  refine ⟨?_, h.tail, ?_, fun _ => h.num hsome, ?_, ?_, ?_⟩
  · change nextIndex c.buffHead.head < _
    rw [nextIndex_eq h.head]
    exact Nat.mod_lt _ (by decide)
  · have hidle := h.idle
    rw [hmem] at hidle
    simpa [PeriChannel.store] using hidle
  · rcases hall with hall | hall <;> rw [hall]
    · rw [List.map_append, List.pairwise_append]
      refine ⟨h.order, by simp, ?_⟩
      intro n hn m hm
      obtain ⟨x, hx, rfl⟩ := List.mem_map.mp hn
      obtain rfl : m = c.taken.length := by simpa using hm
      exact h.number_lt hx
    · exact h.order.sublist ((List.sublist_append_left _ _).map _)
  · rcases hall with hall | hall <;> rw [hall]
    · intro x hx
      rcases List.mem_append.mp hx with hx | hx
      · exact hold x hx
      · rw [List.mem_singleton.mp hx]
        exact List.getElem?_concat_length
    · exact fun x hx => hold x (List.mem_append_left _ hx)
  · intro _ i hi
    rw [h.used_store] at hi
    split at hi
    · change 0 < (c.store mem bytes).buffHead.dataLen (Ring.pos _ c.buffHead.tail i) ∧
        ((c.store mem bytes).sampleAt (Ring.pos _ c.buffHead.tail i)).2.length =
          (c.store mem bytes).buffHead.dataLen (Ring.pos _ c.buffHead.tail i)
      rcases Nat.lt_succ_iff_lt_or_eq.mp hi with hi | rfl
      · have hne := h.slot_ne_head hi
        rw [(sampleAt_store_ne hmem hne).1, (sampleAt_store_ne hmem hne).2]
        exact h.lens hsome i hi
      · have hhead : Ring.pos PROF_PERIPHERAL_CACHE_NUM c.buffHead.tail c.used = c.buffHead.head :=
          Ring.pos_count h.tail h.head
        rw [hhead, sampleAt_store_head.1, sampleAt_store_head.2]
        exact ⟨hpos, rfl⟩
    · omega

/-! ## Runs -/

/-- A sample of a length that the slots can hold. -/
def Fits (c : PeriChannel) (bytes : List UInt8) : Prop :=
  0 < bytes.length ∧ bytes.length ≤ c.buffHead.oneBuffLen

instance (c : PeriChannel) (bytes : List UInt8) : Decidable (Fits c bytes) :=
  inferInstanceAs (Decidable (_ ∧ _))

theorem profAgentSample_eq (c : PeriChannel) (mem : ℕ → List UInt8) (bytes : List UInt8) :
    profAgentSample c mem (some bytes) = if Fits c bytes then c.store mem bytes else c := by
  have hfit : (bytes.length = 0 ∨ bytes.length > c.buffHead.oneBuffLen) ↔ ¬ Fits c bytes := by
    unfold Fits
    omega
  simp only [profAgentSample, hfit, ite_not]

theorem PeriInv.init (h : PeriInv c) (hidle : c.channelState = .idle) :
    PeriInv (profInitSubChannelInfo c) ∧ (profInitSubChannelInfo c).unread = [] := by
  have hused : (profInitSubChannelInfo c).used = 0 := by
    change Ring.count PROF_PERIPHERAL_CACHE_NUM 0 0 = 0
    decide
  have hall : (profInitSubChannelInfo c).delivered ++ (profInitSubChannelInfo c).unread =
      c.delivered ++ c.unread := by
    rw [unread_of_used hused, PeriChannel.unread, if_pos (h.idle.mp hidle)]
    rfl
  refine ⟨⟨Nat.succ_pos 9, Nat.succ_pos 9, by simp [profInitSubChannelInfo], fun _ => rfl,
    hall ▸ h.order, hall ▸ h.whole, ?_⟩, unread_of_used hused⟩
  intro _ i hi
  rw [hused] at hi
  cases hi

theorem PeriInv.stop (h : PeriInv c) :
    PeriInv { c with channelState := .idle, virAddr := none } := by
  have hsub : (c.delivered ++ []).Sublist (c.delivered ++ c.unread) :=
    (List.Sublist.refl _).append (List.nil_sublist _)
  refine ⟨h.head, h.tail, by simp, by simp, ?_, ?_, by simp⟩
  · exact h.order.sublist (hsub.map _)
  · exact fun x hx => h.whole x (hsub.subset hx)

/-- Whether a step loses no sample: a sample does not take the last slot, and a
stop finds none that is unread. -/
def Keeps (c : PeriChannel) : PeriOp → Prop
  | .sample (some bytes) => Fits c bytes → c.unread.length + 1 < PROF_PERIPHERAL_CACHE_NUM
  | .stop => c.unread = []
  | _ => True

instance (c : PeriChannel) : ∀ op, Decidable (Keeps c op)
  | .sample (some _) => inferInstanceAs (Decidable (_ → _))
  | .sample none => inferInstanceAs (Decidable True)
  | .start => inferInstanceAs (Decidable True)
  | .read _ _ => inferInstanceAs (Decidable True)
  | .stopping => inferInstanceAs (Decidable True)
  | .stop => inferInstanceAs (Decidable (_ = _))

/-- The samples that were delivered or are unread gain those that are taken. -/
def Gains (c t : PeriChannel) : Prop :=
  ∃ new, t.delivered ++ t.unread = c.delivered ++ c.unread ++ new ∧
    t.taken = c.taken ++ new.map Prod.snd

theorem Gains.of_eq {t : PeriChannel} (hall : t.delivered ++ t.unread = c.delivered ++ c.unread)
    (htaken : t.taken = c.taken) : Gains c t :=
  ⟨[], by simp [hall], by simp [htaken]⟩

theorem PeriInv.step (h : PeriInv c) {op : PeriOp} {t : PeriChannel}
    (hstep : periStep c op = some t) : PeriInv t ∧ (Keeps c op → Gains c t) := by
  cases op with
  | start =>
      simp only [periStep, Option.ite_none_right_eq_some, Option.some.injEq] at hstep
      obtain ⟨hidle, rfl⟩ := hstep
      obtain ⟨hinv, hunread⟩ := h.init hidle
      refine ⟨hinv, fun _ => .of_eq ?_ rfl⟩
      rw [hunread, PeriChannel.unread, if_pos (h.idle.mp hidle)]
      rfl
  | sample data =>
      simp only [periStep] at hstep
      split at hstep
      · rename_i mem hmem
        obtain rfl := Option.some.inj hstep
        cases data with
        | none => exact ⟨h, fun _ => .of_eq rfl rfl⟩
        | some bytes =>
            rw [profAgentSample_eq]
            split
            · rename_i hfit
              refine ⟨h.store hmem hfit.1, fun hkeeps => ⟨[(c.taken.length, bytes)], ?_, rfl⟩⟩
              rw [h.unread_store hmem, if_pos (hkeeps hfit)]
              exact (List.append_assoc ..).symm
            · exact ⟨h, fun _ => .of_eq rfl rfl⟩
      · cases hstep
  | read bufLen sends =>
      obtain rfl := Option.some.inj hstep
      obtain ⟨hinv, -, htaken, sent, hdelivered, hunread, -⟩ := profAgentRead_spec h bufLen sends
      refine ⟨hinv, fun _ => .of_eq ?_ htaken⟩
      rw [hdelivered, hunread, List.append_assoc]
  | stopping =>
      simp only [periStep, Option.ite_none_left_eq_some, Option.some.injEq] at hstep
      obtain ⟨hrun, rfl⟩ := hstep
      refine ⟨⟨h.head, h.tail, ?_, h.num, h.order, h.whole, h.lens⟩, fun _ => .of_eq rfl rfl⟩
      have hmem := (not_congr h.idle).mp hrun
      simpa using hmem
  | stop =>
      simp only [periStep, Option.ite_none_left_eq_some, Option.some.injEq] at hstep
      obtain ⟨-, rfl⟩ := hstep
      refine ⟨h.stop, fun hkeeps => .of_eq ?_ rfl⟩
      have hnil : c.unread = [] := hkeeps
      rw [hnil]
      rfl

theorem PeriInv.of_reach (h : periMachine.Reach c) : PeriInv c := by
  refine h.invariant ?_ ?_
  · rintro c rfl
    refine ⟨by decide, by decide, by simp [newChannel], by simp [newChannel], ?_, ?_, ?_⟩ <;>
      simp [newChannel, PeriChannel.unread]
  · exact fun c op t hc _ hstep => (hc.step hstep).1

/-! ## The length of what is unread -/

theorem NoStale.store (h : NoStale c) (hinv : PeriInv c) (hmem : c.virAddr = some mem)
    (hroom : c.used + 1 < PROF_PERIPHERAL_CACHE_NUM) : NoStale (c.store mem bytes) := by
  have hused : (c.store mem bytes).used = _ := hinv.used_store
  rw [if_pos hroom] at hused
  intro slot hslot hout
  rw [hused] at hout
  have hhead : slot ≠ c.buffHead.head := by
    have hlast := hout c.used (by omega)
    intro heq
    exact hlast ((Ring.pos_count hinv.tail hinv.head).trans heq.symm)
  rw [(sampleAt_store_ne hmem hhead).2]
  exact h slot hslot fun i hi => hout i (by omega)

theorem NoStale.read (h : NoStale c) (hinv : PeriInv c) (bufLen sends : ℕ) :
    NoStale (profAgentRead c bufLen sends).2 := by
  unfold profAgentRead
  by_cases hidle : c.channelState = .idle
  · rwa [if_pos hidle]
  by_cases hempty : c.buffHead.head = c.buffHead.tail
  · rwa [if_neg hidle, if_pos hempty]
  have hmem : c.virAddr ≠ none := fun hnone => hidle (hinv.idle.mpr hnone)
  rw [if_neg hidle, if_neg hempty]
  exact (readLoop_readOff PROF_PERIPHERAL_CACHE_NUM bufLen sends hinv hmem).noStale h

/-- Without lengths that were left behind, the sum of all lengths is that of the
unread samples. -/
theorem NoStale.getDataLen (h : NoStale c) (hinv : PeriInv c) (hmem : c.virAddr ≠ none) :
    profAgentGetDataLen c.buffHead = totalLen c.unread := by
  unfold profAgentGetDataLen
  split
  · rename_i hempty
    rw [unread_of_used ((Ring.count_eq_zero_iff hinv.tail hinv.head).mpr hempty)]
    rfl
  · have hlt : c.used < PROF_PERIPHERAL_CACHE_NUM := Ring.count_lt (by decide)
    have hunread : Ring.content c.buffHead.dataLen PROF_PERIPHERAL_CACHE_NUM c.buffHead.tail
        c.used = c.unread.map fun x => x.2.length := by
      rw [unread_of_some hmem, Ring.content, Ring.content, List.map_map]
      apply List.map_congr_left
      intro i hi
      exact (hinv.lens hmem i (List.mem_range.mp hi)).2.symm
    have hrest : (Ring.content c.buffHead.dataLen PROF_PERIPHERAL_CACHE_NUM
        (Ring.pos PROF_PERIPHERAL_CACHE_NUM c.buffHead.tail c.used)
        (PROF_PERIPHERAL_CACHE_NUM - c.used)).sum = 0 := by
      apply List.sum_eq_zero_iff_forall_eq_nat.mpr
      intro len hlen
      obtain ⟨i, hi, rfl⟩ := List.mem_map.mp hlen
      have hi := List.mem_range.mp hi
      refine h _ (Ring.pos_lt (by decide)) ?_
      intro j hj heq
      rw [Ring.pos_pos] at heq
      have := (Ring.pos_eq_iff hinv.tail (by omega) (by omega)).mp heq
      omega
    have hperm := Ring.content_perm c.buffHead.dataLen hinv.tail
    have hslice : (List.range c.buffHead.buffNum).map c.buffHead.dataLen =
        Ring.slice c.buffHead.dataLen 0 PROF_PERIPHERAL_CACHE_NUM := by
      simp [Ring.slice, hinv.num hmem]
    calc ((List.range c.buffHead.buffNum).map c.buffHead.dataLen).sum
        = (Ring.content c.buffHead.dataLen PROF_PERIPHERAL_CACHE_NUM c.buffHead.tail
            (c.used + (PROF_PERIPHERAL_CACHE_NUM - c.used))).sum := by
          rw [hslice, Nat.add_sub_cancel' (Nat.le_of_lt hlt), hperm.sum_nat]
      _ = totalLen c.unread := by
          rw [Ring.content_add, List.sum_append, hrest, hunread, Nat.add_zero]
          rfl

/-- In a run that keeps all samples no length is left behind, and an idle channel
has no unread sample. -/
structure Kept (c : PeriChannel) : Prop where
  inv : PeriInv c
  noStale : NoStale c
  idle : c.channelState = .idle → c.used = 0

theorem Kept.step (h : Kept c) {op : PeriOp} (hkeeps : Keeps c op) {t : PeriChannel}
    (hstep : periStep c op = some t) : Kept t := by
  have hinv := (h.inv.step hstep).1
  cases op with
  | start =>
      simp only [periStep, Option.ite_none_right_eq_some, Option.some.injEq] at hstep
      obtain ⟨hidle, rfl⟩ := hstep
      refine ⟨hinv, fun slot hslot _ => h.noStale slot hslot ?_, by simp [profInitSubChannelInfo]⟩
      intro i hi
      rw [h.idle hidle] at hi
      cases hi
  | sample data =>
      simp only [periStep] at hstep
      split at hstep
      · rename_i mem hmem
        obtain rfl := Option.some.inj hstep
        cases data with
        | none => exact h
        | some bytes =>
            rw [profAgentSample_eq] at hinv ⊢
            split
            · rename_i hfit
              have hroom := hkeeps hfit
              rw [length_unread (by simp [hmem])] at hroom
              rw [if_pos hfit] at hinv
              refine ⟨hinv, h.noStale.store h.inv hmem hroom, fun hidle => ?_⟩
              exact absurd (h.inv.idle.mp hidle) (by simp [hmem])
            · exact h
      · cases hstep
  | read bufLen sends =>
      obtain rfl := Option.some.inj hstep
      refine ⟨hinv, h.noStale.read h.inv bufLen sends, fun hidle => ?_⟩
      have hmem := (profAgentRead_spec h.inv bufLen sends).2.1
      have hidle : c.channelState = .idle := h.inv.idle.mpr (hmem ▸ hinv.idle.mp hidle)
      rw [profAgentRead, if_pos hidle]
      exact h.idle hidle
  | stopping =>
      simp only [periStep, Option.ite_none_left_eq_some, Option.some.injEq] at hstep
      obtain ⟨hrun, rfl⟩ := hstep
      exact ⟨hinv, h.noStale, by simp⟩
  | stop =>
      simp only [periStep, Option.ite_none_left_eq_some, Option.some.injEq] at hstep
      obtain ⟨hrun, rfl⟩ := hstep
      have hmem := (not_congr h.inv.idle).mp hrun
      have hnil : c.unread = [] := hkeeps
      refine ⟨hinv, h.noStale, fun _ => ?_⟩
      change c.used = 0
      rw [← length_unread hmem, hnil, List.length_nil]

theorem Kept.of_reach (h : periMachine.ReachIf Keeps c) : Kept c := by
  refine h.invariant ?_ ?_
  · rintro c rfl
    exact ⟨.of_reach (.start rfl), fun _ _ _ => rfl, fun _ => by decide⟩
  · exact fun c op t hc hkeeps hstep => hc.step hkeeps hstep

/-- In every run the samples that are delivered are whole, in the order in which
they were taken and none twice; a step that does not fill the ring or stop before
everything is read loses none; and a read delivers what fits into its buffer.  As
long as none is lost the sum of the lengths is that of the unread samples. -/
theorem sample_ring :
    (∀ c, periMachine.Reach c →
      (c.delivered.map Prod.fst).Pairwise (· < ·) ∧
      (∀ x ∈ c.delivered, c.taken[x.1]? = some x.2) ∧
      (∀ op t, Keeps c op → periStep c op = some t → Gains c t) ∧
      ∀ bufLen sends,
        let result := profAgentRead c bufLen sends
        ∃ sent, result.2.delivered = c.delivered ++ sent ∧ c.unread = sent ++ result.2.unread ∧
          totalLen sent = result.1.size ∧ totalLen sent ≤ bufLen) ∧
    ∀ c, periMachine.ReachIf Keeps c → profAgentGetDataLen c.buffHead = totalLen c.unread := by
  refine ⟨fun c h => ?_, fun c h => ?_⟩
  · have hinv := PeriInv.of_reach h
    refine ⟨?_, ?_, fun op t hkeeps hstep => (hinv.step hstep).2 hkeeps, ?_⟩
    · exact hinv.order.sublist ((List.sublist_append_left _ _).map _)
    · exact fun x hx => hinv.whole x (List.mem_append_left _ hx)
    · intro bufLen sends
      obtain ⟨-, -, -, hread⟩ := profAgentRead_spec hinv bufLen sends
      exact hread
  · have hkept := Kept.of_reach h
    by_cases hmem : c.virAddr = none
    · have hused := hkept.idle (hkept.inv.idle.mpr hmem)
      rw [unread_of_used hused, profAgentGetDataLen, if_pos]
      · rfl
      · exact (Ring.count_eq_zero_iff hkept.inv.tail hkept.inv.head).mp hused
    · exact hkept.noStale.getDataLen hkept.inv hmem

/-- A sample is read, and another one is taken. -/
def sampledTwice : PeriChannel :=
  periMachine.final newChannel
    [.start, .sample (some [1, 2]), .read 10 1, .sample (some [3])]

theorem sample_ring_second :
    sampledTwice.delivered = [(0, [1, 2])] ∧
      (∀ x ∈ sampledTwice.delivered, sampledTwice.taken[x.1]? = some x.2) ∧
      profAgentGetDataLen sampledTwice.buffHead = totalLen sampledTwice.unread := by
  refine ⟨by decide +kernel, ?_, ?_⟩
  · exact (sample_ring.1 _ (.final (.start rfl) (by decide +kernel))).2.1
  · exact sample_ring.2 _ (.final (.start rfl) (by decide +kernel) (by decide +kernel))

/-- A stop that does not wait for the reader loses two samples; the length of the
second is counted after the next start. -/
theorem sample_lost_by_stop :
    let stopped := periMachine.final newChannel
      [.start, .sample (some [1, 2, 3]), .sample (some [9, 9]), .stopping, .stop]
    let restarted := periMachine.final stopped [.start, .sample (some [4])]
    periMachine.Reach stopped ∧ stopped.taken = [[1, 2, 3], [9, 9]] ∧ stopped.delivered = [] ∧
      stopped.unread = [] ∧
      periMachine.Reach restarted ∧ restarted.unread = [(2, [4])] ∧
      profAgentGetDataLen restarted.buffHead = 3 := by
  refine ⟨.final (.start rfl) (by decide +kernel), by decide +kernel, by decide +kernel,
    by decide +kernel, ?_, by decide +kernel, by decide +kernel⟩
  exact .final (.final (.start rfl) (by decide +kernel)) (by decide +kernel)

end OpiaiKernel.Prof
