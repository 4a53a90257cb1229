import OpiaiKernel.Esched.Group
import OpiaiKernel.Lib.Ring
import OpiaiKernel.Lib.Word

/-!
# The event trace of a node

The scheduled events of a node are recorded in an array, at the remainder of a
counter by the size of the array.  The counter is a signed word, and its
remainder is negative once it has wrapped.

A dump copies the array from behind the last record on, in at most two pieces.
It turns the recording off first, and a buffer that the first piece fills leaves
it off.
-/

namespace OpiaiKernel.Esched

abbrev SCHED_EVENT_TRACE_MAX_NUM : ℕ := 2048

/-- The size of `struct sched_abnormal_event_item`. -/
abbrev eventItemSize : ℕ := 136

/-- The bytes of a `struct sched_abnormal_event_item`. -/
abbrev EventItem := ℕ → UInt8

/-- An `int32_t`. -/
def int32 (x : ℤ) : ℤ := (x + 2 ^ 31) % 2 ^ 32 - 2 ^ 31

/-- `struct sched_node_event_trace`; the array is a function of the index. -/
structure EventTrace where
  curIndex : ℤ
  enableFlag : Bool
  eventInfo : ℤ → EventItem

namespace EventTrace

/-- The index of the next record. -/
def nextId (trace : EventTrace) : ℤ :=
  (int32 (trace.curIndex + 1)).tmod SCHED_EVENT_TRACE_MAX_NUM

/-- `sched_record_event_trace` -/
def record (trace : EventTrace) (item : EventItem) : EventTrace :=
  if trace.enableFlag then
    { trace with
      curIndex := int32 (trace.curIndex + 1)
      eventInfo := Function.update trace.eventInfo trace.nextId item }
  else trace

/-- The result of a dump: what it returns, what it copied as first byte of the
array and length, `data_len`, and the trace. -/
structure Dump where
  ret : Except DrvError Unit
  copies : List (ℤ × ℕ)
  dataLen : ℕ
  trace : EventTrace

/-- The arguments of a copy of at least one byte. -/
def copyOf (addr : ℤ) (copyLen : ℕ) : List (ℤ × ℕ) :=
  if copyLen ≠ 0 then [(addr, copyLen)] else []

/-- `sched_get_event_trace`, with the results of its copies to the user. -/
def getEventTrace (trace : EventTrace) (buffLen : ℕ) (copied₁ copied₂ : Bool) : Dump :=
  let id := trace.curIndex.tmod SCHED_EVENT_TRACE_MAX_NUM
  let disabled := { trace with enableFlag := false }
  let copyLen := Word.sub 32 (Word.sub 32 SCHED_EVENT_TRACE_MAX_NUM (id % 2 ^ 32).toNat) 1 *
    eventItemSize % 2 ^ 32
  let copyLen := if copyLen > buffLen then buffLen else copyLen
  let first := copyOf ((id + 1) * eventItemSize) copyLen
  if copyLen ≠ 0 ∧ copied₁ = false then ⟨.error .paraError, first, 0, disabled⟩
  else
    let buffLen := buffLen - copyLen
    if buffLen = 0 then ⟨.ok (), first, copyLen, disabled⟩
    else
      let copyLen₂ := Word.sub 32 (SCHED_EVENT_TRACE_MAX_NUM * eventItemSize) copyLen
      let copyLen₂ := if copyLen₂ > buffLen then buffLen else copyLen₂
      let second := copyOf 0 copyLen₂
      if copyLen₂ ≠ 0 ∧ copied₂ = false then
        ⟨.error .paraError, first ++ second, copyLen, disabled⟩
      else
        ⟨.ok (), first ++ second, copyLen + copyLen₂, { disabled with enableFlag := true }⟩

/-- The byte of the array at an address. -/
def byteAt (eventInfo : ℤ → EventItem) (addr : ℤ) : UInt8 :=
  eventInfo (addr / eventItemSize) (addr % eventItemSize).toNat

/-- The bytes of a copy. -/
def bytesAt (eventInfo : ℤ → EventItem) (copy : ℤ × ℕ) : List UInt8 :=
  (List.range copy.2).map fun i : ℕ => byteAt eventInfo (copy.1 + i)

/-- The trace of a new node, with a cleared array. -/
def new : EventTrace := ⟨0, true, fun _ _ => 0⟩

/-- The trace after the events of a log. -/
def after (log : List EventItem) : EventTrace := log.foldl record new

/-- The bytes of the items of a list. -/
def bytes (items : List EventItem) : List UInt8 :=
  items.flatMap fun item => (List.range eventItemSize).map item

/-- The last items of a log, after as many cleared ones as there is room for. -/
def oldestFirst (log : List EventItem) : List EventItem :=
  (List.replicate SCHED_EVENT_TRACE_MAX_NUM (fun _ => 0) ++ log).drop log.length

/-- Every record of the log lies inside the array, and a dump with a buffer of
`buffLen` bytes reads inside the array, fills the buffer with the items from the
oldest on and leaves the recording on. -/
structure TraceOk (log : List EventItem) (buffLen : ℕ) : Prop where
  written : ∀ k < log.length,
    0 ≤ (after (log.take k)).nextId ∧ (after (log.take k)).nextId < SCHED_EVENT_TRACE_MAX_NUM
  inside : ∀ copied₁ copied₂, ∀ c ∈ ((after log).getEventTrace buffLen copied₁ copied₂).copies,
    0 ≤ c.1 ∧ c.1 + c.2 ≤ SCHED_EVENT_TRACE_MAX_NUM * eventItemSize
  bounded : ∀ copied₁ copied₂,
    (((after log).getEventTrace buffLen copied₁ copied₂).copies.map Prod.snd).sum ≤ buffLen
  data : ∀ copied₁ copied₂, ((after log).getEventTrace buffLen copied₁ copied₂).ret = .ok () →
    ((after log).getEventTrace buffLen copied₁ copied₂).copies.flatMap
        (bytesAt (after log).eventInfo) =
      (bytes (oldestFirst log)).take buffLen ∧
    ((after log).getEventTrace buffLen copied₁ copied₂).dataLen =
      ((bytes (oldestFirst log)).take buffLen).length
  enabled : ∀ copied₁ copied₂, ((after log).getEventTrace buffLen copied₁ copied₂).ret = .ok () →
    ((after log).getEventTrace buffLen copied₁ copied₂).trace.enableFlag = true

/-! ## Records -/

theorem int32_int32_add (x y : ℤ) : int32 (int32 x + y) = int32 (x + y) := by
  unfold int32
  omega

theorem int32_tmod {n : ℕ} (hn : n ≤ 2 ^ 31) :
    (int32 n).tmod SCHED_EVENT_TRACE_MAX_NUM = (n % SCHED_EVENT_TRACE_MAX_NUM : ℕ) := by
  rcases Nat.lt_or_ge n (2 ^ 31) with hlt | hge
  · have hpos : int32 n = n := by
      unfold int32
      omega
    rw [hpos, Int.natCast_mod]
    exact Int.tmod_eq_emod_of_nonneg (Int.natCast_nonneg n)
  · obtain rfl : n = 2 ^ 31 := by omega
    decide

theorem after_append (log : List EventItem) (item : EventItem) :
    after (log ++ [item]) = (after log).record item := by
  rw [after, List.foldl_append]
  rfl

theorem after_enableFlag (log : List EventItem) : (after log).enableFlag = true := by
  induction log using List.reverseRecOn with
  | nil => rfl
  | append_singleton log item ih =>
      rw [after_append, record, if_pos ih]
      exact ih

theorem after_curIndex (log : List EventItem) : (after log).curIndex = int32 log.length := by
  induction log using List.reverseRecOn with
  | nil => rfl
  | append_singleton log item ih =>
      rw [after_append, record, if_pos (after_enableFlag log), List.length_append]
      simp only [ih, List.length_singleton, Nat.cast_add, Nat.cast_one, int32_int32_add]

theorem after_nextId (log : List EventItem) :
    (after log).nextId = (int32 (log.length + 1 : ℕ)).tmod SCHED_EVENT_TRACE_MAX_NUM := by
  rw [nextId, after_curIndex, int32_int32_add, Nat.cast_add, Nat.cast_one]

/-- The record behind the wrap of the counter lies in front of the array. -/
theorem after_nextId_wrapped {log : List EventItem} (hlen : log.length = 2 ^ 31) :
    (after log).nextId = -2047 := by
  rw [after_nextId, hlen]
  decide

/-! ## The array -/

theorem oldestFirst_append (log : List EventItem) (item : EventItem) :
    oldestFirst (log ++ [item]) = (oldestFirst log).tail ++ [item] := by
  have hroom : log.length + 1 ≤
      (List.replicate SCHED_EVENT_TRACE_MAX_NUM (fun _ => 0 : EventItem) ++ log).length := by
    rw [List.length_append, List.length_replicate, SCHED_EVENT_TRACE_MAX_NUM]
    omega
  rw [oldestFirst, oldestFirst, List.tail_drop, List.length_append, List.length_singleton,
    ← List.append_assoc, List.drop_append_of_le_length hroom]

/-- The items of the array, the first one behind the last record. -/
theorem content_after {log : List EventItem} (hlen : log.length ≤ 2 ^ 31) :
    Ring.content (fun p : ℕ => (after log).eventInfo p) SCHED_EVENT_TRACE_MAX_NUM (log.length + 1)
      SCHED_EVENT_TRACE_MAX_NUM = oldestFirst log := by
  induction log using List.reverseRecOn with
  | nil =>
      simp only [after, List.foldl_nil, new, oldestFirst, List.append_nil, List.length_nil,
        List.drop_zero, Ring.content, List.map_const', List.length_range]
  | append_singleton log item ih =>
      rw [List.length_append, List.length_singleton] at hlen ⊢
      have hwritten : (fun p : ℕ => (after (log ++ [item])).eventInfo p) =
          Function.update (fun p : ℕ => (after log).eventInfo p)
            ((log.length + 1) % SCHED_EVENT_TRACE_MAX_NUM) item := by
        funext p
        rw [after_append, record, if_pos (after_enableFlag log), after_nextId, int32_tmod hlen]
        simp only [Function.update_apply, Nat.cast_inj]
      have htail := Ring.content_cons (d := SCHED_EVENT_TRACE_MAX_NUM) (h := log.length + 1)
        (fun p : ℕ => (after log).eventInfo p) 2047
      have hlast : Ring.pos SCHED_EVENT_TRACE_MAX_NUM (log.length + 1 + 1) 2047 =
          (log.length + 1) % SCHED_EVENT_TRACE_MAX_NUM := by
        unfold Ring.pos SCHED_EVENT_TRACE_MAX_NUM
        omega
      have hnew (m : ℕ → EventItem) (p : ℕ) :
          Ring.content (Function.update m (p % SCHED_EVENT_TRACE_MAX_NUM) item)
            SCHED_EVENT_TRACE_MAX_NUM (p % SCHED_EVENT_TRACE_MAX_NUM) 1 = [item] := by
        rw [Ring.content_cons, Ring.content_zero, Nat.mod_mod, Function.update_self]
      rw [hwritten, oldestFirst_append, ← ih (by omega)]
      change Ring.content _ SCHED_EVENT_TRACE_MAX_NUM (log.length + 1 + 1) (2047 + 1) =
        (Ring.content _ SCHED_EVENT_TRACE_MAX_NUM (log.length + 1) (2047 + 1)).tail ++ [item]
      rw [htail, List.tail_cons, Ring.content_add, hlast, hnew,
        Ring.content_update_head _ _ (show 2047 < SCHED_EVENT_TRACE_MAX_NUM by decide)]

/-! ## Copies -/

variable (eventInfo : ℤ → EventItem)

theorem length_bytesAt (copy : ℤ × ℕ) : (bytesAt eventInfo copy).length = copy.2 := by
  rw [bytesAt, List.length_map, List.length_range]

theorem bytesAt_add (addr : ℤ) (m n : ℕ) :
    bytesAt eventInfo (addr, m + n) =
      bytesAt eventInfo (addr, m) ++ bytesAt eventInfo (addr + m, n) := by
  simp only [bytesAt, List.range_add, List.map_append, List.map_map]
  congr 1
  apply List.map_congr_left
  intro i _
  simp only [Function.comp_apply, Nat.cast_add, add_assoc]

theorem take_bytesAt (addr : ℤ) (m n : ℕ) :
    (bytesAt eventInfo (addr, n)).take m = bytesAt eventInfo (addr, min m n) := by
  rw [bytesAt, bytesAt, ← List.map_take, List.take_range]

theorem bytesAt_item (p : ℕ) :
    bytesAt eventInfo ((p * eventItemSize : ℕ), eventItemSize) =
      (List.range eventItemSize).map (eventInfo p) := by
  rw [bytesAt]
  apply List.map_congr_left
  intro i hi
  have hlt := List.mem_range.mp hi
  unfold eventItemSize at *
  have hitem : (((p * 136 : ℕ) : ℤ) + i) / (136 : ℕ) = p := by
    omega
  have hbyte : ((((p * 136 : ℕ) : ℤ) + i) % (136 : ℕ)).toNat = i := by
    omega
  rw [byteAt, hitem, hbyte]

/-- A copy of whole items. -/
theorem bytesAt_items (p k : ℕ) :
    bytesAt eventInfo ((p * eventItemSize : ℕ), k * eventItemSize) =
      bytes (Ring.slice (fun q : ℕ => eventInfo q) p k) := by
  induction k with
  | zero => rw [Nat.zero_mul, Ring.slice_zero]; rfl
  | succ k ih =>
      have haddr : ((p * eventItemSize : ℕ) : ℤ) + (k * eventItemSize : ℕ) =
          ((p + k) * eventItemSize : ℕ) := by
        rw [Nat.add_mul, Nat.cast_add]
      rw [Nat.succ_mul, bytesAt_add, ih, haddr, bytesAt_item, Ring.slice_add, bytes, bytes,
        List.flatMap_append]
      rfl

theorem flatMap_copyOf (addr : ℤ) (copyLen : ℕ) :
    (copyOf addr copyLen).flatMap (bytesAt eventInfo) = bytesAt eventInfo (addr, copyLen) := by
  unfold copyOf
  split
  · exact List.flatMap_singleton _ _
  next hzero =>
    rw [not_not.mp hzero]
    rfl

theorem mem_copyOf {addr : ℤ} {copyLen : ℕ} {c : ℤ × ℕ} (hc : c ∈ copyOf addr copyLen) :
    c = (addr, copyLen) := by
  unfold copyOf at hc
  split at hc
  · exact List.mem_singleton.mp hc
  · cases hc

theorem sum_copyOf (addr : ℤ) (copyLen : ℕ) :
    ((copyOf addr copyLen).map Prod.snd).sum = copyLen := by
  unfold copyOf
  split
  · exact List.sum_singleton
  next hzero => exact (not_not.mp hzero).symm

/-! ## Dumps -/

variable {trace : EventTrace} {id buffLen : ℕ}

/-- The length of the piece behind the last record. -/
theorem firstLen_eq (hid : id < SCHED_EVENT_TRACE_MAX_NUM) :
    Word.sub 32 (Word.sub 32 SCHED_EVENT_TRACE_MAX_NUM ((id : ℤ) % 2 ^ 32).toNat) 1 *
      eventItemSize % 2 ^ 32 = (SCHED_EVENT_TRACE_MAX_NUM - 1 - id) * eventItemSize := by
  unfold SCHED_EVENT_TRACE_MAX_NUM eventItemSize at *
  have hword : ((id : ℤ) % 2 ^ 32).toNat = id := by omega
  have hsub : Word.sub 32 2048 id = 2048 - id := Word.sub_of_le (by omega) (by omega)
  rw [hword, hsub, Word.sub_of_le (by omega) (by omega)]
  omega

/-- The length of the piece up to the last record. -/
theorem secondLen_eq (hid : id < SCHED_EVENT_TRACE_MAX_NUM) :
    Word.sub 32 (SCHED_EVENT_TRACE_MAX_NUM * eventItemSize)
      ((SCHED_EVENT_TRACE_MAX_NUM - 1 - id) * eventItemSize) = (id + 1) * eventItemSize := by
  unfold SCHED_EVENT_TRACE_MAX_NUM eventItemSize at *
  rw [Word.sub_of_le (by omega) (by omega)]
  omega

/-- A dump that the first piece fills. -/
theorem getEventTrace_of_le (hcur : trace.curIndex.tmod SCHED_EVENT_TRACE_MAX_NUM = id)
    (hid : id < SCHED_EVENT_TRACE_MAX_NUM)
    (hle : buffLen ≤ (SCHED_EVENT_TRACE_MAX_NUM - 1 - id) * eventItemSize) (copied₂ : Bool) :
    trace.getEventTrace buffLen true copied₂ =
      ⟨.ok (), copyOf ((id + 1) * eventItemSize) buffLen, buffLen,
        { trace with enableFlag := false }⟩ := by
  have hmin : (if (SCHED_EVENT_TRACE_MAX_NUM - 1 - id) * eventItemSize > buffLen then buffLen
      else (SCHED_EVENT_TRACE_MAX_NUM - 1 - id) * eventItemSize) = buffLen := by
    split
    · rfl
    · omega
  simp only [getEventTrace, hcur, firstLen_eq hid, hmin, reduceCtorEq, and_false, if_false,
    Nat.sub_self, if_true]

/-- A dump of two pieces. -/
theorem getEventTrace_of_lt (hcur : trace.curIndex.tmod SCHED_EVENT_TRACE_MAX_NUM = id)
    (hid : id < SCHED_EVENT_TRACE_MAX_NUM)
    (hlt : (SCHED_EVENT_TRACE_MAX_NUM - 1 - id) * eventItemSize < buffLen)
    (copied₁ copied₂ : Bool) :
    let len₁ := (SCHED_EVENT_TRACE_MAX_NUM - 1 - id) * eventItemSize
    let len₂ := min ((id + 1) * eventItemSize) (buffLen - len₁)
    let first := copyOf ((id + 1) * eventItemSize) len₁
    trace.getEventTrace buffLen copied₁ copied₂ =
      if len₁ ≠ 0 ∧ copied₁ = false then
        ⟨.error .paraError, first, 0, { trace with enableFlag := false }⟩
      else if copied₂ = false then
        ⟨.error .paraError, first ++ copyOf 0 len₂, len₁, { trace with enableFlag := false }⟩
      else ⟨.ok (), first ++ copyOf 0 len₂, len₁ + len₂, { trace with enableFlag := true }⟩ := by
  intro len₁ len₂ first
  have hmin (a b : ℕ) : (if a > b then b else a) = min a b := by
    split
    · omega
    · omega
  have hpos : len₂ ≠ 0 := by
    have : 0 < (id + 1) * eventItemSize := by
      unfold eventItemSize
      omega
    omega
  simp only [getEventTrace, hcur, firstLen_eq hid, hmin, Nat.min_eq_left (Nat.le_of_lt hlt),
    secondLen_eq hid]
  rw [if_neg (show ¬ (buffLen - len₁ = 0) by omega)]
  simp only [ne_eq, hpos, not_false_eq_true, true_and, len₁, len₂, first]

/-- The pieces are the array from the oldest item on. -/
theorem bytes_oldestFirst {log : List EventItem} (hlen : log.length ≤ 2 ^ 31) :
    let id := log.length % SCHED_EVENT_TRACE_MAX_NUM
    bytes (oldestFirst log) =
      bytesAt (after log).eventInfo (((id + 1) * eventItemSize : ℕ),
        (SCHED_EVENT_TRACE_MAX_NUM - 1 - id) * eventItemSize) ++
      bytesAt (after log).eventInfo (0, (id + 1) * eventItemSize) := by
  intro id
  have hid : id < SCHED_EVENT_TRACE_MAX_NUM := Nat.mod_lt _ (by decide)
  have hend : Ring.pos SCHED_EVENT_TRACE_MAX_NUM (id + 1) (SCHED_EVENT_TRACE_MAX_NUM - 1 - id) =
      0 := by
    rw [Ring.pos, show id + 1 + (SCHED_EVENT_TRACE_MAX_NUM - 1 - id) =
      SCHED_EVENT_TRACE_MAX_NUM by omega, Nat.mod_self]
  have hpieces : oldestFirst log =
      Ring.slice (fun p : ℕ => (after log).eventInfo p) (id + 1)
          (SCHED_EVENT_TRACE_MAX_NUM - 1 - id) ++
        Ring.slice (fun p : ℕ => (after log).eventInfo p) 0 (id + 1) := by
    calc
      oldestFirst log = Ring.content (fun p : ℕ => (after log).eventInfo p)
          SCHED_EVENT_TRACE_MAX_NUM (id + 1) SCHED_EVENT_TRACE_MAX_NUM := by
        rw [← content_after hlen]
        exact Ring.content_mod _ (Nat.mod_add_mod _ _ _).symm _
      _ = Ring.content (fun p : ℕ => (after log).eventInfo p) SCHED_EVENT_TRACE_MAX_NUM (id + 1)
          (SCHED_EVENT_TRACE_MAX_NUM - 1 - id + (id + 1)) := by
        congr 1
        omega
      _ = _ := by
        rw [Ring.content_add, hend, Ring.content_eq_slice _ (by omega),
          Ring.content_eq_slice _ (by omega)]
  have hzero := bytesAt_items (after log).eventInfo 0 (id + 1)
  rw [Nat.zero_mul] at hzero
  rw [hpieces, bytes, List.flatMap_append, bytesAt_items]
  exact congrArg _ hzero.symm

theorem length_bytes_oldestFirst {log : List EventItem} (hlen : log.length ≤ 2 ^ 31) :
    (bytes (oldestFirst log)).length = SCHED_EVENT_TRACE_MAX_NUM * eventItemSize := by
  have hid := Nat.mod_lt log.length (show 0 < SCHED_EVENT_TRACE_MAX_NUM by decide)
  rw [bytes_oldestFirst hlen, List.length_append, length_bytesAt, length_bytesAt, ← Nat.add_mul]
  congr 1
  omega

theorem after_tmod {log : List EventItem} (hlen : log.length ≤ 2 ^ 31) :
    (after log).curIndex.tmod SCHED_EVENT_TRACE_MAX_NUM =
      (log.length % SCHED_EVENT_TRACE_MAX_NUM : ℕ) := by
  rw [after_curIndex, int32_tmod hlen]

/-- A dump with a large enough buffer reads inside the array. -/
theorem getEventTrace_inside (hcur : trace.curIndex.tmod SCHED_EVENT_TRACE_MAX_NUM = id)
    (hid : id < SCHED_EVENT_TRACE_MAX_NUM)
    (hlt : (SCHED_EVENT_TRACE_MAX_NUM - 1 - id) * eventItemSize < buffLen) (copied₁ copied₂ : Bool)
    {c : ℤ × ℕ} (hc : c ∈ (trace.getEventTrace buffLen copied₁ copied₂).copies) :
    0 ≤ c.1 ∧ c.1 + c.2 ≤ SCHED_EVENT_TRACE_MAX_NUM * eventItemSize := by
  have hcopy : c = (((id : ℤ) + 1) * eventItemSize,
        (SCHED_EVENT_TRACE_MAX_NUM - 1 - id) * eventItemSize) ∨
      c = (0, min ((id + 1) * eventItemSize)
        (buffLen - (SCHED_EVENT_TRACE_MAX_NUM - 1 - id) * eventItemSize)) := by
    rw [getEventTrace_of_lt hcur hid hlt] at hc
    split_ifs at hc
    · exact .inl (mem_copyOf hc)
    all_goals
      rcases List.mem_append.mp hc with hfirst | hsecond
      · exact .inl (mem_copyOf hfirst)
      · exact .inr (mem_copyOf hsecond)
  unfold SCHED_EVENT_TRACE_MAX_NUM eventItemSize at *
  rcases hcopy with rfl | rfl
  · dsimp only
    omega
  · dsimp only
    omega

/-- A dump with a large enough buffer copies no more than the buffer. -/
theorem getEventTrace_bounded (hcur : trace.curIndex.tmod SCHED_EVENT_TRACE_MAX_NUM = id)
    (hid : id < SCHED_EVENT_TRACE_MAX_NUM)
    (hlt : (SCHED_EVENT_TRACE_MAX_NUM - 1 - id) * eventItemSize < buffLen)
    (copied₁ copied₂ : Bool) :
    ((trace.getEventTrace buffLen copied₁ copied₂).copies.map Prod.snd).sum ≤ buffLen := by
  rw [getEventTrace_of_lt hcur hid hlt]
  split_ifs
  · rw [sum_copyOf]
    omega
  all_goals
    rw [List.map_append, List.sum_append, sum_copyOf, sum_copyOf]
    omega

/-- A complete dump is the beginning of the array from the oldest item on. -/
theorem getEventTrace_data {log : List EventItem} (hlen : log.length ≤ 2 ^ 31)
    (hlt : (SCHED_EVENT_TRACE_MAX_NUM - 1 - log.length % SCHED_EVENT_TRACE_MAX_NUM) *
      eventItemSize < buffLen) {copied₁ copied₂ : Bool}
    (hret : ((after log).getEventTrace buffLen copied₁ copied₂).ret = .ok ()) :
    ((after log).getEventTrace buffLen copied₁ copied₂).copies.flatMap
        (bytesAt (after log).eventInfo) = (bytes (oldestFirst log)).take buffLen ∧
      ((after log).getEventTrace buffLen copied₁ copied₂).dataLen =
        ((bytes (oldestFirst log)).take buffLen).length ∧
      ((after log).getEventTrace buffLen copied₁ copied₂).trace.enableFlag = true := by
  have hid := Nat.mod_lt log.length (show 0 < SCHED_EVENT_TRACE_MAX_NUM by decide)
  rw [getEventTrace_of_lt (after_tmod hlen) hid hlt] at hret ⊢
  split_ifs at hret ⊢
  refine ⟨?_, ?_, rfl⟩
  · rw [List.flatMap_append, flatMap_copyOf, flatMap_copyOf, bytes_oldestFirst hlen,
      List.take_append, List.take_of_length_le, length_bytesAt, take_bytesAt, Nat.min_comm]
    · push_cast
      rfl
    · rw [length_bytesAt]
      exact Nat.le_of_lt hlt
  · rw [List.length_take, length_bytes_oldestFirst hlen]
    dsimp only
    unfold SCHED_EVENT_TRACE_MAX_NUM eventItemSize at *
    omega

/-- Nothing is recorded behind a dump that its first piece fills. -/
theorem foldl_record_of_small_dump (hcur : trace.curIndex.tmod SCHED_EVENT_TRACE_MAX_NUM = id)
    (hid : id < SCHED_EVENT_TRACE_MAX_NUM)
    (hle : buffLen ≤ (SCHED_EVENT_TRACE_MAX_NUM - 1 - id) * eventItemSize) (copied₂ : Bool)
    (items : List EventItem) :
    items.foldl record (trace.getEventTrace buffLen true copied₂).trace =
      { trace with enableFlag := false } := by
  rw [getEventTrace_of_le hcur hid hle]
  induction items with
  | nil => rfl
  | cons item items ih =>
      rw [List.foldl_cons, record, if_neg Bool.false_ne_true]
      exact ih

/-- The recording stays inside the array for the first `2 ^ 31` records, and a dump
is complete and leaves the recording on when the buffer is larger than the piece
behind the last record. -/
theorem traceOk_iff (log : List EventItem) (buffLen : ℕ) :
    TraceOk log buffLen ↔ log.length ≤ 2 ^ 31 ∧
      (SCHED_EVENT_TRACE_MAX_NUM - 1 - log.length % SCHED_EVENT_TRACE_MAX_NUM) * eventItemSize <
        buffLen := by
  have hid := Nat.mod_lt log.length (show 0 < SCHED_EVENT_TRACE_MAX_NUM by decide)
  constructor
  · intro hok
    have hlen : log.length ≤ 2 ^ 31 := by
      by_contra hlong
      have htake : (log.take (2 ^ 31)).length = 2 ^ 31 := by
        rw [List.length_take]
        omega
      have hwrap := after_nextId_wrapped htake
      have hpos := (hok.written (2 ^ 31) (by omega)).1
      omega
    refine ⟨hlen, ?_⟩
    by_contra hsmall
    have hdump := getEventTrace_of_le (after_tmod hlen) hid (Nat.le_of_not_lt hsmall) true
    have hon := hok.enabled true true
    rw [hdump] at hon
    exact Bool.noConfusion (hon rfl)
  · rintro ⟨hlen, hlt⟩
    have hcur := after_tmod hlen
    refine ⟨?_, fun copied₁ copied₂ c => getEventTrace_inside hcur hid hlt copied₁ copied₂,
      getEventTrace_bounded hcur hid hlt, ?_, ?_⟩
    · intro k hk
      rw [after_nextId, List.length_take, Nat.min_eq_left (Nat.le_of_lt hk),
        int32_tmod (by omega)]
      have hslot := Nat.mod_lt (k + 1) (show 0 < SCHED_EVENT_TRACE_MAX_NUM by decide)
      exact ⟨Int.natCast_nonneg _, by exact_mod_cast hslot⟩
    · intro copied₁ copied₂ hret
      obtain ⟨hbytes, hdataLen, -⟩ := getEventTrace_data hlen hlt hret
      exact ⟨hbytes, hdataLen⟩
    · intro copied₁ copied₂ hret
      exact (getEventTrace_data hlen hlt hret).2.2

/-- A buffer of ten items leaves the recording of a new node off. -/
theorem traceOk_ten_items : ¬ TraceOk [] (10 * eventItemSize) := by
  intro hok
  have hret : ((after []).getEventTrace (10 * eventItemSize) true true).ret = .ok () := by
    decide
  have hoff : ((after []).getEventTrace (10 * eventItemSize) true true).trace.enableFlag =
      false := by
    decide
  exact Bool.noConfusion (hoff.symm.trans (hok.enabled true true hret))

end EventTrace

end OpiaiKernel.Esched
