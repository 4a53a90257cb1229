import Mathlib.Tactic.Ring
import OpiaiKernel.Trs.LogicCqReceive

/-!
# The bytes of the logic completion queue

The slots of a queue lie `cqe_size` bytes apart, a size that the allocation
takes from its caller.  `trs_logic_cq_move_cqes` finds the last slot of a block
with that size and from there walks pointers to the CQE structure of the
queue's version.  Closing a hole keeps the entries when both sizes agree.

The memory of a queue is a function from addresses relative to the queue's, and
an entry is what can be read from its address on.
-/

namespace OpiaiKernel.Trs

/-- `cqe_verion` -/
inductive CqeVersion
  | v1
  | v2
  deriving DecidableEq

/-- The size of the version's CQE structure. -/
def CqeVersion.sizeOf : CqeVersion → ℕ
  | .v1 => 16
  | .v2 => 32

/-- An entry as the bytes from its address on. -/
structure CqeBytes (v : CqeVersion) where
  byte : ℕ → UInt8

/-- The `u16` at an offset. -/
def CqeBytes.u16 {v : CqeVersion} (c : CqeBytes v) (i : ℕ) : ℕ :=
  (c.byte i).toNat + 256 * (c.byte (i + 1)).toNat

/-- The offsets of the fields that the queue reads; the flag of the second
version is the lowest bit of its word. -/
instance (v : CqeVersion) : LogicCqe (CqeBytes v) where
  matchFlag c :=
    match v with
    | .v1 => (c.byte 7).toNat
    | .v2 => c.u16 14 % 2
  streamId c :=
    match v with
    | .v1 => c.u16 2
    | .v2 => c.u16 0
  taskId c :=
    match v with
    | .v1 => c.u16 4
    | .v2 => c.u16 2

structure ByteCq where
  valid : Bool
  version : CqeVersion
  head : ℕ
  tail : ℕ
  cqDepth : ℕ
  cqeSize : ℕ
  mem : ℤ → UInt8

/-- `trs_logic_cq_alloc_para_check` -/
def logicCqAllocParaCheck (cqeDepth cqeSize : ℕ) : Except Errno Unit :=
  if cqeDepth > 64 * 1024 ∨ cqeDepth = 0 ∨ cqeSize > CqeVersion.v2.sizeOf ∨ cqeSize = 0 then
    .error .EINVAL
  else .ok ()

/-- The assignment of a structure of `size` bytes. -/
def copyStruct (size : ℕ) (mem : ℤ → UInt8) (src dst : ℤ) : ℤ → UInt8 := fun p =>
  if dst ≤ p ∧ p < dst + size then mem (p - dst + src) else mem p

/-- The loop of `trs_logic_cq_move_cqes` from the pointers `reportS` and `reportD` on. -/
def copyBack (size : ℕ) (mem : ℤ → UInt8) (reportS reportD : ℤ) : ℕ → ℤ → UInt8
  | 0 => mem
  | num + 1 =>
      copyBack size (copyStruct size mem reportS reportD) (reportS - size) (reportD - size) num

namespace ByteCq

/-- The queue with its memory read as entries. -/
def entries (q : ByteCq) : LogicCq (CqeBytes q.version) where
  valid := q.valid
  head := q.head
  tail := q.tail
  cqDepth := q.cqDepth
  addr pos := ⟨fun i => q.mem ((pos * q.cqeSize : ℕ) + i)⟩

/-- `trs_logic_cq_move_cqes` -/
def moveCqes (q : ByteCq) (m : LogicCq.Move) : ByteCq :=
  let srcLast := Word.sub 32 (Word.add 32 m.srcPos m.num) 1
  let dstLast := Word.sub 32 (Word.add 32 m.dstPos m.num) 1
  { q with
    mem := copyBack q.version.sizeOf q.mem (srcLast * q.cqeSize : ℕ)
      (dstLast * q.cqeSize : ℕ) m.num }

def moveAll (q : ByteCq) (moves : List LogicCq.Move) : ByteCq := moves.foldl moveCqes q

/-- `trs_logic_cq_copy_report` of a version 1 receive, with the number of the
entries reported. -/
def copyReport (q : ByteCq) (para : ReportRecvInfo) (uncopied : ℕ) :
    Except RecvErr ℕ × ByteCq :=
  if q.valid = false then (.error (.errno .EFAULT), q)
  else if q.tail = q.head then (.error (.errno .EAGAIN), q)
  else
    let (start, reportCnt, rollback) := q.entries.matchRange para q.tail
    if reportCnt = 0 then (.error (.errno .EAGAIN), q)
    else if uncopied ≠ 0 then (.error (.uncopied uncopied), q)
    else
      (.ok reportCnt, { q.moveAll (q.entries.reportMoves start reportCnt rollback) with
        head := Word.add 32 q.head reportCnt % q.cqDepth })

/-- The address of entry `i` behind the head. -/
def slot (q : ByteCq) (i : ℕ) : ℕ := Ring.pos q.cqDepth q.head i * q.cqeSize

/-- Every slot of `q'` holds the bytes of the entry that the old queue holds
there without the `cnt` entries behind the first `off`, and the other bytes are
unchanged. -/
structure HoleClosed (q q' : ByteCq) (off cnt : ℕ) : Prop where
  entries : ∀ i < Ring.count q'.cqDepth q'.head q'.tail, ∀ j < q.cqeSize,
    q'.mem (q'.slot i + j : ℕ) = q.mem (q.slot (if i < off then i else i + cnt) + j : ℕ)
  frame : ∀ p : ℤ, (∀ i < off + cnt, p < q.slot i ∨ (q.slot i + q.cqeSize : ℕ) ≤ p) →
    q'.mem p = q.mem p

/-- Every version 1 receive that reports entries keeps the others. -/
def Intact (q : ByteCq) : Prop :=
  ∀ (para : ReportRecvInfo) (uncopied cnt : ℕ) (q' : ByteCq), para.version = 1 →
    0 < para.cqeNum → q.copyReport para uncopied = (.ok cnt, q') →
    q.HoleClosed q' (Ring.count q.cqDepth q.head (q.entries.matchRange para q.tail).1) cnt

end ByteCq

/-! ## Moves of whole slots -/

section slots

variable {size d h k : ℕ} {mem : ℤ → UInt8}

/-- The memory from address 0 on, as slots of `size` bytes. -/
def slots (size : ℕ) (mem : ℤ → UInt8) (p : ℕ) (j : Fin size) : UInt8 :=
  mem (p * size + j : ℕ)

theorem copyStruct_of_lt {src dst p : ℤ} (h : p < dst) : copyStruct size mem src dst p = mem p :=
  if_neg (by omega)

theorem slots_copyStruct (size : ℕ) (mem : ℤ → UInt8) (a b : ℕ) :
    slots size (copyStruct size mem (a * size) (b * size)) =
      Function.update (slots size mem) b (slots size mem a) := by
  funext p j
  have hj := j.isLt
  rcases Nat.lt_trichotomy p b with hlt | rfl | hgt
  · have hle : (p + 1) * size ≤ b * size := Nat.mul_le_mul_right size hlt
    rw [Nat.add_one_mul] at hle
    rw [Function.update_of_ne hlt.ne]
    apply if_neg
    push_cast
    omega
  · rw [Function.update_self]
    refine (if_pos ?_).trans ?_
    · push_cast
      omega
    · rw [slots]
      congr 1
      push_cast
      omega
  · have hle : (b + 1) * size ≤ p * size := Nat.mul_le_mul_right size hgt
    rw [Nat.add_one_mul] at hle
    rw [Function.update_of_ne hgt.ne']
    apply if_neg
    push_cast
    omega

/-- The address of the last slot of a block. -/
theorem last_slot (size a num : ℕ) :
    ((a + (num + 1 : ℕ)) * size - size : ℤ) = (a + num : ℕ) * size := by
  push_cast
  ring

/-- Walking back from the last slot of a block copies its slots. -/
theorem slots_copyBack (size : ℕ) (mem : ℤ → UInt8) (src dst num : ℕ) :
    slots size (copyBack size mem ((src + num) * size - size) ((dst + num) * size - size) num) =
      Ring.blit (slots size mem) src dst num := by
  induction num generalizing mem with
  | zero => rfl
  | succ num ih =>
      rw [copyBack, Ring.blit, last_slot, last_slot, ← slots_copyStruct]
      push_cast
      exact ih _

theorem copyBack_of_neg {p : ℤ} (hp : p < 0) (src dst num : ℕ) :
    copyBack size mem ((src + num) * size - size) ((dst + num) * size - size) num p = mem p := by
  induction num generalizing mem with
  | zero => rfl
  | succ num ih =>
      have hpos : (0 : ℤ) ≤ (dst + num : ℕ) * size := Int.natCast_nonneg ((dst + num) * size)
      rw [copyBack, last_slot, last_slot]
      push_cast at hpos ⊢
      rw [ih]
      exact copyStruct_of_lt (by omega)

end slots

namespace ByteCq

variable {q : ByteCq} {d h k : ℕ} {m : LogicCq.Move} {moves : List LogicCq.Move}

/-- The last slots of a move, from the pointers of the code. -/
theorem moveCqes_eq (q : ByteCq) (hm : m.Within d h k) (hd : d ≤ 65536) :
    q.moveCqes m = { q with
      mem := copyBack q.version.sizeOf q.mem ((m.srcPos + m.num) * q.cqeSize - q.cqeSize)
        ((m.dstPos + m.num) * q.cqeSize - q.cqeSize) m.num } := by
  rw [moveCqes]
  rcases Nat.eq_zero_or_pos m.num with hzero | hpos
  · rw [hzero, copyBack, copyBack]
  · have hsrc := (hm (m.srcPos + m.num - 1) (.inl (by omega))).1
    have hdst := (hm (m.dstPos + m.num - 1) (.inr (by omega))).1
    have hlast : ∀ a : ℕ, a + m.num ≤ 65536 →
        ((Word.sub 32 (Word.add 32 a m.num) 1 * q.cqeSize : ℕ) : ℤ) =
          (a + m.num) * q.cqeSize - q.cqeSize := by
      intro a ha
      obtain ⟨num, hnum⟩ := Nat.exists_eq_succ_of_ne_zero hpos.ne'
      rw [Word.add_of_lt (by omega), Word.sub_of_le (by omega) (by omega), hnum, last_slot]
      push_cast
      rfl
    rw [hlast _ (by omega), hlast _ (by omega)]

theorem moveAll_slots (hsize : q.cqeSize = q.version.sizeOf)
    (hmoves : ∀ m ∈ moves, m.Within d h k) (hd : d ≤ 65536) :
    ∃ mem, q.moveAll moves = { q with mem := mem } ∧ (∀ p < 0, mem p = q.mem p) ∧
      slots q.cqeSize mem = LogicCq.blitAll (slots q.cqeSize q.mem) moves := by
  induction moves generalizing q with
  | nil => exact ⟨q.mem, rfl, fun _ _ => rfl, rfl⟩
  | cons m moves ih =>
      have hhead := moveCqes_eq q (hmoves m List.mem_cons_self) hd
      obtain ⟨mem, hall, hneg, hslots⟩ := ih (q := q.moveCqes m) (by rw [hhead]; exact hsize)
        fun m hm => hmoves m (List.mem_cons_of_mem _ hm)
      refine ⟨mem, ?_, ?_, ?_⟩
      · rw [moveAll, List.foldl_cons]
        exact hall.trans (by rw [hhead])
      · intro p hp
        rw [hneg p hp, hhead, ← hsize]
        exact copyBack_of_neg hp _ _ _
      · have hblit : slots q.cqeSize (q.moveCqes m).mem =
            Ring.blit (slots q.cqeSize q.mem) m.srcPos m.dstPos m.num := by
          rw [hhead, ← hsize, slots_copyBack]
        change slots q.cqeSize mem = LogicCq.blitAll (slots q.cqeSize (q.moveCqes m).mem) moves
          at hslots
        rw [hslots, hblit]
        rfl

end ByteCq

/-- The moves leave the slots behind the first `k` entries. -/
theorem LogicCq.blitAll_of_within {α : Type} {d h k p : ℕ} {moves : List LogicCq.Move}
    (hmoves : ∀ m ∈ moves, m.Within d h k) (addr : ℕ → α) (hp : d ≤ p ∨ k ≤ Ring.count d h p) :
    blitAll addr moves p = addr p := by
  induction moves generalizing addr with
  | nil => rfl
  | cons m moves ih =>
      have hm := hmoves m List.mem_cons_self p
      have hdst : p < m.dstPos ∨ m.dstPos + m.num ≤ p := by
        by_contra hin
        have hlt := hm (.inr (by omega))
        omega
      rw [blitAll, List.foldl_cons]
      exact (ih (fun m hm => hmoves m (List.mem_cons_of_mem _ hm)) _).trans
        (Ring.blit_of_not_mem _ _ _ _ hdst)

namespace ByteCq

variable {q q' : ByteCq} {para : ReportRecvInfo} {uncopied cnt off : ℕ}

/-- The positions are those of a queue that the allocation has accepted. -/
structure Wf (q : ByteCq) : Prop where
  head_lt : q.head < q.cqDepth
  tail_lt : q.tail < q.cqDepth
  depth_le : q.cqDepth ≤ 65536

theorem Wf.entries (h : q.Wf) : q.entries.Wf := ⟨h.head_lt, h.tail_lt, h.depth_le⟩

/-- A receive that succeeds has found a run behind skipped entries. -/
theorem copyReport_ok (hwf : q.Wf) (hnum : 0 < para.cqeNum)
    (h : q.copyReport para uncopied = (.ok cnt, q')) :
    ∃ off rest, Ring.count q.cqDepth q.head q.tail = off + cnt + rest ∧ 0 < cnt ∧
      (q.entries.matchRange para q.tail).1 = Ring.pos q.cqDepth q.head off ∧
      Ring.pos q.cqDepth q.head off + cnt ≤ q.cqDepth ∧
      q' = { q.moveAll (q.entries.reportMoves (Ring.pos q.cqDepth q.head off) cnt
        (decide (q.cqDepth ≤ q.head + off))) with head := Ring.pos q.cqDepth q.head cnt } := by
  have hhead := hwf.head_lt
  have hdepth := hwf.depth_le
  rw [copyReport] at h
  split at h
  · simp at h
  split at h
  · simp at h
  · next hne =>
      rcases LogicCq.matchRange_spec hwf.entries hnum hwf.tail_lt hne with
        ⟨hzero, -⟩ | ⟨pre, run, post, htakes, hrange, hfit⟩
      · simp [hzero] at h
      · have hlen := htakes.length_eq
        rw [LogicCq.contentTo, Ring.length_content] at hlen
        change Ring.count q.cqDepth q.head q.tail = _ at hlen
        have hrun := List.length_pos_of_ne_nil htakes.nonempty
        rw [hrange] at h
        dsimp only at h
        rw [if_neg (by omega)] at h
        split at h
        · simp at h
        · simp only [Prod.mk.injEq, Except.ok.injEq] at h
          obtain ⟨rfl, rfl⟩ := h
          have hfit' : Ring.pos q.cqDepth q.head pre.length + run.length ≤ q.cqDepth := hfit
          refine ⟨pre.length, post.length, by omega, hrun, by rw [hrange]; rfl, hfit', ?_⟩
          rw [Word.add_of_lt (by omega)]
          rfl

/-- Without skipped entries nothing is moved. -/
theorem holeClosed_of_no_moves (q : ByteCq) (cnt : ℕ) :
    q.HoleClosed { q with head := Ring.pos q.cqDepth q.head cnt } 0 cnt := by
  refine ⟨fun i _ j _ => ?_, fun _ _ => rfl⟩
  rw [if_neg (Nat.not_lt_zero i), slot, slot, Ring.pos_pos, Nat.add_comm cnt i]

/-- With the sizes in agreement the hole is closed, whatever lies in the queue. -/
theorem holeClosed_of_size (hwf : q.Wf) (hsize : q.cqeSize = q.version.sizeOf) {rest : ℕ}
    (hlive : Ring.count q.cqDepth q.head q.tail = off + cnt + rest) (hcnt : 0 < cnt)
    (hfit : Ring.pos q.cqDepth q.head off + cnt ≤ q.cqDepth) :
    q.HoleClosed { q.moveAll (q.entries.reportMoves (Ring.pos q.cqDepth q.head off) cnt
      (decide (q.cqDepth ≤ q.head + off))) with head := Ring.pos q.cqDepth q.head cnt }
      off cnt := by
  have hhead := hwf.head_lt
  have hlt := Ring.count_lt (h := q.head) (t := q.tail) (show 0 < q.cqDepth by omega)
  let cq : LogicCq (Fin q.cqeSize → UInt8) :=
    ⟨q.valid, q.head, q.tail, q.cqDepth, slots q.cqeSize q.mem⟩
  have hclose := LogicCq.closes_reportMoves cq hwf.depth_le hhead hcnt
    (show off + cnt < q.cqDepth by omega) hfit
  have hwithin := LogicCq.within_reportMoves cq hwf.depth_le hhead
    (show off + cnt < q.cqDepth by omega) hfit
  obtain ⟨mem, hmove, hneg, hslots⟩ := moveAll_slots hsize hwithin hwf.depth_le
  change q.moveAll (q.entries.reportMoves _ _ _) = _ at hmove
  rw [hmove]
  rw [← hslots] at hclose
  constructor
  · intro i hi j hj
    have hcount : Ring.count q.cqDepth (Ring.pos q.cqDepth q.head cnt) q.tail = off + rest := by
      rw [Ring.count_advance hhead hwf.tail_lt (by omega)]
      omega
    change i < Ring.count q.cqDepth (Ring.pos q.cqDepth q.head cnt) q.tail at hi
    rw [slot, slot, Ring.pos_pos]
    split
    · next hoff => exact congrFun (hclose.skipped i hoff) ⟨j, hj⟩
    · next hoff =>
        rw [Nat.add_comm i cnt]
        have hroom : cnt + i < q.cqDepth := by omega
        exact congrFun (hclose.later (cnt + i) (by omega) hroom) ⟨j, hj⟩
  · intro p hp
    rcases lt_or_ge p 0 with hlt0 | hge0
    · exact hneg p hlt0
    · obtain ⟨n, rfl⟩ := Int.eq_ofNat_of_zero_le hge0
      have hz : 0 < q.cqeSize := by
        rw [hsize]
        cases q.version <;> decide
      have hn := Nat.div_add_mod' n q.cqeSize
      have hmod := Nat.mod_lt n hz
      -- the slot of the byte is none of those removed or shifted
      have hout : q.cqDepth ≤ n / q.cqeSize ∨
          off + cnt ≤ Ring.count q.cqDepth q.head (n / q.cqeSize) := by
        by_contra hin
        push Not at hin
        have hslot := hp _ hin.2
        rw [slot, Ring.pos_count hhead hin.1] at hslot
        omega
      have hkeep := LogicCq.blitAll_of_within hwithin (slots q.cqeSize q.mem) hout
      rw [← hslots] at hkeep
      have hbyte := congrFun hkeep ⟨n % q.cqeSize, hmod⟩
      rw [slots, slots, hn] at hbyte
      exact hbyte

theorem intact_of_size (hwf : q.Wf) (hsize : q.cqeSize = q.version.sizeOf) : q.Intact := by
  intro para uncopied cnt q' _ hnum hcopy
  obtain ⟨off, rest, hlive, hcnt, hstart, hfit, rfl⟩ := copyReport_ok hwf hnum hcopy
  have hhead := hwf.head_lt
  have hlt := Ring.count_lt (h := q.head) (t := q.tail) (show 0 < q.cqDepth by omega)
  rw [hstart, Ring.count_pos hhead (by omega)]
  exact holeClosed_of_size hwf hsize hlive hcnt hfit

/-- A queue of one entry has no hole. -/
theorem intact_of_depth (hwf : q.Wf) (hdepth : q.cqDepth ≤ 2) : q.Intact := by
  intro para uncopied cnt q' _ hnum hcopy
  obtain ⟨off, rest, hlive, hcnt, hstart, hfit, rfl⟩ := copyReport_ok hwf hnum hcopy
  have hhead := hwf.head_lt
  have hlt := Ring.count_lt (h := q.head) (t := q.tail) (show 0 < q.cqDepth by omega)
  obtain rfl : off = 0 := by omega
  have hpos : Ring.pos q.cqDepth q.head 0 = q.head := Ring.pos_of_lt hhead
  have hmoves : q.entries.reportMoves (Ring.pos q.cqDepth q.head 0) cnt
      (decide (q.cqDepth ≤ q.head + 0)) = [] := by
    rw [hpos]
    exact if_neg (not_not.mpr rfl)
  rw [hstart, Ring.count_pos hhead (by omega), hmoves]
  exact holeClosed_of_no_moves q cnt

end ByteCq

/-! ## Sizes that do not agree -/

/-- Where the flag of a match CQE lies. -/
def CqeVersion.flagAt : CqeVersion → ℕ
  | .v1 => 7
  | .v2 => 14

/-- A byte of the first slot that a wrong move loses, or takes too far. -/
def CqeVersion.lostAt (v : CqeVersion) (size : ℕ) : ℕ :=
  if size < v.sizeOf then v.sizeOf - 1 else v.sizeOf

/-- A match CQE and a normal entry behind it, in slots of the given size. -/
def twoEntries (v : CqeVersion) (depth size : ℕ) : ByteCq where
  valid := true
  version := v
  head := 0
  tail := 2
  cqDepth := depth
  cqeSize := size
  mem p := if p = v.flagAt then 1 else if p = v.lostAt size then 2 else 0

section mismatch

variable {v : CqeVersion} {depth size : ℕ}

theorem needMatch_first : isCqeNeedMatch ((twoEntries v depth size).entries.addr 0) := by
  cases v <;>
    simp [isCqeNeedMatch, LogicCqe.matchFlag, CqeBytes.u16, ByteCq.entries, twoEntries,
      CqeVersion.flagAt, Nat.add_mod, Nat.mul_mod]

theorem lostAt_gt (v : CqeVersion) (size : ℕ) : v.flagAt < v.lostAt size := by
  rw [CqeVersion.lostAt]
  split <;> cases v <;> decide

theorem mem_twoEntries (depth : ℕ) {n : ℕ} (hflag : n ≠ v.flagAt) (hlost : n ≠ v.lostAt size) :
    (twoEntries v depth size).mem (n : ℕ) = 0 := by
  rw [twoEntries]
  dsimp only
  rw [if_neg (by exact_mod_cast hflag), if_neg (by exact_mod_cast hlost)]

theorem mem_lostAt (v : CqeVersion) (depth size : ℕ) :
    (twoEntries v depth size).mem (v.lostAt size : ℕ) = 2 := by
  have hlost := lostAt_gt v size
  rw [twoEntries]
  dsimp only
  rw [if_neg (by norm_cast; omega), if_pos rfl]

theorem not_match_first : ¬ isCqeMatch ((twoEntries v depth size).entries.addr 0) 1 0 := by
  have hlost := lostAt_gt v size
  have hbyte : ∀ n ≤ 3, ((twoEntries v depth size).entries.addr 0).byte n = 0 := by
    intro n hn
    have hlt : 3 < v.flagAt := by cases v <;> decide
    exact mem_twoEntries (n := 0 * size + n) depth (by omega) (by omega)
  rintro ⟨hstream, -⟩
  cases v
  · change (CqeBytes.byte _ 2).toNat + 256 * (CqeBytes.byte _ 3).toNat = 1 at hstream
    rw [hbyte 2 (by omega), hbyte 3 (by omega)] at hstream
    simp at hstream
  · change (CqeBytes.byte _ 0).toNat + 256 * (CqeBytes.byte _ 1).toNat = 1 at hstream
    rw [hbyte 0 (by omega), hbyte 1 (by omega)] at hstream
    simp at hstream

theorem not_needMatch_second (hpos : 0 < size) :
    ¬ isCqeNeedMatch ((twoEntries v depth size).entries.addr 1) := by
  have hbyte : (((twoEntries v depth size).entries.addr 1).byte v.flagAt).toNat % 2 = 0 := by
    change ((twoEntries v depth size).mem ((1 * size : ℕ) + v.flagAt)).toNat % 2 = 0
    rw [twoEntries]
    dsimp only
    rw [if_neg (by push_cast; omega)]
    split <;> rfl
  intro hneed
  cases v
  · change (CqeBytes.byte _ 7).toNat = 1 at hneed
    change (CqeBytes.byte _ 7).toNat % 2 = 0 at hbyte
    omega
  · change ((CqeBytes.byte _ 14).toNat + 256 * (CqeBytes.byte _ 15).toNat) % 2 = 1 at hneed
    change (CqeBytes.byte _ 14).toNat % 2 = 0 at hbyte
    omega

/-- A receive with stream id 1 takes the second entry of the two. -/
theorem matchRange_twoEntries (hpos : 0 < size) :
    (twoEntries v depth size).entries.matchRange ⟨1, 0, 1, 0, 1⟩ (twoEntries v depth size).tail =
      (1, 1, false) := by
  have hscan :
      (twoEntries v depth size).entries.getMatchCopyRange ⟨1, 0, 1, 0, 1⟩ 0 2 = (1, 1) := by
    rw [LogicCq.getMatchCopyRange]
    change LogicCq.matchScan _ _ 1 0 2 0 0 = _
    rw [LogicCq.matchScan, if_pos needMatch_first, if_neg not_match_first,
      if_neg (by simp), if_neg (by simp), LogicCq.matchScan, if_neg (not_needMatch_second hpos)]
    rfl
  change LogicCq.matchRange _ _ 2 = _
  have htail : 2 > (twoEntries v depth size).entries.head := Nat.zero_lt_two
  rw [LogicCq.matchRange, if_pos htail]
  change ((LogicCq.getMatchCopyRange _ _ 0 2).1, (LogicCq.getMatchCopyRange _ _ 0 2).2, false) = _
  rw [hscan]

/-- The receive moves the first entry over the second, with the size of the
structure. -/
theorem copyReport_twoEntries (hpos : 0 < size) (hdepth : 3 ≤ depth) :
    (twoEntries v depth size).copyReport ⟨1, 0, 1, 0, 1⟩ 0 =
      (.ok 1, { twoEntries v depth size with
        head := 1
        mem := copyStruct v.sizeOf (twoEntries v depth size).mem 0 size }) := by
  rw [ByteCq.copyReport, if_neg (by simp [twoEntries]), if_neg (by simp [twoEntries])]
  have hmoves : (twoEntries v depth size).entries.reportMoves 1 1 false = [⟨0, 1, 1⟩] := by
    refine (if_pos Nat.zero_ne_one).trans ?_
    change LogicCq.holeMoves depth 0 1 1 false = _
    simp [LogicCq.holeMoves, Word.sub, Word.add]
  have hhead : Word.add 32 0 1 % depth = 1 := Nat.mod_eq_of_lt (show 1 < depth by omega)
  have hmem : ((twoEntries v depth size).moveAll [⟨0, 1, 1⟩]).mem =
      copyStruct v.sizeOf (twoEntries v depth size).mem (0 * size : ℕ) (1 * size : ℕ) := rfl
  rw [Nat.zero_mul, Nat.one_mul] at hmem
  rw [matchRange_twoEntries hpos]
  dsimp only
  rw [if_neg Nat.one_ne_zero, if_neg (not_not.mpr rfl), hmoves]
  congr 1
  change ({ twoEntries v depth size with
    head := Word.add 32 0 1 % depth, mem := ((twoEntries v depth size).moveAll [⟨0, 1, 1⟩]).mem } :
      ByteCq) = _
  rw [hhead, hmem]
  rfl

/-- With another size the first entry does not arrive, or the structure reaches
behind the second slot. -/
theorem not_intact_twoEntries (hpos : 0 < size) (hne : size ≠ v.sizeOf) (hdepth : 3 ≤ depth) :
    ¬ (twoEntries v depth size).Intact := by
  intro h
  have hclosed := h ⟨1, 0, 1, 0, 1⟩ 0 1 _ rfl Nat.one_pos (copyReport_twoEntries hpos hdepth)
  have hstart : ((twoEntries v depth size).entries.matchRange ⟨1, 0, 1, 0, 1⟩
      (twoEntries v depth size).tail).1 = 1 := congrArg Prod.fst (matchRange_twoEntries hpos)
  have hoff : Ring.count depth 0 1 = 1 := Ring.count_of_le (by omega) (by omega)
  rw [hstart] at hclosed
  change ByteCq.HoleClosed _ _ (Ring.count depth 0 1) 1 at hclosed
  rw [hoff] at hclosed
  have hflag := lostAt_gt v size
  rcases Nat.lt_or_ge size v.sizeOf with hlt | hge
  · -- the last byte of the structure lands behind the second slot
    have hlost : v.lostAt size = v.sizeOf - 1 := if_pos hlt
    have hkept := hclosed.frame (size + v.lostAt size : ℕ) fun i hi => .inr (by
      change ((Ring.pos depth 0 i * size + size : ℕ) : ℤ) ≤ _
      have hle : (i + 1) * size ≤ 2 * size := Nat.mul_le_mul_right size hi
      rw [Ring.pos_of_lt (by omega), Nat.zero_add, ← Nat.add_one_mul]
      omega)
    rw [mem_twoEntries (n := size + v.lostAt size) depth (by omega) (by omega)] at hkept
    change copyStruct _ _ _ _ _ = _ at hkept
    rw [copyStruct, if_pos (by push_cast; omega), Int.add_zero, Nat.cast_add, add_sub_cancel_left,
      mem_lostAt] at hkept
    exact absurd hkept (by decide)
  · have hlost : v.lostAt size = v.sizeOf := if_neg (by omega)
    have hlive : Ring.count depth 1 2 = 1 := Ring.count_of_le (by omega) (by omega)
    have hkept := hclosed.entries 0 (by change 0 < Ring.count depth 1 2; omega) v.sizeOf
      (by change v.sizeOf < size; omega)
    have hold := mem_lostAt v depth size
    rw [hlost] at hold
    change copyStruct _ _ _ _ ((Ring.pos depth 1 0 * size + v.sizeOf : ℕ) : ℤ) =
      (twoEntries v depth size).mem ((Ring.pos depth 0 0 * size + v.sizeOf : ℕ) : ℤ) at hkept
    rw [Ring.pos_of_lt (by omega), Ring.pos_of_lt (by omega), Nat.zero_mul, Nat.zero_add, hold,
      Nat.add_zero, Nat.one_mul, copyStruct, if_neg (by push_cast; omega),
      mem_twoEntries depth (by omega) (by omega)] at hkept
    exact absurd hkept (by decide)

end mismatch

/-! ## Which geometries keep the entries -/

/-- For the accepted depths and entry sizes of either version, every queue of
the geometry keeps its entries exactly when the size is that of the version's
structure, or the depth leaves no room for a hole. -/
theorem holes_closed_iff (v : CqeVersion) (depth size : ℕ)
    (hcheck : logicCqAllocParaCheck depth size = .ok ()) :
    (∀ q : ByteCq, q.version = v → q.cqDepth = depth → q.cqeSize = size → q.head < depth →
      q.tail < depth → q.Intact) ↔ size = v.sizeOf ∨ depth ≤ 2 := by
  rw [logicCqAllocParaCheck] at hcheck
  split at hcheck
  · simp at hcheck
  · next hok =>
      push Not at hok
      obtain ⟨hdepth, hdepth0, -, hsize0⟩ := hok
      constructor
      · intro h
        by_contra hbad
        push Not at hbad
        exact not_intact_twoEntries (Nat.pos_of_ne_zero hsize0) hbad.1 hbad.2
          (h (twoEntries v depth size) rfl rfl rfl (by change 0 < depth; omega) hbad.2)
      · rintro hgood q rfl rfl rfl hhead htail
        rcases hgood with hsize | hsmall
        · exact ByteCq.intact_of_size ⟨hhead, htail, hdepth⟩ hsize
        · exact ByteCq.intact_of_depth ⟨hhead, htail, hdepth⟩ hsmall

theorem holes_closed_v2 :
    (∀ q : ByteCq, q.version = .v2 → q.cqDepth = 1024 → q.cqeSize = 32 → q.head < 1024 →
      q.tail < 1024 → q.Intact) ↔ 32 = CqeVersion.v2.sizeOf ∨ 1024 ≤ 2 :=
  holes_closed_iff .v2 1024 32 rfl

/-- With entries of 16 bytes and the second version a receive overwrites the
entry behind the hole. -/
theorem holes_not_closed : ∃ q : ByteCq,
    logicCqAllocParaCheck q.cqDepth q.cqeSize = .ok () ∧ q.head < q.cqDepth ∧
      q.tail < q.cqDepth ∧ ¬ q.Intact :=
  ⟨twoEntries .v2 4 16, rfl, by decide, by decide,
    not_intact_twoEntries (by decide) (by decide) (by decide)⟩

end OpiaiKernel.Trs
