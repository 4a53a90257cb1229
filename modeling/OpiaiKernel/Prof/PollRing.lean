import OpiaiKernel.Lib.Machine
import OpiaiKernel.Lib.Ring
import Mathlib.Algebra.Ring.Nat

/-!
# The poll ring of a profiling context

A sub-channel with new data is entered once in the ring of its context; its flag
holds back the next notification until a poll takes the entry.  A stop clears the
flag and leaves the entry.

The functions are translated from `prof_drv_dev.c`.  A notification tests the flag
before it takes the locks, and a sub-channel is given back in two sections: first
its slot, then its context.  All calls of a context carry the same `vfid`, and a
device and a channel stand for the sub-channel that the context has there.
-/

namespace OpiaiKernel.Prof.Poll

abbrev PROF_POLL_DEPTH : ℕ := 512

abbrev PROF_CHANNEL_NUM : ℕ := 160

/-- `struct prof_poll_box`. -/
structure PollBox where
  deviceId : ℕ
  channelId : ℕ
  deriving DecidableEq

inductive ChannelPollFlag
  | invalid
  | valid
  deriving DecidableEq

/-- The part of `struct prof_sub_channel_info` that polling uses, with the slot of
`struct prof_channel_info` that points to it.  `passed` notifications have seen the
flag invalid and wait for the lock. -/
structure PollChannel where
  slot : Bool
  procCtx : Bool
  pollFlag : ChannelPollFlag
  passed : ℕ

/-- `struct prof_poll_info_kernel` and the sub-channels. -/
structure PollInfo where
  pollBox : ℕ → PollBox
  pollHead : ℕ
  pollTail : ℕ
  channels : PollBox → PollChannel

namespace PollInfo

def setChannel (s : PollInfo) (k : PollBox) (c : PollChannel) : PollInfo :=
  { s with channels := Function.update s.channels k c }

/-- Enter a sub-channel at the head. -/
def append (s : PollInfo) (k : PollBox) : PollInfo :=
  { s with
    pollBox := Function.update s.pollBox s.pollHead k
    pollHead := (s.pollHead + 1) % PROF_POLL_DEPTH }

/-- The number of entries from the tail to the head. -/
def waiting (s : PollInfo) : ℕ := Ring.count PROF_POLL_DEPTH s.pollTail s.pollHead

/-- The entries from the tail to the head. -/
def unread (s : PollInfo) : List PollBox :=
  Ring.content s.pollBox PROF_POLL_DEPTH s.pollTail s.waiting

end PollInfo

/-! ## Notifications, stops and starts -/

/-- The sub-channel is found by its context. -/
def profGetSubChannelInfoFromCtxNoLock (s : PollInfo) (k : PollBox) : Option PollChannel :=
  if (s.channels k).slot ∧ (s.channels k).procCtx then some (s.channels k) else none

def profAllocSubChannelResource (s : PollInfo) (k : PollBox) : Option PollInfo :=
  let c := s.channels k
  if c.slot ∨ c.procCtx then none
  else some (s.setChannel k { c with slot := true, procCtx := true })

def profChannelInfoFree (s : PollInfo) (k : PollBox) : Option PollInfo :=
  let c := s.channels k
  if c.slot then some (s.setChannel k { c with pollFlag := .invalid }) else none

def profFreeSubChannelResource (s : PollInfo) (k : PollBox) : Option PollInfo :=
  let c := s.channels k
  if c.slot then some (s.setChannel k { c with slot := false }) else none

def profFreeSubChannel (s : PollInfo) (k : PollBox) : Option PollInfo :=
  let c := s.channels k
  if c.slot then none else some (s.setChannel k { c with procCtx := false })

/-- The test of `prof_wake_up_poll_wq` before the locks. -/
def profWakeUpCheck (s : PollInfo) (k : PollBox) : Option PollInfo :=
  let c := s.channels k
  if c.pollFlag ≠ .invalid then some s else some (s.setChannel k { c with passed := c.passed + 1 })

/-- The rest of `prof_wake_up_poll_wq`. -/
def profWakeUpPollWq (s : PollInfo) (k : PollBox) : Option PollInfo :=
  let c := s.channels k
  if c.passed = 0 then none
  else if c.procCtx = false then some (s.setChannel k { c with passed := c.passed - 1 })
  else
    some ((s.append k).setChannel k { c with passed := c.passed - 1, pollFlag := .valid })

/-! ## Polling -/

/-- The blocks of adjacent slots that a poll copies, each with its length, and the
new tail. -/
def pollRanges (pollHead pollTail pollNumber : ℕ) : List (ℕ × ℕ) × ℕ :=
  if pollHead = pollTail then ([], pollTail)
  else if pollHead > pollTail then
    let size := min (pollHead - pollTail) pollNumber
    ([(pollTail, size)], pollTail + size)
  else if pollTail < PROF_POLL_DEPTH then
    let size := min (PROF_POLL_DEPTH - pollTail) pollNumber
    if size ≥ pollNumber ∨ pollHead = 0 then
      ([(pollTail, size)], (pollTail + size) % PROF_POLL_DEPTH)
    else
      let rest := min pollHead (pollNumber - size)
      ([(pollTail, size), (0, rest)], rest)
  else
    let rest := min pollHead pollNumber
    ([(0, rest)], rest)

/-- The flag of an entry's sub-channel is cleared if the context still has it. -/
def clearPollFlag (s : PollInfo) (k : PollBox) : PollInfo :=
  match profGetSubChannelInfoFromCtxNoLock s k with
  | none => s
  | some c => s.setChannel k { c with pollFlag := .invalid }

def profPollflagInit (s : PollInfo) (entries : List PollBox) : PollInfo :=
  entries.foldl clearPollFlag s

/-- The entries that are handed out, and the state after it. -/
def profPollCopy (s : PollInfo) (pollNumber : ℕ) : List PollBox × PollInfo :=
  let (ranges, pollTail) := pollRanges s.pollHead s.pollTail pollNumber
  let entries := ranges.flatMap fun r => Ring.slice s.pollBox r.1 r.2
  (entries, { profPollflagInit s entries with pollTail := pollTail })

def profPoll (s : PollInfo) (pollNumber : ℕ) : Option (List PollBox × PollInfo) :=
  if pollNumber > PROF_CHANNEL_NUM ∨ pollNumber = 0 then none
  else some (profPollCopy s pollNumber)

inductive PollStep
  | alloc (k : PollBox)
  | channelInfoFree (k : PollBox)
  | freeSlot (k : PollBox)
  | clearCtx (k : PollBox)
  | check (k : PollBox)
  | wakeUp (k : PollBox)
  | poll (pollNumber : ℕ)

def pollStep (s : PollInfo) : PollStep → Option PollInfo
  | .alloc k => profAllocSubChannelResource s k
  | .channelInfoFree k => profChannelInfoFree s k
  | .freeSlot k => profFreeSubChannelResource s k
  | .clearCtx k => profFreeSubChannel s k
  | .check k => profWakeUpCheck s k
  | .wakeUp k => profWakeUpPollWq s k
  | .poll pollNumber => (profPoll s pollNumber).map Prod.snd

def PollInfo.start : PollInfo where
  pollBox := fun _ => ⟨0, 0⟩
  pollHead := 0
  pollTail := 0
  channels := fun _ => ⟨false, false, .invalid, 0⟩

def pollMachine : Machine PollInfo PollStep where
  init s := s = PollInfo.start
  step := pollStep

/-- A notification finds the slot and a free entry behind its own, and a slot is
given back with a clear flag. -/
def PollOk (s : PollInfo) : PollStep → Prop
  | .wakeUp k =>
      (s.channels k).procCtx = true →
        (s.channels k).slot = true ∧ s.waiting + 1 < PROF_POLL_DEPTH
  | .freeSlot k => (s.channels k).pollFlag = .invalid
  | _ => True

instance : ∀ s a, Decidable (PollOk s a)
  | s, .wakeUp k => inferInstanceAs (Decidable ((s.channels k).procCtx = true →
      (s.channels k).slot = true ∧ s.waiting + 1 < PROF_POLL_DEPTH))
  | s, .freeSlot k => inferInstanceAs (Decidable ((s.channels k).pollFlag = .invalid))
  | _, .alloc _ => isTrue trivial
  | _, .channelInfoFree _ => isTrue trivial
  | _, .clearCtx _ => isTrue trivial
  | _, .check _ => isTrue trivial
  | _, .poll _ => isTrue trivial

/-! ## What a poll takes -/

/-- The entries lie in one block, or in two with the end of the memory between
them. -/
theorem pollRanges_cases (pollHead : ℕ) {pollTail : ℕ} (ht : pollTail < PROF_POLL_DEPTH)
    (pollNumber : ℕ) :
    (pollHead = pollTail ∧ pollRanges pollHead pollTail pollNumber = ([], pollTail)) ∨
    (pollTail < pollHead ∧
      pollRanges pollHead pollTail pollNumber =
        ([(pollTail, min (pollHead - pollTail) pollNumber)],
          pollTail + min (pollHead - pollTail) pollNumber)) ∨
    (pollHead < pollTail ∧ (pollNumber ≤ PROF_POLL_DEPTH - pollTail ∨ pollHead = 0) ∧
      pollRanges pollHead pollTail pollNumber =
        ([(pollTail, min (PROF_POLL_DEPTH - pollTail) pollNumber)],
          (pollTail + min (PROF_POLL_DEPTH - pollTail) pollNumber) % PROF_POLL_DEPTH)) ∨
    (pollHead < pollTail ∧ PROF_POLL_DEPTH - pollTail < pollNumber ∧
      pollRanges pollHead pollTail pollNumber =
        ([(pollTail, PROF_POLL_DEPTH - pollTail),
          (0, min pollHead (pollNumber - (PROF_POLL_DEPTH - pollTail)))],
          min pollHead (pollNumber - (PROF_POLL_DEPTH - pollTail)))) := by
  unfold pollRanges
  dsimp only
  rcases Nat.lt_trichotomy pollHead pollTail with hlt | rfl | hgt
  · rw [if_neg (show ¬pollHead = pollTail by omega),
      if_neg (show ¬pollHead > pollTail by omega), if_pos ht]
    by_cases hfirst : pollNumber ≤ PROF_POLL_DEPTH - pollTail ∨ pollHead = 0
    · rw [if_pos (show min (PROF_POLL_DEPTH - pollTail) pollNumber ≥ pollNumber ∨ pollHead = 0 by
        omega)]
      exact .inr (.inr (.inl ⟨hlt, hfirst, rfl⟩))
    · rw [if_neg (show ¬(min (PROF_POLL_DEPTH - pollTail) pollNumber ≥ pollNumber ∨
        pollHead = 0) by omega), Nat.min_eq_left (show PROF_POLL_DEPTH - pollTail ≤ pollNumber by
        omega)]
      exact .inr (.inr (.inr ⟨hlt, by omega, rfl⟩))
  · rw [if_pos rfl]
    exact .inl ⟨rfl, rfl⟩
  · rw [if_neg (show ¬pollHead = pollTail by omega), if_pos hgt]
    exact .inr (.inl ⟨hgt, rfl⟩)

theorem pollRanges_lt {pollHead pollTail : ℕ} (hh : pollHead < PROF_POLL_DEPTH)
    (ht : pollTail < PROF_POLL_DEPTH) (pollNumber : ℕ) :
    (pollRanges pollHead pollTail pollNumber).2 < PROF_POLL_DEPTH ∧
      ∀ r ∈ (pollRanges pollHead pollTail pollNumber).1, r.1 + r.2 ≤ PROF_POLL_DEPTH := by
  rcases pollRanges_cases pollHead ht pollNumber with
    ⟨-, heq⟩ | ⟨hgt, heq⟩ | ⟨hlt, -, heq⟩ | ⟨hlt, hmore, heq⟩
  · rw [heq]
    exact ⟨ht, by simp⟩
  · rw [heq]
    refine ⟨by dsimp only; omega, ?_⟩
    intro r hr
    obtain rfl := List.mem_singleton.mp hr
    dsimp only
    omega
  · rw [heq]
    refine ⟨Nat.mod_lt _ (Nat.zero_lt_of_lt ht), ?_⟩
    intro r hr
    obtain rfl := List.mem_singleton.mp hr
    dsimp only
    omega
  · rw [heq]
    refine ⟨by dsimp only; omega, ?_⟩
    intro r hr
    rcases List.mem_pair.mp hr with rfl | rfl
    · dsimp only
      omega
    · dsimp only
      omega

/-- The blocks are the next entries, at most as many as were asked for. -/
theorem pollRanges_content (m : ℕ → PollBox) {pollHead pollTail : ℕ}
    (hh : pollHead < PROF_POLL_DEPTH) (ht : pollTail < PROF_POLL_DEPTH) (pollNumber : ℕ) :
    let taken := min (Ring.count PROF_POLL_DEPTH pollTail pollHead) pollNumber
    ((pollRanges pollHead pollTail pollNumber).1.flatMap fun r => Ring.slice m r.1 r.2) =
        Ring.content m PROF_POLL_DEPTH pollTail taken ∧
      (pollRanges pollHead pollTail pollNumber).2 = Ring.pos PROF_POLL_DEPTH pollTail taken := by
  intro taken
  rcases pollRanges_cases pollHead ht pollNumber with
    ⟨heq, hranges⟩ | ⟨hgt, hranges⟩ | ⟨hlt, hone, hranges⟩ | ⟨hlt, htwo, hranges⟩
  · have hzero : Ring.count PROF_POLL_DEPTH pollTail pollHead = 0 :=
      (Ring.count_eq_zero_iff ht hh).mpr heq
    have htaken : taken = 0 := by simp [taken, hzero]
    rw [hranges, htaken]
    exact ⟨rfl, (Nat.mod_eq_of_lt ht).symm⟩
  · have htaken : taken = min (pollHead - pollTail) pollNumber := by
      rw [← Ring.count_of_le (Nat.le_of_lt hgt) hh]
    rw [hranges, htaken, Ring.content_eq_slice m (by omega), Ring.pos_of_lt (by omega)]
    simp
  · have hcount := Ring.count_of_gt hlt ht
    have htaken : taken = min (PROF_POLL_DEPTH - pollTail) pollNumber := by
      simp only [taken]
      omega
    rw [hranges, htaken, Ring.content_eq_slice m (by omega)]
    simp [Ring.pos]
  · have hcount := Ring.count_of_gt hlt ht
    have htaken : taken = PROF_POLL_DEPTH - pollTail +
        min pollHead (pollNumber - (PROF_POLL_DEPTH - pollTail)) := by
      simp only [taken]
      omega
    rw [hranges, htaken, Ring.content_wrap m ht, Ring.content_eq_slice m (by omega),
      Ring.pos_of_ge (by omega) (by omega)]
    refine ⟨by simp, ?_⟩
    dsimp only
    omega

@[simp] theorem clearPollFlag_fields (s : PollInfo) (k : PollBox) :
    (clearPollFlag s k).pollBox = s.pollBox ∧ (clearPollFlag s k).pollHead = s.pollHead ∧
      (clearPollFlag s k).pollTail = s.pollTail := by
  unfold clearPollFlag
  split <;> exact ⟨rfl, rfl, rfl⟩

/-- Clearing flags leaves the ring as it is. -/
theorem profPollflagInit_fields (s : PollInfo) (entries : List PollBox) :
    (profPollflagInit s entries).pollBox = s.pollBox ∧
      (profPollflagInit s entries).pollHead = s.pollHead := by
  unfold profPollflagInit
  induction entries generalizing s with
  | nil => exact ⟨rfl, rfl⟩
  | cons k entries ih =>
      obtain ⟨hbox, hhead, -⟩ := clearPollFlag_fields s k
      rw [List.foldl_cons, ← hbox, ← hhead]
      exact ih _

/-- A sub-channel after some flags were cleared: its own flag is cleared if it is
among them and found by its context. -/
theorem clearPollFlag_channel (s : PollInfo) (k j : PollBox) :
    ((clearPollFlag s k).channels j).slot = (s.channels j).slot ∧
      ((clearPollFlag s k).channels j).procCtx = (s.channels j).procCtx ∧
      (((clearPollFlag s k).channels j).pollFlag = .valid →
        (s.channels j).pollFlag = .valid ∧
          (j = k → ¬((s.channels j).slot = true ∧ (s.channels j).procCtx = true))) := by
  unfold clearPollFlag profGetSubChannelInfoFromCtxNoLock
  by_cases hfound : (s.channels k).slot ∧ (s.channels k).procCtx
  · rw [if_pos hfound]
    by_cases hjk : j = k
    · subst hjk
      simp [PollInfo.setChannel]
    · simp [PollInfo.setChannel, hjk]
  · rw [if_neg hfound]
    refine ⟨rfl, rfl, fun hvalid => ⟨hvalid, ?_⟩⟩
    rintro rfl
    exact hfound

theorem profPollflagInit_channel (s : PollInfo) (entries : List PollBox) (j : PollBox) :
    ((profPollflagInit s entries).channels j).slot = (s.channels j).slot ∧
      ((profPollflagInit s entries).channels j).procCtx = (s.channels j).procCtx ∧
      (((profPollflagInit s entries).channels j).pollFlag = .valid →
        (s.channels j).pollFlag = .valid ∧
          (j ∈ entries → ¬((s.channels j).slot = true ∧ (s.channels j).procCtx = true))) := by
  unfold profPollflagInit
  induction entries generalizing s with
  | nil => exact ⟨rfl, rfl, fun hvalid => ⟨hvalid, fun hmem => absurd hmem (List.not_mem_nil)⟩⟩
  | cons k entries ih =>
      obtain ⟨hslot, hctx, hflag⟩ := clearPollFlag_channel s k j
      obtain ⟨hslot', hctx', hflag'⟩ := ih (clearPollFlag s k)
      rw [List.foldl_cons]
      refine ⟨hslot'.trans hslot, hctx'.trans hctx, fun hvalid => ?_⟩
      obtain ⟨hmid, hlater⟩ := hflag' hvalid
      obtain ⟨hold, hnow⟩ := hflag hmid
      rw [hslot, hctx] at hlater
      refine ⟨hold, fun hmem => ?_⟩
      rcases List.mem_cons.mp hmem with hk | hrest
      · exact hnow hk
      · exact hlater hrest

/-! ## The indices -/

/-- Both ends of the ring are slots of it. -/
def PollInfo.InRing (s : PollInfo) : Prop :=
  s.pollHead < PROF_POLL_DEPTH ∧ s.pollTail < PROF_POLL_DEPTH

theorem profPollCopy_spec {s : PollInfo} (hin : s.InRing) (pollNumber : ℕ) :
    (profPollCopy s pollNumber).1 = s.unread.take pollNumber ∧
      (profPollCopy s pollNumber).2.unread = s.unread.drop pollNumber ∧
      (profPollCopy s pollNumber).2.InRing ∧
      (profPollCopy s pollNumber).2.channels =
        (profPollflagInit s (profPollCopy s pollNumber).1).channels := by
  obtain ⟨hh, ht⟩ := hin
  obtain ⟨hentries, htail⟩ := pollRanges_content s.pollBox hh ht pollNumber
  obtain ⟨hbox, hhead⟩ := profPollflagInit_fields s (profPollCopy s pollNumber).1
  have hmin : min s.waiting pollNumber ≤ s.waiting := Nat.min_le_left _ _
  have htake : s.unread.take (min s.waiting pollNumber) = s.unread.take pollNumber := by
    rw [← List.take_take]
    apply List.take_of_length_le
    simp only [List.length_take, PollInfo.unread, Ring.length_content]
    omega
  have htaken : (profPollCopy s pollNumber).1 = s.unread.take pollNumber := by
    rw [← htake, PollInfo.unread, Ring.take_content s.pollBox hmin]
    exact hentries
  refine ⟨htaken, ?_, ⟨?_, (pollRanges_lt hh ht pollNumber).1⟩, rfl⟩
  · have hwaiting : (profPollCopy s pollNumber).2.waiting =
        s.waiting - min s.waiting pollNumber := by
      refine Eq.trans ?_ (Ring.count_advance ht hh hmin)
      exact congrArg₂ (Ring.count PROF_POLL_DEPTH) htail hhead
    have hdrop : s.unread.drop pollNumber = s.unread.drop (min s.waiting pollNumber) := by
      rcases Nat.le_total pollNumber s.waiting with hle | hle
      · rw [Nat.min_eq_right hle]
      · rw [Nat.min_eq_left hle, List.drop_of_length_le (by simpa [PollInfo.unread] using hle),
          List.drop_of_length_le (by simp [PollInfo.unread])]
    rw [hdrop, PollInfo.unread, PollInfo.unread, Ring.drop_content s.pollBox hmin, hwaiting]
    exact congrArg₂ (fun m t => Ring.content m PROF_POLL_DEPTH t (s.waiting -
      min s.waiting pollNumber)) hbox htail
  · exact hhead ▸ hh

/-! ## Readiness -/

/-- A sub-channel in its slot belongs to the context and is in the ring while its
flag is set; outside the slot the flag is clear. -/
structure Tracked (unread : List PollBox) (k : PollBox) (c : PollChannel) : Prop where
  owned : c.slot = true → c.procCtx = true
  entered : c.slot = true → c.pollFlag = .valid → k ∈ unread
  clear : c.slot = false → c.pollFlag = .invalid

structure PollRingInv (s : PollInfo) : Prop where
  inRing : s.InRing
  tracked : ∀ k, Tracked s.unread k (s.channels k)

theorem Tracked.mono {unread unread' : List PollBox} {k : PollBox} {c : PollChannel}
    (h : Tracked unread k c) (hsub : unread ⊆ unread') : Tracked unread' k c :=
  ⟨h.owned, fun hslot hvalid => hsub (h.entered hslot hvalid), h.clear⟩

theorem PollRingInv.setChannel {s : PollInfo} (hinv : PollRingInv s) {k : PollBox}
    {c : PollChannel} (hc : Tracked s.unread k c) : PollRingInv (s.setChannel k c) := by
  refine ⟨hinv.inRing, ?_⟩
  intro j
  by_cases hjk : j = k
  · subst hjk
    have hself : (s.setChannel j c).channels j = c := Function.update_self _ _ _
    rw [hself]
    exact hc
  · have hother : (s.setChannel k c).channels j = s.channels j := Function.update_of_ne hjk _ _
    rw [hother]
    exact hinv.tracked j

theorem unread_append {s : PollInfo} (hin : s.InRing) (k : PollBox)
    (hroom : s.waiting + 1 < PROF_POLL_DEPTH) : (s.append k).unread = s.unread ++ [k] := by
  obtain ⟨hh, ht⟩ := hin
  have hwaiting : (s.append k).waiting = s.waiting + 1 := Ring.count_succ ht hh hroom
  have hbox : (s.append k).pollBox = Function.update s.pollBox s.pollHead k := rfl
  have htail : (s.append k).pollTail = s.pollTail := rfl
  rw [PollInfo.unread, hwaiting, hbox, htail, PollInfo.waiting, Ring.content_succ _ ht hh,
    Ring.content_update _ _ ht hh (Nat.le_refl _), Function.update_self]
  rfl

theorem PollRingInv.append {s : PollInfo} (hinv : PollRingInv s) (k : PollBox)
    (hroom : s.waiting + 1 < PROF_POLL_DEPTH) : PollRingInv (s.append k) := by
  refine ⟨⟨Nat.mod_lt _ (Nat.zero_lt_of_lt hroom), hinv.inRing.2⟩, ?_⟩
  intro j
  rw [unread_append hinv.inRing k hroom]
  exact (hinv.tracked j).mono (List.subset_append_left _ _)

/-- A poll takes an entry only with the flag of its sub-channel. -/
theorem PollRingInv.poll {s : PollInfo} (hinv : PollRingInv s) (pollNumber : ℕ) :
    PollRingInv (profPollCopy s pollNumber).2 := by
  obtain ⟨htaken, hleft, hin, hchannels⟩ := profPollCopy_spec hinv.inRing pollNumber
  refine ⟨hin, ?_⟩
  intro j
  obtain ⟨hslot, hctx, hflag⟩ :=
    profPollflagInit_channel s (profPollCopy s pollNumber).1 j
  have htracked := hinv.tracked j
  rw [hchannels, hleft]
  refine ⟨fun h => ?_, fun h hvalid => ?_, fun h => ?_⟩
  · rw [hctx]
    exact htracked.owned (hslot ▸ h)
  · rw [hslot] at h
    obtain ⟨hold, hkept⟩ := hflag hvalid
    rw [htaken] at hkept
    have hmem := htracked.entered h hold
    rw [← List.take_append_drop pollNumber s.unread] at hmem
    rcases List.mem_append.mp hmem with hnow | hlater
    · exact absurd ⟨h, htracked.owned h⟩ (hkept hnow)
    · exact hlater
  · rw [hslot] at h
    cases hcase : ((profPollflagInit s (profPollCopy s pollNumber).1).channels j).pollFlag with
    | invalid => rfl
    | valid => exact absurd ((hflag hcase).1.symm.trans (htracked.clear h)) (by decide)

theorem PollRingInv.step {s t : PollInfo} {a : PollStep} (hinv : PollRingInv s) (hok : PollOk s a)
    (h : pollStep s a = some t) : PollRingInv t := by
  cases a with
  | alloc k =>
      have hk := hinv.tracked k
      simp only [pollStep, profAllocSubChannelResource] at h
      split at h
      · cases h
      · rename_i hfree
        obtain rfl := Option.some.inj h
        have hslot : (s.channels k).slot = false := by simpa using fun hs => hfree (.inl hs)
        exact hinv.setChannel
          ⟨fun _ => rfl, fun _ hvalid => absurd (hvalid.symm.trans (hk.clear hslot)) (by decide),
            fun hs => (nomatch hs)⟩
  | channelInfoFree k =>
      have hk := hinv.tracked k
      simp only [pollStep, profChannelInfoFree] at h
      split at h
      · obtain rfl := Option.some.inj h
        exact hinv.setChannel
          ⟨hk.owned, fun _ hvalid => (nomatch hvalid), fun _ => rfl⟩
      · cases h
  | freeSlot k =>
      simp only [pollStep, profFreeSubChannelResource] at h
      split at h
      · obtain rfl := Option.some.inj h
        exact hinv.setChannel
          ⟨fun hs => (nomatch hs), fun hs => (nomatch hs), fun _ => hok⟩
      · cases h
  | clearCtx k =>
      have hk := hinv.tracked k
      simp only [pollStep, profFreeSubChannel] at h
      split at h
      · cases h
      · rename_i hslot
        obtain rfl := Option.some.inj h
        exact hinv.setChannel ⟨fun hs => absurd hs hslot, hk.entered, hk.clear⟩
  | check k =>
      have hk := hinv.tracked k
      simp only [pollStep, profWakeUpCheck] at h
      split at h
      · obtain rfl := Option.some.inj h
        exact hinv
      · obtain rfl := Option.some.inj h
        exact hinv.setChannel ⟨hk.owned, hk.entered, hk.clear⟩
  | wakeUp k =>
      have hk := hinv.tracked k
      simp only [pollStep, profWakeUpPollWq] at h
      split_ifs at h with hpassed hctx
      · obtain rfl := Option.some.inj h
        exact hinv.setChannel ⟨hk.owned, hk.entered, hk.clear⟩
      · obtain rfl := Option.some.inj h
        obtain ⟨hslot, hroom⟩ := hok (by simpa using hctx)
        refine (hinv.append k hroom).setChannel ⟨hk.owned, fun _ _ => ?_, fun hs => ?_⟩
        · rw [unread_append hinv.inRing k hroom]
          exact List.mem_append_right _ (List.mem_singleton_self k)
        · exact absurd (hs.symm.trans hslot) (by decide)
  | poll pollNumber =>
      simp only [pollStep, profPoll] at h
      split at h
      · cases h
      · obtain rfl := Option.some.inj h
        exact hinv.poll pollNumber

theorem pollRingInv_start : PollRingInv PollInfo.start :=
  ⟨⟨by decide, by decide⟩, fun _ => ⟨fun h => (nomatch h), fun h => (nomatch h), fun _ => rfl⟩⟩

theorem PollRingInv.of_reach {s : PollInfo} (h : pollMachine.ReachIf PollOk s) :
    PollRingInv s := by
  apply h.invariant
  · rintro _ rfl
    exact pollRingInv_start
  · intro s a t hinv hok hstep
    exact hinv.step hok hstep

/-- No step leaves the ring, whatever the notifications do. -/
theorem PollInfo.InRing.step {s t : PollInfo} {a : PollStep} (hin : s.InRing)
    (h : pollStep s a = some t) : t.InRing := by
  cases a with
  | alloc k =>
      simp only [pollStep, profAllocSubChannelResource] at h
      split at h
      · cases h
      · exact Option.some.inj h ▸ hin
  | channelInfoFree k =>
      simp only [pollStep, profChannelInfoFree] at h
      split at h
      · exact Option.some.inj h ▸ hin
      · cases h
  | freeSlot k =>
      simp only [pollStep, profFreeSubChannelResource] at h
      split at h
      · exact Option.some.inj h ▸ hin
      · cases h
  | clearCtx k =>
      simp only [pollStep, profFreeSubChannel] at h
      split at h
      · cases h
      · exact Option.some.inj h ▸ hin
  | check k =>
      simp only [pollStep, profWakeUpCheck] at h
      split at h
      · exact Option.some.inj h ▸ hin
      · exact Option.some.inj h ▸ hin
  | wakeUp k =>
      simp only [pollStep, profWakeUpPollWq] at h
      split_ifs at h
      · exact Option.some.inj h ▸ hin
      · obtain rfl := Option.some.inj h
        exact ⟨Nat.mod_lt _ (by decide), hin.2⟩
  | poll pollNumber =>
      simp only [pollStep, profPoll] at h
      split at h
      · cases h
      · obtain rfl := Option.some.inj h
        exact (profPollCopy_spec hin pollNumber).2.2.1

/-- Polls one after the other, with all that they hand out. -/
def profPolls (s : PollInfo) : List ℕ → Option (List PollBox × PollInfo)
  | [] => some ([], s)
  | pollNumber :: rest => do
      let (entries, s) ← profPoll s pollNumber
      let (more, s) ← profPolls s rest
      some (entries ++ more, s)

/-- Polls hand out the entries in their order. -/
theorem profPolls_eq {s : PollInfo} (hin : s.InRing) {numbers : List ℕ}
    (hn : ∀ n ∈ numbers, 0 < n ∧ n ≤ PROF_CHANNEL_NUM) :
    ∃ t, profPolls s numbers = some (s.unread.take numbers.sum, t) := by
  induction numbers generalizing s with
  | nil => exact ⟨s, by simp [profPolls]⟩
  | cons n numbers ih =>
      obtain ⟨htaken, hleft, hin', -⟩ := profPollCopy_spec hin n
      obtain ⟨hpos, hle⟩ := hn n List.mem_cons_self
      obtain ⟨t, ht⟩ := ih hin' fun m hm => hn m (List.mem_cons_of_mem _ hm)
      have hpoll : profPoll s n = some (profPollCopy s n) := if_neg (by omega)
      refine ⟨t, ?_⟩
      rw [hleft] at ht
      simp only [profPolls, hpoll, Option.bind_eq_bind, Option.bind_some, ht, htaken,
        List.sum_cons, List.take_add]

/-- A started sub-channel whose flag is set is in the ring, and enough polls hand
it out; no index leaves the ring. -/
theorem poll_readiness {s : PollInfo} (h : pollMachine.ReachIf PollOk s) :
    (∀ k, profGetSubChannelInfoFromCtxNoLock s k ≠ none → (s.channels k).pollFlag = .valid →
      k ∈ s.unread ∧
      ∀ numbers : List ℕ, (∀ n ∈ numbers, 0 < n ∧ n ≤ PROF_CHANNEL_NUM) →
        s.unread.length ≤ numbers.sum →
        ∃ entries t, profPolls s numbers = some (entries, t) ∧ k ∈ entries) ∧
    s.pollHead < PROF_POLL_DEPTH ∧
    ∀ pollNumber, ∀ r ∈ (pollRanges s.pollHead s.pollTail pollNumber).1,
      r.1 + r.2 ≤ PROF_POLL_DEPTH := by
  have hinv := PollRingInv.of_reach h
  obtain ⟨hh, ht⟩ := hinv.inRing
  refine ⟨?_, hh, fun n => (pollRanges_lt hh ht n).2⟩
  intro k hstarted hvalid
  have hslot : (s.channels k).slot = true := by
    by_contra hslot
    exact hstarted (if_neg fun hfound => hslot hfound.1)
  have hmem := (hinv.tracked k).entered hslot hvalid
  refine ⟨hmem, ?_⟩
  intro numbers hn hsum
  obtain ⟨t, ht⟩ := profPolls_eq hinv.inRing hn
  rw [List.take_of_length_le hsum] at ht
  exact ⟨s.unread, t, ht, hmem⟩

/-- A notification, a poll in between, and another one. -/
theorem poll_readiness_again :
    let a : PollBox := ⟨0, 1⟩
    let s := pollMachine.final PollInfo.start
      [.alloc a, .check a, .wakeUp a, .poll 160, .check a, .wakeUp a]
    (s.channels a).pollFlag = .valid ∧ a ∈ s.unread :=
  have hreach : pollMachine.ReachIf PollOk (pollMachine.final PollInfo.start
      [.alloc ⟨0, 1⟩, .check ⟨0, 1⟩, .wakeUp ⟨0, 1⟩, .poll 160, .check ⟨0, 1⟩,
        .wakeUp ⟨0, 1⟩]) :=
    .final (.start rfl) (by decide +kernel) (by decide +kernel)
  ⟨by decide +kernel,
    ((poll_readiness hreach).1 ⟨0, 1⟩ (by decide +kernel) (by decide +kernel)).1⟩

/-- A start, a notification and a stop. -/
def notifiedOnce (k : PollBox) : List PollStep :=
  [.alloc k, .check k, .wakeUp k, .channelInfoFree k, .freeSlot k, .clearCtx k]

theorem run_notifiedOnce {s : PollInfo} {k : PollBox}
    (hk : s.channels k = ⟨false, false, .invalid, 0⟩) :
    ∃ t, pollMachine.run s (notifiedOnce k) = some t ∧
      t.channels k = ⟨false, false, .invalid, 0⟩ ∧
      t.pollHead = (s.pollHead + 1) % PROF_POLL_DEPTH ∧ t.pollTail = s.pollTail := by
  simp [notifiedOnce, Machine.run, pollMachine, pollStep, profAllocSubChannelResource,
    profWakeUpCheck, profWakeUpPollWq, profChannelInfoFree, profFreeSubChannelResource,
    profFreeSubChannel, PollInfo.setChannel, PollInfo.append, hk]

/-- A sub-channel that is started and stopped without a poll fills the ring. -/
theorem reach_notified (k : PollBox) (n : ℕ) :
    ∃ s, pollMachine.Reach s ∧ s.channels k = ⟨false, false, .invalid, 0⟩ ∧
      s.pollHead = n % PROF_POLL_DEPTH ∧ s.pollTail = 0 := by
  induction n with
  | zero => exact ⟨PollInfo.start, .start rfl, rfl, rfl, rfl⟩
  | succ n ih =>
      obtain ⟨s, hs, hk, hhead, htail⟩ := ih
      obtain ⟨t, ht, hk', hhead', htail'⟩ := run_notifiedOnce hk
      refine ⟨t, hs.run _ ht, hk', ?_, htail'.trans htail⟩
      rw [hhead', hhead, Nat.mod_add_mod]

/-- The last notification brings the head back to the tail: the flag is set and
the ring looks empty. -/
theorem readiness_lost :
    ∃ s, pollMachine.Reach s ∧ ∃ k,
      profGetSubChannelInfoFromCtxNoLock s k ≠ none ∧ (s.channels k).pollFlag = .valid ∧
      k ∉ s.unread := by
  obtain ⟨s, hs, hk, hhead, htail⟩ := reach_notified ⟨0, 1⟩ 511
  have hrun : ∃ t, pollMachine.run s [.alloc ⟨0, 1⟩, .check ⟨0, 1⟩, .wakeUp ⟨0, 1⟩] = some t ∧
      t.channels ⟨0, 1⟩ = ⟨true, true, .valid, 0⟩ ∧ t.pollHead = t.pollTail ∧ t.pollTail = 0 := by
    simp [Machine.run, pollMachine, pollStep, profAllocSubChannelResource, profWakeUpCheck,
      profWakeUpPollWq, PollInfo.setChannel, PollInfo.append, hk, hhead, htail]
  obtain ⟨t, ht, hk', hempty, hzero⟩ := hrun
  refine ⟨t, hs.run _ ht, ⟨0, 1⟩, ?_, ?_, ?_⟩
  · simp [profGetSubChannelInfoFromCtxNoLock, hk']
  · rw [hk']
  · have hwaiting : t.waiting = 0 := by
      rw [PollInfo.waiting, hempty, hzero]
      rfl
    simp [PollInfo.unread, hwaiting]

end OpiaiKernel.Prof.Poll
