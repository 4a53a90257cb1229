import Mathlib.Data.Int.Notation
import Mathlib.Data.List.Basic
import Mathlib.Tactic.Common

/-!
# The message of an event

A publisher passes a message, whose length is checked when the event is
published.  A thread passes a buffer when it waits for an event or fetches one,
and its length is checked by the entry of each of the two calls; the message is
copied with the length that it was published with.

The functions are translated from `esched_fops.c` and `esched.c`.
-/

namespace OpiaiKernel.Esched.EventMessage

abbrev SCHED_MAX_GRP_NUM : ℕ := 64

abbrev SCHED_MAX_EVENT_TYPE_NUM : ℕ := 64

abbrev EVENT_MAX_MSG_LEN : ℕ := 128

abbrev SCHED_MAX_EVENT_MSG_LEN : ℕ := EVENT_MAX_MSG_LEN

abbrev SCHED_THREAD_SWAPOUT : ℤ := -2

inductive DrvError
  | paraError
  | copyUserFail
  | innerErr
  | noEvent
  deriving DecidableEq

/-- The bytes that a copy writes, with their addresses. -/
abbrev Writes := List (ℕ × UInt8)

/-- `copy_to_user_safe`; the copy ends at the first byte that may not be
written, which is the one at `reached`. -/
def copyToUserSafe (reached : ℕ) (dst : Option ℕ) (src : ℕ → UInt8) (n : ℕ) :
    Except DrvError Unit × Writes :=
  match dst with
  | none => (.error .innerErr, [])
  | some addr =>
      if n = 0 then (.error .innerErr, [])
      else
        (if reached < n then .error .innerErr else .ok (),
          (List.range (min n reached)).map fun i => (addr + i, src i))

/-! ## Publishing -/

/-- The group, event id and message of a `struct sched_published_event_info`. -/
structure PublishedEventInfo where
  gid : ℕ
  eventId : ℕ
  msg : Option ℕ
  msgLen : ℕ

/-- The group, event id and message of a `struct sched_event`. -/
structure SchedEvent where
  gid : ℕ
  eventId : ℕ
  msg : ℕ → UInt8
  msgLen : ℕ

/-- `sched_publish_event_para_check` -/
def schedPublishEventParaCheck (info : PublishedEventInfo) : Except DrvError Unit :=
  if SCHED_MAX_GRP_NUM ≤ info.gid then .error .paraError
  else if SCHED_MAX_EVENT_TYPE_NUM ≤ info.eventId then .error .paraError
  else if (info.msg = none ∧ info.msgLen ≠ 0) ∨
      (info.msg ≠ none ∧ (info.msgLen = 0 ∨ EVENT_MAX_MSG_LEN < info.msgLen)) then
    .error .paraError
  else .ok ()

/-- `sched_publish_fill_event`; the result of the copy of the message is given. -/
def schedPublishFillEvent (info : PublishedEventInfo) (src : ℕ → UInt8) (copied : Bool) :
    Option SchedEvent :=
  if 0 < info.msgLen ∧ copied = false then none
  else some ⟨info.gid, info.eventId, src, info.msgLen⟩

/-- A published event. -/
def publish (info : PublishedEventInfo) (src : ℕ → UInt8) (copied : Bool) :
    Except DrvError SchedEvent :=
  match schedPublishEventParaCheck info with
  | .error e => .error e
  | .ok () =>
      match schedPublishFillEvent info src copied with
      | none => .error .noEvent
      | some event => .ok event

/-! ## Delivery -/

/-- The group, event id and buffer of a `struct sched_subscribed_event`. -/
structure SubscribedEvent where
  gid : ℕ
  eventId : ℕ
  msg : Option ℕ
  msgLen : ℕ

/-- `sched_fill_subcribed_event` -/
def schedFillSubcribedEvent (reached : ℕ) (event : SchedEvent) (sub : SubscribedEvent) :
    SubscribedEvent × Writes :=
  let sub := { sub with gid := event.gid, eventId := event.eventId, msgLen := 0 }
  if SCHED_MAX_EVENT_MSG_LEN < event.msgLen then (sub, [])
  else
    let writes :=
      if 0 < event.msgLen then (copyToUserSafe reached sub.msg event.msg event.msgLen).2 else []
    ({ sub with msgLen := event.msgLen }, writes)

/-- The buffer of a `struct sched_get_event_input`. -/
structure GetEventInput where
  msg : Option ℕ
  msgLen : ℕ

/-- The buffer and the timeout of a `struct sched_wait_input`. -/
structure WaitInput where
  msg : Option ℕ
  msgLen : ℕ
  timeout : ℤ

/-- `sched_fop_get_exact_event`, with what the fetch takes and whether the event is
copied to the argument. -/
def schedFopGetExactEvent (reached : ℕ) (para : GetEventInput)
    (taken : Except DrvError SchedEvent) (copied : Bool) :
    Except DrvError SubscribedEvent × Writes :=
  if para.msg = none ∨ SCHED_MAX_EVENT_MSG_LEN < para.msgLen then (.error .paraError, [])
  else
    match taken with
    | .error e => (.error e, [])
    | .ok event =>
        let (sub, writes) := schedFillSubcribedEvent reached event ⟨0, 0, para.msg, para.msgLen⟩
        (if copied = true then .ok sub else .error .copyUserFail, writes)

/-- `sched_fop_wait_event`, with what the wait takes and whether the event is copied
to the argument. -/
def schedFopWaitEvent (reached : ℕ) (para : WaitInput) (taken : Except DrvError SchedEvent)
    (copied : Bool) : Except DrvError SubscribedEvent × Writes :=
  if (para.msg = none ∨ para.msgLen ≠ SCHED_MAX_EVENT_MSG_LEN) ∧
      para.timeout ≠ SCHED_THREAD_SWAPOUT then
    (.error .paraError, [])
  else
    match taken with
    | .error e => (.error e, [])
    | .ok event =>
        let (sub, writes) := schedFillSubcribedEvent reached event ⟨0, 0, para.msg, para.msgLen⟩
        (if copied = true then .ok sub else .error .copyUserFail, writes)

/-! ## The claim -/

/-- A call that delivers an event. -/
inductive Request
  | getExact (para : GetEventInput)
  | wait (para : WaitInput)

namespace Request

def msg : Request → Option ℕ
  | getExact para => para.msg
  | wait para => para.msg

def msgLen : Request → ℕ
  | getExact para => para.msgLen
  | wait para => para.msgLen

def swapsOut : Request → Prop
  | getExact _ => False
  | wait para => para.timeout = SCHED_THREAD_SWAPOUT

def run (reached : ℕ) (taken : Except DrvError SchedEvent) (copied : Bool) :
    Request → Except DrvError SubscribedEvent × Writes
  | getExact para => schedFopGetExactEvent reached para taken copied
  | wait para => schedFopWaitEvent reached para taken copied

/-- The entry of the call lets the request through to the lists. -/
def accepted (request : Request) : Prop :=
  (request.run 0 (.error .noEvent) true).1 = .error .noEvent

/-- Whatever the copies do, no more bytes of the message are written than the caller
has passed as the length of its buffer. -/
def StaysInside (request : Request) (event : SchedEvent) : Prop :=
  ∀ reached copied, (request.run reached (.ok event) copied).2.length ≤ request.msgLen

end Request

/-! ## Lengths -/

variable {info : PublishedEventInfo} {src : ℕ → UInt8} {copied : Bool} {event : SchedEvent}
  {request : Request}

theorem schedPublishEventParaCheck_ok (h : schedPublishEventParaCheck info = .ok ()) :
    info.msgLen ≤ EVENT_MAX_MSG_LEN := by
  unfold schedPublishEventParaCheck at h
  split_ifs at h with hgid heventId hmsg
  rcases Option.eq_none_or_eq_some info.msg with hnone | ⟨addr, hsome⟩
  · have hzero : info.msgLen = 0 := by
      by_contra hne
      exact hmsg (.inl ⟨hnone, hne⟩)
    omega
  · by_contra hlong
    exact hmsg (.inr ⟨by rw [hsome]; exact Option.some_ne_none addr, .inr (Nat.lt_of_not_le hlong)⟩)

/-- A published event has a message of the maximal length at most. -/
theorem publish_ok (h : publish info src copied = .ok event) :
    event.msgLen = info.msgLen ∧ event.msgLen ≤ SCHED_MAX_EVENT_MSG_LEN := by
  unfold publish at h
  split at h
  · cases h
  next hcheck =>
    have hle := schedPublishEventParaCheck_ok hcheck
    unfold schedPublishFillEvent at h
    split_ifs at h with hfail
    obtain rfl := Except.ok.inj h
    exact ⟨rfl, hle⟩

theorem length_copyToUserSafe (reached : ℕ) (dst : Option ℕ) (src : ℕ → UInt8) (n : ℕ) :
    (copyToUserSafe reached dst src n).2.length = if dst = none then 0 else min n reached := by
  cases dst with
  | none => rfl
  | some addr =>
      rw [copyToUserSafe, if_neg (Option.some_ne_none addr)]
      split
      next hzero =>
        rw [hzero, Nat.zero_min]
        rfl
      · rw [List.length_map, List.length_range]

/-- A message that is not too long is copied as it is, whatever the buffer. -/
theorem length_schedFillSubcribedEvent (hlen : event.msgLen ≤ SCHED_MAX_EVENT_MSG_LEN)
    (reached : ℕ) (sub : SubscribedEvent) :
    (schedFillSubcribedEvent reached event sub).2.length =
      if sub.msg = none then 0 else min event.msgLen reached := by
  simp only [schedFillSubcribedEvent, if_neg (Nat.not_lt.mpr hlen)]
  split
  · exact length_copyToUserSafe reached sub.msg event.msg event.msgLen
  next hzero =>
    rw [Nat.eq_zero_of_not_pos hzero, Nat.zero_min, ite_self]
    rfl

theorem accepted_getExact (para : GetEventInput) :
    (Request.getExact para).accepted ↔
      ¬ (para.msg = none ∨ SCHED_MAX_EVENT_MSG_LEN < para.msgLen) := by
  rw [Request.accepted, Request.run, schedFopGetExactEvent]
  split
  next hcheck => exact iff_of_false (fun h => by cases h) (not_not_intro hcheck)
  next hcheck => exact iff_of_true rfl hcheck

theorem accepted_wait (para : WaitInput) :
    (Request.wait para).accepted ↔
      ¬ ((para.msg = none ∨ para.msgLen ≠ SCHED_MAX_EVENT_MSG_LEN) ∧
        para.timeout ≠ SCHED_THREAD_SWAPOUT) := by
  rw [Request.accepted, Request.run, schedFopWaitEvent]
  split
  next hcheck => exact iff_of_false (fun h => by cases h) (not_not_intro hcheck)
  next hcheck => exact iff_of_true rfl hcheck

/-- A wait that does not swap out has a buffer for every message. -/
theorem wait_msgLen {para : WaitInput} (hacc : (Request.wait para).accepted)
    (hwaits : para.timeout ≠ SCHED_THREAD_SWAPOUT) : para.msgLen = SCHED_MAX_EVENT_MSG_LEN := by
  by_contra hshort
  exact (accepted_wait para).mp hacc ⟨.inr hshort, hwaits⟩

/-- The bytes that an accepted request writes. -/
theorem length_run (hacc : request.accepted) (hlen : event.msgLen ≤ SCHED_MAX_EVENT_MSG_LEN)
    (reached : ℕ) (copied : Bool) :
    (request.run reached (.ok event) copied).2.length =
      if request.msg = none then 0 else min event.msgLen reached := by
  cases request with
  | getExact para =>
      rw [Request.run, schedFopGetExactEvent, if_neg ((accepted_getExact para).mp hacc)]
      exact length_schedFillSubcribedEvent hlen reached _
  | wait para =>
      rw [Request.run, schedFopWaitEvent, if_neg ((accepted_wait para).mp hacc)]
      exact length_schedFillSubcribedEvent hlen reached _

/-- The message stays inside the buffer for a wait that does not swap out, for a
missing buffer, and for a message no longer than the buffer. -/
theorem staysInside_iff (hpub : publish info src copied = .ok event) (hacc : request.accepted) :
    request.StaysInside event ↔
      (∃ para, request = .wait para ∧ ¬ request.swapsOut) ∨ request.msg = none ∨
        info.msgLen ≤ request.msgLen := by
  obtain ⟨hinfo, hlen⟩ := publish_ok hpub
  rw [← hinfo]
  constructor
  · intro hinside
    rcases Option.eq_none_or_eq_some request.msg with hnone | ⟨addr, hsome⟩
    · exact .inr (.inl hnone)
    · have hall := hinside event.msgLen true
      rw [length_run hacc hlen, if_neg (by rw [hsome]; exact Option.some_ne_none addr),
        Nat.min_self] at hall
      exact .inr (.inr hall)
  · rintro (⟨para, rfl, hwaits⟩ | hnone | hfits) reached copied
    · have hmax := wait_msgLen hacc hwaits
      rw [length_run hacc hlen, Request.msgLen, hmax]
      split
      · exact Nat.zero_le _
      · exact Nat.le_trans (Nat.min_le_left _ _) hlen
    · rw [length_run hacc hlen, if_pos hnone]
      exact Nat.zero_le _
    · rw [length_run hacc hlen]
      split
      · exact Nat.zero_le _
      · exact Nat.le_trans (Nat.min_le_left _ _) hfits

/-- A message of three bytes stays inside a buffer of four. -/
theorem staysInside_four :
    (Request.getExact ⟨some 4096, 4⟩).StaysInside ⟨0, 0, fun _ => 1, 3⟩ :=
  have hpub : publish ⟨0, 0, some 4096, 3⟩ (fun _ => 1) true = .ok ⟨0, 0, fun _ => 1, 3⟩ := by rfl
  (staysInside_iff hpub (by rfl)).mpr (.inr (.inr (by decide)))

/-- A message of eight bytes is copied into a buffer of four. -/
theorem getExact_overruns :
    ∃ (info : PublishedEventInfo) (src : ℕ → UInt8) (event : SchedEvent) (request : Request),
      publish info src true = .ok event ∧ request.accepted ∧ ¬ request.StaysInside event := by
  refine ⟨⟨0, 0, some 4096, 8⟩, fun _ => 1, ⟨0, 0, fun _ => 1, 8⟩, .getExact ⟨some 4096, 4⟩, rfl,
    rfl, fun hinside => ?_⟩
  have hlong : ((Request.getExact ⟨some 4096, 4⟩).run 8 (.ok ⟨0, 0, fun _ => 1, 8⟩)
      true).2.length = 8 := by
    decide
  have hle := hinside 8 true
  rw [hlong] at hle
  exact absurd hle (by decide)

end OpiaiKernel.Esched.EventMessage
