import OpiaiKernel.Dms.Event
import OpiaiKernel.Lib.Machine
import Mathlib.Data.List.Nodup

/-!
# The event list of a device

The events that are active on a device stand in a list in the order in which
they were reported.  The number of the entries and the worst severity among them
are kept beside the list; every operation maintains them in a scan of its own.

The functions are translated from `dms_event_converge.c` and `dms_event.c`.
Each takes the lock of the list for all that it does, so a call is one step.
-/

namespace OpiaiKernel.Dms

/-- `struct dms_converge_event_list`. -/
structure DmsConvergeEventList where
  head : List DmsEventPara
  eventNum : UInt32
  healthCode : UInt32
  deriving DecidableEq, Inhabited

/-- The health code after an entry was looked at. -/
def worse (severity : UInt8) (healthCode : UInt32) : UInt32 :=
  if severity.toUInt32 > healthCode then severity.toUInt32 else healthCode

/-- What the scans that remove entries do with the next entry. -/
def visit (gone : DmsEventPara → Bool) (list : DmsConvergeEventList) (node : DmsEventPara) :
    DmsConvergeEventList :=
  if gone node then { list with eventNum := list.eventNum - 1 }
  else { list with head := list.head ++ [node], healthCode := worse node.severity list.healthCode }

/-- `list_for_each_safe` over the entries, each of which is deleted or kept. -/
def sweep (gone : DmsEventPara → Bool) (list : DmsConvergeEventList) : DmsConvergeEventList :=
  list.head.foldl (visit gone) { list with head := [], healthCode := 0 }

/-- The new entry, when `kzalloc` gives one, goes to the end of the list. -/
def dmsEventConvergeOccurAddToCb (list : DmsConvergeEventList) (exception : DmsEventPara)
    (alloc : Bool) : DrvError × DmsConvergeEventList :=
  if alloc = false then (.outOfMemory, list)
  else if list.head.any (·.eventId = exception.eventId) then (.eventNotMatch, list)
  else
    let added : DmsConvergeEventList :=
      { head := list.head ++ [exception]
        eventNum := list.eventNum + 1
        healthCode := worse exception.severity list.healthCode }
    if added.eventNum.toNat > DMS_MAX_EVENT_NUM then
      let rest := added.head.tail
      (.none,
        { head := rest
          eventNum := added.eventNum - 1
          healthCode := rest.foldl (fun health node => worse node.severity health) 0 })
    else (.none, added)

/-- What the resumed event takes from the entry with its serial number. -/
def resumeFrom (exception node : DmsEventPara) : DmsEventPara :=
  { exception with
    nodeType := node.nodeType
    nodeId := node.nodeId
    subNodeType := node.subNodeType
    subNodeId := node.subNodeId
    severity := node.severity
    eventName := node.eventName
    additionalInfo := node.additionalInfo }

def dmsEventConvergeResumeAddToCb (list : DmsConvergeEventList) (exception : DmsEventPara) :
    DrvError × DmsConvergeEventList × DmsEventPara :=
  let gone (node : DmsEventPara) : Bool := exception.eventSerialNum = node.eventSerialNum
  if list.head = [] then (.eventNotMatch, { list with eventNum := 0 }, exception)
  else (.none, sweep gone list, (list.head.filter gone).foldl resumeFrom exception)

def dmsEventMaskDelToEventCb (list : DmsConvergeEventList) (eventId : UInt32) :
    DmsConvergeEventList :=
  if list.head = [] then { list with healthCode := 0, eventNum := 0 }
  else sweep (·.eventId = eventId) list

/-- What the release of a process does to the list of one device. -/
def dmsEventCbRelease (list : DmsConvergeEventList) (ownerPid : Int32) : DmsConvergeEventList :=
  sweep (·.pid = ownerPid) list

inductive EventListOp
  | occur (exception : DmsEventPara) (alloc : Bool)
  | resume (exception : DmsEventPara)
  | maskDel (eventId : UInt32)
  | release (ownerPid : Int32)

def eventListStep (list : DmsConvergeEventList) : EventListOp → DmsConvergeEventList
  | .occur exception alloc => (dmsEventConvergeOccurAddToCb list exception alloc).2
  | .resume exception => (dmsEventConvergeResumeAddToCb list exception).2.1
  | .maskDel eventId => dmsEventMaskDelToEventCb list eventId
  | .release ownerPid => dmsEventCbRelease list ownerPid

/-- The list of a device from `dms_event_ctrl_init` on. -/
def eventListMachine : Machine DmsConvergeEventList EventListOp where
  init list := list = ⟨[], 0, 0⟩
  step list op := some (eventListStep list op)

/-! ## The worst severity -/

/-- The worst severity among the events, zero if there are none. -/
def worst : List DmsEventPara → ℕ
  | [] => 0
  | node :: rest => max node.severity.toNat (worst rest)

theorem worst_append (l l' : List DmsEventPara) : worst (l ++ l') = max (worst l) (worst l') := by
  induction l with
  | nil => simp [worst]
  | cons node l ih => simp only [List.cons_append, worst, ih, Nat.max_assoc]

theorem toNat_worse (severity : UInt8) (healthCode : UInt32) :
    (worse severity healthCode).toNat = max severity.toNat healthCode.toNat := by
  unfold worse
  split <;> rename_i h <;> simp only [gt_iff_lt, UInt32.lt_iff_toNat_lt, UInt8.toNat_toUInt32] at h
  · rw [UInt8.toNat_toUInt32]
    omega
  · omega

theorem toNat_foldl_worse (l : List DmsEventPara) (healthCode : UInt32) :
    (l.foldl (fun health node => worse node.severity health) healthCode).toNat =
      max (worst l) healthCode.toNat := by
  induction l generalizing healthCode with
  | nil => simp [worst]
  | cons node l ih =>
      simp only [List.foldl_cons, ih, worst, toNat_worse]
      omega

/-! ## The scans -/

theorem head_foldl_visit (gone : DmsEventPara → Bool) (l : List DmsEventPara)
    (list : DmsConvergeEventList) :
    (l.foldl (visit gone) list).head = list.head ++ l.filter (!gone ·) := by
  induction l generalizing list with
  | nil => simp
  | cons node l ih =>
      rw [List.foldl_cons, ih]
      by_cases h : gone node <;> simp [visit, h]

theorem healthCode_foldl_visit (gone : DmsEventPara → Bool) (l : List DmsEventPara)
    (list : DmsConvergeEventList) :
    (l.foldl (visit gone) list).healthCode.toNat =
      max (worst (l.filter (!gone ·))) list.healthCode.toNat := by
  induction l generalizing list with
  | nil => simp [worst]
  | cons node l ih =>
      rw [List.foldl_cons, ih]
      by_cases h : gone node
      · simp [visit, h]
      · simp only [visit, h, Bool.false_eq_true, if_false, toNat_worse, Bool.not_false,
          List.filter_cons_of_pos, worst]
        omega

/-- The entries still to come are counted in `eventNum`. -/
theorem eventNum_foldl_visit (gone : DmsEventPara → Bool) (l : List DmsEventPara)
    (list : DmsConvergeEventList) (h : list.eventNum.toNat = list.head.length + l.length) :
    (l.foldl (visit gone) list).eventNum.toNat = (l.foldl (visit gone) list).head.length := by
  induction l generalizing list with
  | nil => simpa using h
  | cons node l ih =>
      rw [List.length_cons] at h
      apply ih
      by_cases hg : gone node
      · have h1 : (1 : UInt32) ≤ list.eventNum := by
          rw [UInt32.le_iff_toNat_le, UInt32.toNat_one]
          omega
        simp only [visit, hg, if_true, UInt32.toNat_sub_of_le _ _ h1, UInt32.toNat_one]
        omega
      · simp only [visit, hg, Bool.false_eq_true, if_false, List.length_append, List.length_cons,
          List.length_nil]
        omega

/-- What the numbers beside the list say about it. -/
structure EventListOk (list : DmsConvergeEventList) : Prop where
  num : list.eventNum.toNat = list.head.length
  bound : list.head.length ≤ DMS_MAX_EVENT_NUM
  ids : (list.head.map DmsEventPara.eventId).Nodup
  health : list.healthCode.toNat = worst list.head

variable {list : DmsConvergeEventList}

theorem head_sweep (gone : DmsEventPara → Bool) :
    (sweep gone list).head = list.head.filter (!gone ·) := by
  simp [sweep, head_foldl_visit]

/-- A scan keeps what is said about the list, whatever it removes. -/
theorem EventListOk.sweep (h : EventListOk list) (gone : DmsEventPara → Bool) :
    EventListOk (sweep gone list) where
  num := eventNum_foldl_visit gone _ _ (by simpa using h.num)
  bound := by
    rw [head_sweep]
    exact Nat.le_trans (List.length_filter_le ..) h.bound
  ids := by
    rw [head_sweep]
    exact h.ids.sublist (List.filter_sublist.map _)
  health := by
    rw [head_sweep]
    simp [Dms.sweep, healthCode_foldl_visit]

theorem any_eventId_iff {eventId : UInt32} :
    list.head.any (·.eventId = eventId) = true ↔
      eventId ∈ list.head.map DmsEventPara.eventId := by
  simp only [List.any_eq_true, decide_eq_true_eq, List.mem_map]

/-- An insertion finds the id in the list, or adds the event to its end; when the
list is full it also drops the oldest entry. -/
theorem occur_cases (h : EventListOk list) (exception : DmsEventPara) :
    (exception.eventId ∈ list.head.map DmsEventPara.eventId ∧
      dmsEventConvergeOccurAddToCb list exception true = (.eventNotMatch, list)) ∨
    (exception.eventId ∉ list.head.map DmsEventPara.eventId ∧
      list.head.length < DMS_MAX_EVENT_NUM ∧
      dmsEventConvergeOccurAddToCb list exception true =
        (.none, ⟨list.head ++ [exception], list.eventNum + 1,
          worse exception.severity list.healthCode⟩)) ∨
    (exception.eventId ∉ list.head.map DmsEventPara.eventId ∧
      list.head.length = DMS_MAX_EVENT_NUM ∧
      dmsEventConvergeOccurAddToCb list exception true =
        (.none, ⟨list.head.tail ++ [exception], list.eventNum + 1 - 1,
          (list.head.tail ++ [exception]).foldl
            (fun health node => worse node.severity health) 0⟩)) := by
  have hmax : DMS_MAX_EVENT_NUM = 512 := rfl
  have hb := h.bound
  have hadd : (list.eventNum + 1).toNat = list.head.length + 1 := by
    rw [UInt32.toNat_add, UInt32.toNat_one, h.num]
    omega
  unfold dmsEventConvergeOccurAddToCb
  by_cases hin : exception.eventId ∈ list.head.map DmsEventPara.eventId
  · simp only [any_eventId_iff.mpr hin, hin, if_true, Bool.true_eq_false, if_false, true_and,
      true_or]
  · simp only [any_eventId_iff, hin, if_false, Bool.true_eq_false, hadd, not_false_eq_true,
      false_and, true_and, false_or]
    rcases Nat.lt_or_eq_of_le hb with hlt | hfull
    · have hnot : ¬ list.head.length + 1 > DMS_MAX_EVENT_NUM := by omega
      left
      exact ⟨hlt, if_neg hnot⟩
    · have hover : list.head.length + 1 > DMS_MAX_EVENT_NUM := by omega
      have hne : list.head ≠ [] := by
        intro h0
        simp [h0] at hfull
      right
      refine ⟨hfull, ?_⟩
      rw [if_pos hover, List.tail_append_of_ne_nil hne]

theorem nodup_concat {l : List DmsEventPara} {exception : DmsEventPara}
    (h : (l.map DmsEventPara.eventId).Nodup)
    (hnew : exception.eventId ∉ l.map DmsEventPara.eventId) :
    ((l ++ [exception]).map DmsEventPara.eventId).Nodup := by
  rw [List.map_append, List.map_cons, List.map_nil]
  refine List.nodup_append.mpr ⟨h, by simp, ?_⟩
  intro a ha b hb
  rw [List.mem_singleton.mp hb]
  rintro rfl
  exact hnew ha

theorem EventListOk.occur (h : EventListOk list) (exception : DmsEventPara) (alloc : Bool) :
    EventListOk (dmsEventConvergeOccurAddToCb list exception alloc).2 := by
  cases alloc with
  | false => exact h
  | true =>
      have hmax : DMS_MAX_EVENT_NUM = 512 := rfl
      obtain ⟨_, heq⟩ | ⟨hnew, hlt, heq⟩ | ⟨hnew, hfull, heq⟩ := occur_cases h exception <;>
        rw [heq]
      · exact h
      · refine ⟨?_, ?_, nodup_concat h.ids hnew, ?_⟩
        · rw [UInt32.toNat_add, UInt32.toNat_one, h.num, List.length_append, List.length_singleton]
          omega
        · rw [List.length_append, List.length_singleton]
          exact hlt
        · rw [toNat_worse, worst_append, h.health]
          simp [worst, Nat.max_comm]
      · have hlen : (list.head.tail ++ [exception]).length = DMS_MAX_EVENT_NUM := by
          rw [List.length_append, List.length_tail, List.length_singleton]
          omega
        refine ⟨?_, Nat.le_of_eq hlen, ?_, ?_⟩
        · rw [UInt32.add_sub_cancel, hlen, h.num, hfull]
        · apply nodup_concat (h.ids.sublist ((List.tail_sublist _).map _))
          intro hin
          exact hnew (((List.tail_sublist _).map _).subset hin)
        · simpa using toNat_foldl_worse (list.head.tail ++ [exception]) 0

theorem EventListOk.resume (h : EventListOk list) (exception : DmsEventPara) :
    EventListOk (dmsEventConvergeResumeAddToCb list exception).2.1 := by
  unfold dmsEventConvergeResumeAddToCb
  split
  · rename_i hnil
    exact ⟨by simp [hnil], h.bound, h.ids, h.health⟩
  · exact h.sweep _

theorem EventListOk.maskDel (h : EventListOk list) (eventId : UInt32) :
    EventListOk (dmsEventMaskDelToEventCb list eventId) := by
  unfold dmsEventMaskDelToEventCb
  split
  · rename_i hnil
    exact ⟨by simp [hnil], h.bound, h.ids, by simp [hnil, worst]⟩
  · exact h.sweep _

theorem eventListStep_ok (h : EventListOk list) (op : EventListOp) :
    EventListOk (eventListStep list op) := by
  cases op with
  | occur exception alloc => exact h.occur exception alloc
  | resume exception => exact h.resume exception
  | maskDel eventId => exact h.maskDel eventId
  | release ownerPid => exact h.sweep _

theorem EventListOk.of_reach (h : eventListMachine.Reach list) : EventListOk list := by
  refine h.invariant ?_ ?_
  · rintro s rfl
    exact ⟨rfl, by simp, by simp, rfl⟩
  · rintro s op t hs - hstep
    obtain rfl := Option.some.inj hstep
    exact eventListStep_ok hs op

/-- What holds of the list after every sequence of operations, and what the next
insertion does to it. -/
theorem event_list_kept (h : eventListMachine.Reach list) :
    list.eventNum.toNat = list.head.length ∧
    list.head.length ≤ DMS_MAX_EVENT_NUM ∧
    (list.head.map DmsEventPara.eventId).Nodup ∧
    list.healthCode.toNat = worst list.head ∧
    ∀ exception, exception.eventId ∉ list.head.map DmsEventPara.eventId →
      (dmsEventConvergeOccurAddToCb list exception true).2.head =
        if list.head.length = DMS_MAX_EVENT_NUM then list.head.tail ++ [exception]
        else list.head ++ [exception] := by
  have hok := EventListOk.of_reach h
  refine ⟨hok.num, hok.bound, hok.ids, hok.health, ?_⟩
  intro exception hnew
  obtain ⟨hin, _⟩ | ⟨_, hlt, heq⟩ | ⟨_, hfull, heq⟩ := occur_cases hok exception
  · exact absurd hin hnew
  · rw [heq, if_neg (Nat.ne_of_lt hlt)]
  · rw [heq, if_pos hfull]

/-- Two alarms of two processes, one of which exits. -/
def twoAlarms : List EventListOp :=
  [.occur { (default : DmsEventPara) with eventId := 5, severity := 3, pid := 10 } true,
    .occur { (default : DmsEventPara) with eventId := 6, severity := 1, pid := 11 } true,
    .release 10]

theorem event_list_kept_released :
    ∃ list : DmsConvergeEventList, list.head.length = 1 ∧ list.eventNum.toNat = 1 ∧
      list.healthCode.toNat = worst list.head := by
  have hreach : eventListMachine.Reach (eventListMachine.final ⟨[], 0, 0⟩ twoAlarms) :=
    .final (.start rfl) rfl
  obtain ⟨hnum, -, -, hhealth, -⟩ := event_list_kept hreach
  have hlen : (eventListMachine.final ⟨[], 0, 0⟩ twoAlarms).head.length = 1 := by decide +kernel
  exact ⟨_, hlen, hnum.trans hlen, hhealth⟩

end OpiaiKernel.Dms
