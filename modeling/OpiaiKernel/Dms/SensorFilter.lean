import OpiaiKernel.Dms.Event
import OpiaiKernel.Lib.Keyed
import OpiaiKernel.Lib.Machine
import OpiaiKernel.Lib.Slots
import Mathlib.Data.List.Dedup
import Mathlib.Logic.Function.Basic

/-!
# The filter of the sensor events

A sensor event that is reported while another occurrence of its id is
outstanding is filtered; so is a resume as long as occurrences of the id are
left.  The serial numbers of the outstanding occurrences of an id stand in the
slots of its record, in which zero marks the free ones.

The functions are translated from `dms_event_converge.c`.  A call takes the lock
of the list for all that it does and is one step.
-/

namespace OpiaiKernel.Dms

/-- `struct dms_event_sensor_reported`. -/
structure DmsEventSensorReported where
  eventId : UInt32
  pid : Int32
  mainEventSerial : Int32
  eventSerialCnt : UInt32
  subEventSerial : List Int32
  deriving DecidableEq

/-- `struct dms_sensor_reported_list`. -/
structure DmsSensorReportedList where
  head : List DmsEventSensorReported
  reportedNum : UInt32
  deriving DecidableEq

/-- The record after the serial number of a resume is looked for, and the event;
without an error the record is deleted. -/
def dmsSensorReportedResumeEvent (node : DmsEventSensorReported) (exception : DmsEventPara) :
    DrvError × DmsEventSensorReported × DmsEventPara :=
  if node.eventId = exception.eventId then
    let node :=
      match Slots.exchange exception.eventSerialNum 0 node.subEventSerial with
      | some sub => { node with subEventSerial := sub, eventSerialCnt := node.eventSerialCnt - 1 }
      | none => node
    if node.eventSerialCnt = 0 then
      (.none, node, { exception with eventSerialNum := node.mainEventSerial })
    else (.eventNotMatch, node, exception)
  else (.eventNotMatch, node, exception)

def resumeScan : List DmsEventSensorReported → DmsEventPara →
    DrvError × List DmsEventSensorReported × DmsEventPara
  | [], exception => (.eventNotMatch, [], exception)
  | node :: rest, exception =>
      match dmsSensorReportedResumeEvent node exception with
      | (.none, _, exception) => (.none, rest, exception)
      | (_, node, exception) =>
          let (ret, rest, exception) := resumeScan rest exception
          (ret, node :: rest, exception)

def dmsSensorReportedResume (list : DmsSensorReportedList) (exception : DmsEventPara) :
    DrvError × DmsSensorReportedList × DmsEventPara :=
  match resumeScan list.head exception with
  | (.none, head, exception) => (.none, ⟨head, list.reportedNum - 1⟩, exception)
  | (ret, head, exception) => (ret, { list with head }, exception)

def dmsSensorReportedOccurEvent (node : DmsEventSensorReported) (exception : DmsEventPara) :
    DrvError × DmsEventSensorReported :=
  if node.eventId = exception.eventId then
    match Slots.exchange 0 exception.eventSerialNum node.subEventSerial with
    | some sub =>
        (.eventNotMatch,
          { node with subEventSerial := sub, eventSerialCnt := node.eventSerialCnt + 1 })
    | none => (.none, node)
  else (.none, node)

def occurScan : List DmsEventSensorReported → DmsEventPara →
    DrvError × List DmsEventSensorReported
  | [], _ => (.none, [])
  | node :: rest, exception =>
      match dmsSensorReportedOccurEvent node exception with
      | (.eventNotMatch, node) => (.eventNotMatch, node :: rest)
      | (_, node) =>
          let (ret, rest) := occurScan rest exception
          (ret, node :: rest)

/-- The record of an id that has none yet; `kzalloc` clears its slots. -/
def newReported (exception : DmsEventPara) : DmsEventSensorReported where
  eventId := exception.eventId
  pid := exception.pid
  mainEventSerial := exception.eventSerialNum
  eventSerialCnt := 1
  subEventSerial := exception.eventSerialNum :: List.replicate (DMS_MAX_EVENT_NUM - 1) 0

def dmsSensorReportedOccur (list : DmsSensorReportedList) (exception : DmsEventPara)
    (alloc : Bool) : DrvError × DmsSensorReportedList :=
  if list.reportedNum.toNat > DMS_MAX_EVENT_NUM then (.eventNotMatch, list)
  else
    match occurScan list.head exception with
    | (.eventNotMatch, head) => (.eventNotMatch, { list with head })
    | (_, head) =>
        if alloc = false then (.outOfMemory, { list with head })
        else (.none, ⟨head ++ [newReported exception], list.reportedNum + 1⟩)

/-! ## Occurrences -/

/-- The list of a device, the occurrences that are outstanding, and for each id
the serial number of its last occurrence that passed. -/
structure FilterState where
  list : DmsSensorReportedList
  outstanding : List (UInt32 × Int32)
  lead : UInt32 → Int32

/-- The serial numbers of the occurrences of an id. -/
def serials (eventId : UInt32) (outstanding : List (UInt32 × Int32)) : List Int32 :=
  (outstanding.filter (·.1 = eventId)).map Prod.snd

/-- The ids that have occurrences. -/
def eventIds (outstanding : List (UInt32 × Int32)) : List UInt32 :=
  (outstanding.map Prod.fst).dedup

namespace FilterState

/-- The occurrences after one more. -/
def occurred (s : FilterState) (exception : DmsEventPara) : List (UInt32 × Int32) :=
  (exception.eventId, exception.eventSerialNum) :: s.outstanding

/-- The occurrences after one is resumed. -/
def resumed (s : FilterState) (exception : DmsEventPara) : List (UInt32 × Int32) :=
  s.outstanding.erase (exception.eventId, exception.eventSerialNum)

/-- There is room for a further occurrence, whose serial number is not zero. -/
def MayOccur (s : FilterState) (exception : DmsEventPara) : Prop :=
  exception.eventSerialNum ≠ 0 ∧
  (serials exception.eventId (s.occurred exception)).length ≤ DMS_MAX_EVENT_NUM ∧
  (eventIds (s.occurred exception)).length ≤ DMS_MAX_EVENT_NUM

/-- The event resumes an outstanding occurrence of its id. -/
def MayResume (s : FilterState) (exception : DmsEventPara) : Prop :=
  (exception.eventId, exception.eventSerialNum) ∈ s.outstanding

instance (s : FilterState) (exception : DmsEventPara) : Decidable (s.MayOccur exception) :=
  inferInstanceAs (Decidable (_ ∧ _ ∧ _))

instance (s : FilterState) (exception : DmsEventPara) : Decidable (s.MayResume exception) :=
  inferInstanceAs (Decidable (_ ∈ _))

end FilterState

inductive FilterOp
  | occur (exception : DmsEventPara)
  | resume (exception : DmsEventPara)

def filterStep (s : FilterState) : FilterOp → Option FilterState
  | .occur exception =>
      if s.MayOccur exception then
        let (ret, list) := dmsSensorReportedOccur s.list exception true
        some
          { list
            outstanding := s.occurred exception
            lead := if ret = .none then Function.update s.lead exception.eventId
              exception.eventSerialNum else s.lead }
      else none
  | .resume exception =>
      if s.MayResume exception then
        some
          { s with
            list := (dmsSensorReportedResume s.list exception).2.1
            outstanding := s.resumed exception }
      else none

def filterMachine : Machine FilterState FilterOp where
  init s := s.list = ⟨[], 0⟩ ∧ s.outstanding = []
  step := filterStep

/-! ## The scans -/

variable {l : List DmsEventSensorReported} {node node' : DmsEventSensorReported}
variable {exception exception' : DmsEventPara}

abbrev UniqIds (l : List DmsEventSensorReported) : Prop :=
  Keyed.Uniq DmsEventSensorReported.eventId l

theorem occurEvent_of_ne (h : node.eventId ≠ exception.eventId) :
    dmsSensorReportedOccurEvent node exception = (.none, node) := by
  simp [dmsSensorReportedOccurEvent, h]

theorem resumeEvent_of_ne (h : node.eventId ≠ exception.eventId) :
    dmsSensorReportedResumeEvent node exception = (.eventNotMatch, node, exception) := by
  simp [dmsSensorReportedResumeEvent, h]

theorem occurScan_absent (h : ∀ node ∈ l, node.eventId ≠ exception.eventId) :
    occurScan l exception = (.none, l) := by
  induction l with
  | nil => rfl
  | cons node l ih =>
      obtain ⟨hne, hrest⟩ := List.forall_mem_cons.mp h
      simp only [occurScan, occurEvent_of_ne hne, ih hrest]

theorem resumeScan_absent (h : ∀ node ∈ l, node.eventId ≠ exception.eventId) :
    resumeScan l exception = (.eventNotMatch, l, exception) := by
  induction l with
  | nil => rfl
  | cons node l ih =>
      obtain ⟨hne, hrest⟩ := List.forall_mem_cons.mp h
      simp only [resumeScan, resumeEvent_of_ne hne, ih hrest]

theorem occurScan_filtered (hu : UniqIds l) (hmem : node ∈ l)
    (hid : node.eventId = exception.eventId)
    (hev : dmsSensorReportedOccurEvent node exception = (.eventNotMatch, node')) :
    occurScan l exception =
      (.eventNotMatch, Keyed.modify DmsEventSensorReported.eventId node.eventId (fun _ => node') l) := by
  induction l with
  | nil => cases hmem
  | cons other l ih =>
      rcases List.mem_cons.mp hmem with rfl | hmem
      · simp only [occurScan, hev, Keyed.modify_cons_self hu]
      · have hne := (hu.ne_of_tail hmem).symm
        simp only [occurScan, occurEvent_of_ne (hid ▸ hne), ih hu.tail hmem,
          Keyed.modify_cons_ne hne]

theorem resumeScan_filtered (hu : UniqIds l) (hmem : node ∈ l)
    (hid : node.eventId = exception.eventId)
    (hev : dmsSensorReportedResumeEvent node exception = (.eventNotMatch, node', exception)) :
    resumeScan l exception =
      (.eventNotMatch, Keyed.modify DmsEventSensorReported.eventId node.eventId (fun _ => node') l,
        exception) := by
  induction l with
  | nil => cases hmem
  | cons other l ih =>
      rcases List.mem_cons.mp hmem with rfl | hmem
      · have hrest := resumeScan_absent fun c hc => hid ▸ hu.ne_of_tail hc
        simp only [resumeScan, hev, hrest, Keyed.modify_cons_self hu]
      · have hne := (hu.ne_of_tail hmem).symm
        simp only [resumeScan, resumeEvent_of_ne (hid ▸ hne), ih hu.tail hmem,
          Keyed.modify_cons_ne hne]

theorem resumeScan_passed (hu : UniqIds l) (hmem : node ∈ l)
    (hid : node.eventId = exception.eventId)
    (hev : dmsSensorReportedResumeEvent node exception = (.none, node', exception')) :
    resumeScan l exception =
      (.none, Keyed.remove DmsEventSensorReported.eventId node.eventId l, exception') := by
  induction l with
  | nil => cases hmem
  | cons other l ih =>
      rcases List.mem_cons.mp hmem with rfl | hmem
      · simp only [resumeScan, hev, Keyed.remove_cons_self hu]
      · have hne := (hu.ne_of_tail hmem).symm
        simp only [resumeScan, resumeEvent_of_ne (hid ▸ hne), ih hu.tail hmem,
          Keyed.remove_cons_ne hne]

/-! ## Outstanding occurrences -/

section Serials

variable {outstanding : List (UInt32 × Int32)} {eventId other : UInt32} {serial : Int32}

theorem serials_cons_self :
    serials eventId ((eventId, serial) :: outstanding) = serial :: serials eventId outstanding := by
  simp [serials]

theorem serials_cons_ne (h : other ≠ eventId) :
    serials eventId ((other, serial) :: outstanding) = serials eventId outstanding := by
  simp [serials, h]

theorem mem_serials : serial ∈ serials eventId outstanding ↔ (eventId, serial) ∈ outstanding := by
  simp [serials]

theorem serials_erase_self (h : (eventId, serial) ∈ outstanding) :
    (serials eventId outstanding).Perm
      (serial :: serials eventId (outstanding.erase (eventId, serial))) := by
  rw [← serials_cons_self]
  exact ((List.perm_cons_erase h).filter _).map _

theorem serials_erase_ne (h : other ≠ eventId) :
    (serials eventId (outstanding.erase (other, serial))).Perm (serials eventId outstanding) := by
  by_cases hmem : (other, serial) ∈ outstanding
  · have hperm := ((List.perm_cons_erase hmem).filter (·.1 = eventId)).map Prod.snd
    have heq : serials eventId ((other, serial) :: outstanding.erase (other, serial)) =
      serials eventId (outstanding.erase (other, serial)) := serials_cons_ne h
    rw [← heq]
    exact hperm.symm
  · rw [List.erase_of_not_mem hmem]

theorem mem_eventIds : eventId ∈ eventIds outstanding ↔ serials eventId outstanding ≠ [] := by
  simp [eventIds, serials]

theorem nodup_eventIds : (eventIds outstanding).Nodup := List.nodup_dedup _

end Serials

/-! ## The invariant -/

/-- The record of an id holds the serial numbers of its occurrences, of which
there are some, and that of the one that passed. -/
structure ReportedOk (outstanding : List (UInt32 × Int32)) (lead : UInt32 → Int32)
    (node : DmsEventSensorReported) : Prop where
  size : node.subEventSerial.length = DMS_MAX_EVENT_NUM
  held : (Slots.held 0 node.subEventSerial).Perm (serials node.eventId outstanding)
  cnt : node.eventSerialCnt.toNat = (Slots.held 0 node.subEventSerial).length
  main : node.mainEventSerial = lead node.eventId
  live : serials node.eventId outstanding ≠ []

/-- The records are those of the ids that have occurrences. -/
structure FilterInv (s : FilterState) : Prop where
  num : s.list.reportedNum.toNat = s.list.head.length
  uniq : UniqIds s.list.head
  ok : ∀ node ∈ s.list.head, ReportedOk s.outstanding s.lead node
  listed : ∀ p ∈ s.outstanding, p.2 ≠ 0 ∧ ∃ node ∈ s.list.head, node.eventId = p.1
  few : (eventIds s.outstanding).length ≤ DMS_MAX_EVENT_NUM
  room : ∀ eventId, (serials eventId s.outstanding).length ≤ DMS_MAX_EVENT_NUM

variable {s : FilterState}

theorem ReportedOk.congr {outstanding outstanding' : List (UInt32 × Int32)}
    {lead lead' : UInt32 → Int32} (h : ReportedOk outstanding lead node)
    (hserials : (serials node.eventId outstanding).Perm (serials node.eventId outstanding'))
    (hlead : lead' node.eventId = lead node.eventId) : ReportedOk outstanding' lead' node where
  size := h.size
  held := h.held.trans hserials
  cnt := h.cnt
  main := h.main.trans hlead.symm
  live := by
    intro hnil
    rw [hnil] at hserials
    exact h.live hserials.eq_nil

namespace FilterInv

theorem node_iff (h : FilterInv s) {eventId : UInt32} :
    (∃ node ∈ s.list.head, node.eventId = eventId) ↔ serials eventId s.outstanding ≠ [] := by
  constructor
  · rintro ⟨node, hmem, rfl⟩
    exact (h.ok node hmem).live
  · intro hne
    obtain ⟨serial, hserial⟩ := List.exists_mem_of_ne_nil _ hne
    exact (h.listed _ (mem_serials.mp hserial)).2

theorem length_head (h : FilterInv s) : s.list.head.length = (eventIds s.outstanding).length := by
  have hperm : (s.list.head.map DmsEventSensorReported.eventId).Perm (eventIds s.outstanding) := by
    refine (List.perm_ext_iff_of_nodup h.uniq nodup_eventIds).mpr ?_
    intro eventId
    rw [mem_eventIds, ← h.node_iff, List.mem_map]
  simpa using hperm.length_eq

theorem reportedNum_le (h : FilterInv s) : ¬ s.list.reportedNum.toNat > DMS_MAX_EVENT_NUM := by
  rw [h.num, h.length_head]
  exact Nat.not_lt.mpr h.few

/-- An occurrence of an id that has none passes, and its id gets a record. -/
theorem occur_passed (h : FilterInv s) (hnil : serials exception.eventId s.outstanding = []) :
    dmsSensorReportedOccur s.list exception true =
      (.none, ⟨s.list.head ++ [newReported exception], s.list.reportedNum + 1⟩) := by
  have habsent : ∀ node ∈ s.list.head, node.eventId ≠ exception.eventId := by
    intro node hmem hid
    exact h.node_iff.mp ⟨node, hmem, hid⟩ hnil
  simp only [dmsSensorReportedOccur, h.reportedNum_le, if_false, occurScan_absent habsent,
    Bool.true_eq_false]

/-- The record of an id after one more occurrence. -/
def filled (node : DmsEventSensorReported) (sub : List Int32) : DmsEventSensorReported :=
  { node with subEventSerial := sub, eventSerialCnt := node.eventSerialCnt + 1 }

/-- A further occurrence of an id fills a slot of its record. -/
theorem occur_filtered (h : FilterInv s) (hmay : s.MayOccur exception)
    (hmem : node ∈ s.list.head) (hid : node.eventId = exception.eventId) :
    ∃ sub, Slots.exchange 0 exception.eventSerialNum node.subEventSerial = some sub ∧
      dmsSensorReportedOccur s.list exception true =
        (.eventNotMatch,
          ⟨Keyed.modify DmsEventSensorReported.eventId node.eventId (fun _ => filled node sub)
            s.list.head, s.list.reportedNum⟩) := by
  have hok := h.ok node hmem
  have hroom := hmay.2.1
  rw [FilterState.occurred, serials_cons_self, List.length_cons, ← hid,
    ← hok.held.length_eq, ← hok.size] at hroom
  obtain ⟨sub, hsub⟩ := Slots.exchange_free (a := exception.eventSerialNum) hroom
  refine ⟨sub, hsub, ?_⟩
  have hev : dmsSensorReportedOccurEvent node exception = (.eventNotMatch, filled node sub) := by
    simp only [dmsSensorReportedOccurEvent, hid, if_true, hsub, filled]
  simp only [dmsSensorReportedOccur, h.reportedNum_le, if_false,
    occurScan_filtered h.uniq hmem hid hev]

/-- The record of an id after an occurrence is resumed. -/
def cleared (node : DmsEventSensorReported) (sub : List Int32) : DmsEventSensorReported :=
  { node with subEventSerial := sub, eventSerialCnt := node.eventSerialCnt - 1 }

/-- The slot of a resumed occurrence is found, and what is left of the record
holds the other occurrences of the id. -/
theorem cleared_ok (h : FilterInv s) (hmay : s.MayResume exception) (hmem : node ∈ s.list.head)
    (hid : node.eventId = exception.eventId) :
    ∃ sub, Slots.exchange exception.eventSerialNum 0 node.subEventSerial = some sub ∧
      sub.length = DMS_MAX_EVENT_NUM ∧
      (Slots.held 0 sub).Perm (serials node.eventId (s.resumed exception)) ∧
      (cleared node sub).eventSerialCnt.toNat = (Slots.held 0 sub).length := by
  have hok := h.ok node hmem
  have hne : exception.eventSerialNum ≠ 0 := (h.listed _ hmay).1
  have hheld : exception.eventSerialNum ∈ Slots.held 0 node.subEventSerial := by
    rw [hok.held.mem_iff, mem_serials, hid]
    exact hmay
  obtain ⟨sub, hsub⟩ := Option.ne_none_iff_exists'.mp fun hnone =>
    Slots.exchange_eq_none.mp hnone (Slots.mem_held.mp hheld).1
  have hclear := Slots.held_clear hne hsub
  have hserials := serials_erase_self hmay
  rw [← hid] at hserials
  refine ⟨sub, hsub, (Slots.length_exchange hsub).trans hok.size, ?_, ?_⟩
  · have hperm := (hclear.trans hok.held).trans hserials
    rw [FilterState.resumed, ← hid]
    exact (List.perm_cons _).mp hperm
  · have hlen := hclear.length_eq
    rw [List.length_cons, ← hok.cnt] at hlen
    have hone : (1 : UInt32) ≤ node.eventSerialCnt := by
      rw [UInt32.le_iff_toNat_le, UInt32.toNat_one]
      omega
    rw [cleared, UInt32.toNat_sub_of_le _ _ hone, UInt32.toNat_one]
    omega

/-- A resume that leaves occurrences of its id is filtered; one that leaves none
deletes the record and passes with the serial number of the occurrence that did. -/
theorem resume_cases (h : FilterInv s) (hmay : s.MayResume exception) (hmem : node ∈ s.list.head)
    (hid : node.eventId = exception.eventId) :
    (∃ sub, ReportedOk (s.resumed exception) s.lead (cleared node sub) ∧
      dmsSensorReportedResume s.list exception =
        (.eventNotMatch,
          ⟨Keyed.modify DmsEventSensorReported.eventId node.eventId (fun _ => cleared node sub)
            s.list.head, s.list.reportedNum⟩, exception)) ∨
    (serials exception.eventId (s.resumed exception) = [] ∧
      dmsSensorReportedResume s.list exception =
        (.none,
          ⟨Keyed.remove DmsEventSensorReported.eventId node.eventId s.list.head,
            s.list.reportedNum - 1⟩,
          { exception with eventSerialNum := s.lead exception.eventId })) := by
  obtain ⟨sub, hsub, hsize, hheld, hcnt⟩ := h.cleared_ok hmay hmem hid
  have hmain := (h.ok node hmem).main
  by_cases hzero : (cleared node sub).eventSerialCnt = 0
  · right
    have hev : dmsSensorReportedResumeEvent node exception =
        (.none, cleared node sub, { exception with eventSerialNum := node.mainEventSerial }) := by
      simp only [cleared] at hzero
      simp only [dmsSensorReportedResumeEvent, hid, if_true, hsub, cleared, hzero]
    rw [hzero] at hcnt
    constructor
    · rw [← hid, ← List.length_eq_zero_iff, ← hheld.length_eq, ← hcnt]
      rfl
    · rw [dmsSensorReportedResume, resumeScan_passed h.uniq hmem hid hev, hmain, hid]
  · left
    have hev : dmsSensorReportedResumeEvent node exception =
        (.eventNotMatch, cleared node sub, exception) := by
      simp only [cleared] at hzero
      simp only [dmsSensorReportedResumeEvent, hid, if_true, hsub, cleared, hzero, if_false]
    refine ⟨sub, ⟨hsize, hheld, hcnt, hmain, ?_⟩, ?_⟩
    · intro hnil
      have hlen := hheld.length_eq
      simp only [cleared] at hnil
      rw [hnil, ← hcnt, List.length_nil] at hlen
      exact hzero (UInt32.toNat_inj.mp hlen)
    · rw [dmsSensorReportedResume, resumeScan_filtered h.uniq hmem hid hev]

/-- Rewriting the record of an id whose occurrences change keeps the invariant. -/
theorem rewrite (h : FilterInv s) {outstanding : List (UInt32 × Int32)} (hmem : node ∈ s.list.head)
    (hid : node'.eventId = node.eventId) (hok : ReportedOk outstanding s.lead node')
    (hothers : ∀ eventId ≠ node.eventId,
      (serials eventId s.outstanding).Perm (serials eventId outstanding))
    (hlisted : ∀ p ∈ outstanding, p.2 ≠ 0 ∧ (p.1 = node.eventId ∨ p ∈ s.outstanding))
    (hfew : (eventIds outstanding).length ≤ DMS_MAX_EVENT_NUM)
    (hroom : (serials node.eventId outstanding).length ≤ DMS_MAX_EVENT_NUM) :
    FilterInv
      { list := ⟨Keyed.modify DmsEventSensorReported.eventId node.eventId (fun _ => node')
          s.list.head, s.list.reportedNum⟩
        outstanding
        lead := s.lead } := by
  have hfocus := h.uniq.focus hmem
  have hfocus' : Keyed.Focus _ (Keyed.modify DmsEventSensorReported.eventId node.eventId
    (fun _ => node') s.list.head) node' _ := hfocus.modify hid
  refine ⟨?_, ?_, ?_, ?_, hfew, ?_⟩
  · rw [h.num, hfocus.perm.length_eq, hfocus'.perm.length_eq, List.length_cons, List.length_cons]
  · refine Keyed.Uniq.perm (Keyed.Uniq.cons ?_ ?_) hfocus'.perm.symm
    · exact h.uniq.unlink
    · exact hfocus'.apart
  · intro other hother
    rcases hfocus'.mem_iff.mp hother with rfl | hrest
    · exact hok
    · exact (h.ok other (Keyed.mem_remove.mp hrest).1).congr
        (hothers other.eventId (Keyed.mem_remove.mp hrest).2) rfl
  · intro p hp
    obtain ⟨hne, hp | hp⟩ := hlisted p hp
    · exact ⟨hne, node', hfocus'.mem, hid.trans hp.symm⟩
    · obtain ⟨other, hother, hother'⟩ := (h.listed p hp).2
      rcases hfocus.mem_iff.mp hother with rfl | hrest
      · exact ⟨hne, node', hfocus'.mem, hid.trans hother'⟩
      · exact ⟨hne, other, hfocus'.mem_iff.mpr (.inr hrest), hother'⟩
  · intro eventId
    by_cases heq : eventId = node.eventId
    · rwa [heq]
    · rw [← (hothers eventId heq).length_eq]
      exact h.room eventId

theorem newReported_ok {outstanding : List (UInt32 × Int32)} {lead : UInt32 → Int32}
    (hne : exception.eventSerialNum ≠ 0)
    (hserials : serials exception.eventId outstanding = [exception.eventSerialNum])
    (hlead : lead exception.eventId = exception.eventSerialNum) :
    ReportedOk outstanding lead (newReported exception) := by
  have hheld : Slots.held 0 (newReported exception).subEventSerial =
      [exception.eventSerialNum] := Slots.held_new hne
  refine ⟨?_, ?_, ?_, hlead.symm, ?_⟩
  · rw [newReported, List.length_cons, List.length_replicate]
    rfl
  · rw [hheld]
    exact .of_eq hserials.symm
  · rw [hheld]
    rfl
  · rw [show (newReported exception).eventId = exception.eventId from rfl, hserials]
    exact List.cons_ne_nil _ _

/-- The occurrences of the other ids are as before. -/
theorem serials_occurred_ne {eventId : UInt32} (h : eventId ≠ exception.eventId) :
    serials eventId (s.occurred exception) = serials eventId s.outstanding :=
  serials_cons_ne (Ne.symm h)

theorem occur (h : FilterInv s) (hmay : s.MayOccur exception) {t : FilterState}
    (hstep : filterStep s (.occur exception) = some t) : FilterInv t := by
  simp only [filterStep, hmay, if_true, Option.some.injEq] at hstep
  obtain ⟨hne, hroom, hfew⟩ := hmay
  by_cases hnil : serials exception.eventId s.outstanding = []
  · rw [h.occur_passed hnil] at hstep
    subst hstep
    have hold : ∀ node ∈ s.list.head, node.eventId ≠ exception.eventId := by
      intro node hmem hid
      exact h.node_iff.mp ⟨node, hmem, hid⟩ hnil
    refine ⟨?_, ?_, ?_, ?_, hfew, ?_⟩
    · have hlt : s.list.head.length ≤ 512 := h.length_head ▸ h.few
      rw [UInt32.toNat_add, UInt32.toNat_one, h.num, List.length_append, List.length_singleton]
      omega
    · exact (h.uniq.cons hold).perm (List.perm_append_singleton (newReported exception) _).symm
    · intro node hmem
      rcases List.mem_append.mp hmem with hmem | hmem
      · refine (h.ok node hmem).congr (.of_eq (serials_occurred_ne (hold node hmem)).symm) ?_
        simp [hold node hmem]
      · rw [List.mem_singleton.mp hmem]
        refine newReported_ok hne ?_ (by simp)
        rw [FilterState.occurred, serials_cons_self, hnil]
    · intro p hp
      rcases List.mem_cons.mp hp with rfl | hp
      · exact ⟨hne, newReported exception, by simp, rfl⟩
      · obtain ⟨hp0, node, hmem, hid⟩ := h.listed p hp
        exact ⟨hp0, node, List.mem_append_left _ hmem, hid⟩
    · intro eventId
      by_cases heq : eventId = exception.eventId
      · rwa [heq]
      · simpa only [serials_occurred_ne heq] using h.room eventId
  · obtain ⟨node, hmem, hid⟩ := h.node_iff.mpr hnil
    obtain ⟨sub, hsub, hret⟩ := h.occur_filtered ⟨hne, hroom, hfew⟩ hmem hid
    have hok := h.ok node hmem
    have hfill := Slots.held_fill hne hsub
    have hserials : serials node.eventId (s.occurred exception) =
        exception.eventSerialNum :: serials node.eventId s.outstanding := by
      rw [FilterState.occurred, ← hid, serials_cons_self]
    rw [hret] at hstep
    subst hstep
    refine h.rewrite hmem rfl ⟨?_, ?_, ?_, hok.main, ?_⟩ ?_ ?_ hfew (hid ▸ hroom)
    · exact (Slots.length_exchange hsub).trans hok.size
    · simp only [filled, hserials]
      exact hfill.trans (hok.held.cons _)
    · have hlt : (Slots.held 0 node.subEventSerial).length ≤ 512 := by
        rw [hok.held.length_eq]
        exact h.room _
      simp only [filled]
      rw [UInt32.toNat_add, UInt32.toNat_one, hok.cnt, hfill.length_eq, List.length_cons]
      omega
    · simp only [filled, hserials]
      exact List.cons_ne_nil _ _
    · intro eventId hother
      rw [serials_occurred_ne (hid ▸ hother)]
    · intro p hp
      rcases List.mem_cons.mp hp with rfl | hp
      · exact ⟨hne, .inl hid.symm⟩
      · exact ⟨(h.listed p hp).1, .inr hp⟩

theorem eventIds_resumed : (eventIds (s.resumed exception)).length ≤ (eventIds s.outstanding).length := by
  apply List.Subperm.length_le
  apply List.subperm_of_subset nodup_eventIds
  intro eventId hmem
  rw [eventIds, List.mem_dedup, List.mem_map] at hmem ⊢
  obtain ⟨p, hp, rfl⟩ := hmem
  exact ⟨p, List.mem_of_mem_erase hp, rfl⟩

theorem length_serials_resumed {eventId : UInt32} :
    (serials eventId (s.resumed exception)).length ≤ (serials eventId s.outstanding).length := by
  exact ((List.erase_sublist.filter _).map _).length_le

theorem resume (h : FilterInv s) (hmay : s.MayResume exception) {t : FilterState}
    (hstep : filterStep s (.resume exception) = some t) : FilterInv t := by
  simp only [filterStep, hmay, if_true, Option.some.injEq] at hstep
  subst hstep
  obtain ⟨node, hmem, hid⟩ := (h.listed _ hmay).2
  have hid : node.eventId = exception.eventId := hid
  have hfew : (eventIds (s.resumed exception)).length ≤ DMS_MAX_EVENT_NUM :=
    Nat.le_trans eventIds_resumed h.few
  have hroom (eventId : UInt32) :
      (serials eventId (s.resumed exception)).length ≤ DMS_MAX_EVENT_NUM :=
    Nat.le_trans length_serials_resumed (h.room eventId)
  have hothers : ∀ eventId ≠ node.eventId,
      (serials eventId s.outstanding).Perm (serials eventId (s.resumed exception)) :=
    fun eventId hne => (serials_erase_ne (hid ▸ hne.symm)).symm
  obtain ⟨sub, hok, hret⟩ | ⟨hnil, hret⟩ := h.resume_cases hmay hmem hid
  · rw [hret]
    refine h.rewrite hmem rfl hok hothers ?_ hfew (hroom _)
    intro p hp
    have hp := List.mem_of_mem_erase hp
    exact ⟨(h.listed p hp).1, .inr hp⟩
  · rw [hret]
    have hfocus := h.uniq.focus hmem
    have hlen := hfocus.perm.length_eq
    rw [List.length_cons, ← h.num] at hlen
    refine ⟨?_, h.uniq.unlink, ?_, ?_, hfew, hroom⟩
    · change (s.list.reportedNum - 1).toNat = (Keyed.remove _ _ s.list.head).length
      have hone : (1 : UInt32) ≤ s.list.reportedNum := by
        rw [UInt32.le_iff_toNat_le, UInt32.toNat_one]
        omega
      rw [UInt32.toNat_sub_of_le _ _ hone, UInt32.toNat_one]
      omega
    · intro other hother
      obtain ⟨hother, hne⟩ := Keyed.mem_remove.mp hother
      exact (h.ok other hother).congr (hothers _ hne) rfl
    · intro p hp
      obtain ⟨hp0, other, hother, hother'⟩ := h.listed p (List.mem_of_mem_erase hp)
      refine ⟨hp0, other, Keyed.mem_remove.mpr ⟨hother, ?_⟩, hother'⟩
      intro heq
      have hin : p.2 ∈ serials exception.eventId (s.resumed exception) := by
        rw [mem_serials, ← hid, ← heq, hother']
        exact hp
      rw [hnil] at hin
      cases hin

theorem of_reach (h : filterMachine.Reach s) : FilterInv s := by
  refine h.invariant ?_ ?_
  · rintro ⟨list, outstanding, lead⟩ ⟨rfl, rfl⟩
    exact ⟨rfl, by simp [Keyed.Uniq], by simp, by simp, by simp [eventIds], by simp [serials]⟩
  · intro s op t hs _ hstep
    cases op with
    | occur exception =>
        by_cases hmay : s.MayOccur exception
        · exact hs.occur hmay hstep
        · simp [filterMachine, filterStep, hmay] at hstep
    | resume exception =>
        by_cases hmay : s.MayResume exception
        · exact hs.resume hmay hstep
        · simp [filterMachine, filterStep, hmay] at hstep

end FilterInv

/-- After every sequence of occurrences and resumes: a further occurrence passes
exactly if none of its id is outstanding; a resume passes exactly if it ends the
last one of its id, with the serial number of the occurrence that passed; and the
records are counted right. -/
theorem sensor_filter (h : filterMachine.Reach s) :
    (∀ exception, s.MayOccur exception →
      (dmsSensorReportedOccur s.list exception true).1 =
        if serials exception.eventId s.outstanding = [] then .none else .eventNotMatch) ∧
    (∀ exception, s.MayResume exception →
      let result := dmsSensorReportedResume s.list exception
      if serials exception.eventId (s.resumed exception) = [] then
        result.1 = .none ∧
          result.2.2 = { exception with eventSerialNum := s.lead exception.eventId }
      else result.1 = .eventNotMatch) ∧
    (∀ node ∈ s.list.head,
      node.eventSerialCnt.toNat = node.subEventSerial.countP (· ≠ 0)) ∧
    (s.list.head.map DmsEventSensorReported.eventId).Nodup ∧
    s.list.reportedNum.toNat = s.list.head.length := by
  have hinv := FilterInv.of_reach h
  refine ⟨?_, ?_, ?_, hinv.uniq, hinv.num⟩
  · intro exception hmay
    by_cases hnil : serials exception.eventId s.outstanding = []
    · rw [hinv.occur_passed hnil, if_pos hnil]
    · obtain ⟨node, hmem, hid⟩ := hinv.node_iff.mpr hnil
      obtain ⟨sub, -, hret⟩ := hinv.occur_filtered hmay hmem hid
      rw [hret, if_neg hnil]
  · intro exception hmay
    obtain ⟨node, hmem, hid⟩ := (hinv.listed _ hmay).2
    obtain ⟨sub, hok, hret⟩ | ⟨hnil, hret⟩ := hinv.resume_cases hmay hmem hid
    · have hlive : serials exception.eventId (s.resumed exception) ≠ [] := by
        have hid : node.eventId = exception.eventId := hid
        rw [← hid]
        exact hok.live
      rw [hret]
      simp only [hlive, if_false]
    · rw [hret]
      simp only [hnil, if_true, true_and]
  · intro node hmem
    rw [(hinv.ok node hmem).cnt, Slots.length_held]

def sensorEvent (eventId : UInt32) (serial : Int32) : DmsEventPara :=
  { (default : DmsEventPara) with eventId := eventId, eventSerialNum := serial }

/-- Of two occurrences of an id the first is resumed. -/
def oneLeft : FilterState :=
  filterMachine.final ⟨⟨[], 0⟩, [], fun _ => 0⟩
    [.occur (sensorEvent 5 1), .occur (sensorEvent 5 2), .resume (sensorEvent 5 1)]

theorem sensor_filter_last :
    let result := dmsSensorReportedResume oneLeft.list (sensorEvent 5 2)
    result.1 = .none ∧ result.2.2 = sensorEvent 5 1 := by
  have hreach : filterMachine.Reach oneLeft := .final (.start ⟨rfl, rfl⟩) (by decide +kernel)
  have hpass := (sensor_filter hreach).2.1 (sensorEvent 5 2) (by decide +kernel)
  have hid : (sensorEvent 5 2).eventId = 5 := rfl
  have hnil : serials 5 (oneLeft.resumed (sensorEvent 5 2)) = [] := by decide +kernel
  have hlead : oneLeft.lead 5 = 1 := by decide +kernel
  simp only [hid, hnil, hlead, if_true] at hpass
  exact hpass

end OpiaiKernel.Dms
