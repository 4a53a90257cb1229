import OpiaiKernel.Hdc.HdcError
import OpiaiKernel.Lib.BackPointer
import OpiaiKernel.Lib.Machine
import Mathlib.Algebra.Ring.Int.Defs

/-!
# The objects of an epoll descriptor

A descriptor has a list of services and a list of sessions, a counter of both and an
array for the events of a collection.  An object points back to its descriptor.

The functions are translated from `hdcdrv_epoll.c`.  A section under the mutex of a
descriptor is one step, as are the marking of a descriptor as valid, its
initialisation after that, and the check at the beginning of each call.
-/

namespace OpiaiKernel.Hdc

abbrev HDCDRV_EPOLL_CONN_IN : UInt32 := 1

abbrev HDCDRV_EPOLL_DATA_IN : UInt32 := 2

abbrev HDCDRV_EPOLL_FAST_DATA_IN : UInt32 := 4

abbrev HDCDRV_EPOLL_SESSION_CLOSE : UInt32 := 8

abbrev HDCDRV_EPOLL_FD_EVENT_NUM : ℕ := 1024

/-- `struct hdcdrv_event`. -/
structure HdcdrvEvent where
  events : UInt32
  subData : Int32
  data : UInt64
  deriving DecidableEq, Inhabited

/-- `struct hdcdrv_epoll_list_node`. -/
structure EpollNode (O : Type*) where
  inst : O
  events : HdcdrvEvent
  deriving DecidableEq

/-- What epoll reads of a service. -/
structure ServiceView where
  listenValid : Bool
  listenPid : UInt64
  connReady : Bool
  deriving DecidableEq

/-- Head and tail of a receive list. -/
structure RxList where
  head : UInt32
  tail : UInt32
  deriving DecidableEq

/-- What epoll reads of a session. -/
structure SessionView where
  idle : Bool
  ownerPid : UInt64
  normalRx : RxList
  fastRx : RxList
  deriving DecidableEq

/-- `struct hdcdrv_epoll_fd`; `events` is the number of entries of the array, if there is
one. -/
structure EpollFd (S T : Type*) where
  valid : Bool
  pid : UInt64
  size : ℤ
  eventNum : ℤ
  serviceList : List (EpollNode S)
  sessionList : List (EpollNode T)
  events : Option ℕ
  array : ℕ → HdcdrvEvent

/-- The number of registered objects. -/
def EpollFd.nodes {S T : Type*} (epfd : EpollFd S T) : ℕ :=
  epfd.serviceList.length + epfd.sessionList.length

/-- The next section of a call. -/
inductive EpollCall (F S T : Type*)
  | idle
  | add (fd : F) (event : HdcdrvEvent) (service : S) (session : T)
  | del (fd : F) (event : HdcdrvEvent) (service : S) (session : T)
  | wait (fd : F) (maxevents : ℕ)
  | asleep (fd : F) (maxevents : ℕ)
  | clear (fd : F)
  | invalidate (fd : F)
  | init (fd : F) (size : ℕ) (pid : UInt64)
  deriving DecidableEq

structure EpollState (K F S T : Type*) where
  epfds : F → EpollFd S T
  service : S → ServiceView
  session : T → SessionView
  serviceEpfd : S → Option F
  sessionEpfd : T → Option F
  call : K → EpollCall F S T

inductive EpollAct (K F S T : Type*)
  | add (k : K) (fd : F) (pid : UInt64) (event : HdcdrvEvent) (service : S) (session : T)
  | del (k : K) (fd : F) (pid : UInt64) (event : HdcdrvEvent) (service : S) (session : T)
  | wait (k : K) (fd : F) (pid : UInt64) (maxevents : ℕ)
  | free (k : K) (fd : F) (pid : UInt64)
  | recycle (k : K) (fd : F)
  | alloc (k : K) (size : ℕ) (pid : UInt64)
  | run (k : K)
  | wake (k : K) (woken : Bool)
  | setService (service : S) (view : ServiceView)
  | setSession (session : T) (view : SessionView)
  deriving DecidableEq

/-! ## The collection -/

/-- The array during a collection, the entries that were written and the next entry. -/
structure Collection where
  array : ℕ → HdcdrvEvent
  writes : List ℕ
  eventNum : ℕ

namespace Collection

def write (c : Collection) (event : HdcdrvEvent) : Collection :=
  { c with
    array := Function.update c.array c.eventNum event
    writes := c.eventNum :: c.writes }

def next (c : Collection) : Collection := { c with eventNum := c.eventNum + 1 }

end Collection

section Collect

variable {S T : Type*} (service : S → ServiceView) (session : T → SessionView)

/-- One round of `hdcdrv_epoll_service_event_num`. -/
def collectService (c : Collection) (node : EpollNode S) : Collection :=
  if (service node.inst).connReady then
    (c.write { node.events with events := HDCDRV_EPOLL_CONN_IN }).next
  else c

/-- Whether the data of a receive list are reported. -/
def rxReady (pid : UInt64) (view : SessionView) (events : UInt32) (rx : RxList) : Bool :=
  events ≠ 0 ∧ rx.head ≠ rx.tail ∧ pid = view.ownerPid

def collectRx (c : Collection) (event : HdcdrvEvent) (flag : UInt32) (ready : Bool) :
    Collection :=
  if ready then c.write { event with events := (c.array c.eventNum).events ||| flag } else c

/-- One round of `hdcdrv_epoll_session_event_num`. -/
def collectSession (pid : UInt64) (c : Collection) (node : EpollNode T) : Collection :=
  let c := c.write { c.array c.eventNum with events := 0 }
  let view := session node.inst
  if view.idle ∨ pid ≠ view.ownerPid then
    (c.write { node.events with events := HDCDRV_EPOLL_SESSION_CLOSE }).next
  else
    let dataIn := rxReady pid view (node.events.events &&& HDCDRV_EPOLL_DATA_IN) view.normalRx
    let fastIn := rxReady pid view (node.events.events &&& HDCDRV_EPOLL_FAST_DATA_IN) view.fastRx
    let c := collectRx c node.events HDCDRV_EPOLL_DATA_IN dataIn
    let c := collectRx c node.events HDCDRV_EPOLL_FAST_DATA_IN fastIn
    if dataIn ∨ fastIn then c.next else c

def hdcdrvEpollEventNum (epfd : EpollFd S T) : Collection :=
  let c := epfd.serviceList.foldl (collectService service) ⟨epfd.array, [], 0⟩
  epfd.sessionList.foldl (collectSession session epfd.pid) c

/-- What `hdcdrv_copy_event_to_user` gives out. -/
def hdcdrvCopyEventToUser (epfd : EpollFd S T) (c : Collection) (maxevents : ℕ) :
    Except HdcError (List HdcdrvEvent) :=
  let readyEvent := if c.eventNum > maxevents then maxevents else c.eventNum
  if c.eventNum = 0 then .ok []
  else if (readyEvent : ℤ) > epfd.size then .error .paraErr
  else .ok ((List.range readyEvent).map c.array)

end Collect

/-! ## The sections -/

variable {K F S T : Type*} [DecidableEq K] [DecidableEq F] [DecidableEq S] [DecidableEq T]

namespace EpollState

def setFd (s : EpollState K F S T) (fd : F) (epfd : EpollFd S T) : EpollState K F S T :=
  { s with epfds := Function.update s.epfds fd epfd }

def setCall (s : EpollState K F S T) (k : K) (call : EpollCall F S T) : EpollState K F S T :=
  { s with call := Function.update s.call k call }

def addService (s : EpollState K F S T) (fd : F) (event : HdcdrvEvent) (service : S) :
    Except HdcError (EpollState K F S T) :=
  let epfd := s.epfds fd
  if (s.service service).listenValid = false then .error .err
  else if (s.service service).listenPid ≠ epfd.pid then .error .noPermission
  else if s.serviceEpfd service ≠ none then .error .err
  else .ok
    { s.setFd fd { epfd with serviceList := ⟨service, event⟩ :: epfd.serviceList } with
      serviceEpfd := Function.update s.serviceEpfd service (some fd) }

def addSession (s : EpollState K F S T) (fd : F) (event : HdcdrvEvent) (session : T) :
    Except HdcError (EpollState K F S T) :=
  let epfd := s.epfds fd
  if (s.session session).idle = true then .error .sessionHasClosed
  else if (s.session session).ownerPid ≠ epfd.pid then .error .noPermission
  else if s.sessionEpfd session ≠ none then .error .err
  else .ok
    { s.setFd fd { epfd with sessionList := ⟨session, event⟩ :: epfd.sessionList } with
      sessionEpfd := Function.update s.sessionEpfd session (some fd) }

/-- Add `n` to the counter. -/
def count (s : EpollState K F S T) (fd : F) (n : ℤ) : EpollState K F S T :=
  s.setFd fd { s.epfds fd with eventNum := (s.epfds fd).eventNum + n }

def addEvent (s : EpollState K F S T) (fd : F) (event : HdcdrvEvent) (service : S)
    (session : T) : Except HdcError (EpollState K F S T) :=
  if (s.epfds fd).eventNum ≥ (s.epfds fd).size then .error .err
  else
    let added :=
      if event.events &&& HDCDRV_EPOLL_CONN_IN ≠ 0 then s.addService fd event service
      else s.addSession fd event session
    added.map fun s => s.count fd 1

def delService (s : EpollState K F S T) (fd : F) (service : S) :
    Except HdcError (EpollState K F S T) :=
  let epfd := s.epfds fd
  if service ∈ epfd.serviceList.map EpollNode.inst then .ok
    { s.setFd fd { epfd with
        serviceList := epfd.serviceList.eraseP fun node => node.inst = service } with
      serviceEpfd := Function.update s.serviceEpfd service none }
  else .error .err

def delSession (s : EpollState K F S T) (fd : F) (session : T) :
    Except HdcError (EpollState K F S T) :=
  let epfd := s.epfds fd
  if session ∈ epfd.sessionList.map EpollNode.inst then .ok
    { s.setFd fd { epfd with
        sessionList := epfd.sessionList.eraseP fun node => node.inst = session } with
      sessionEpfd := Function.update s.sessionEpfd session none }
  else .error .err

def delEvent (s : EpollState K F S T) (fd : F) (event : HdcdrvEvent) (service : S)
    (session : T) : Except HdcError (EpollState K F S T) :=
  let deleted :=
    if event.events &&& HDCDRV_EPOLL_CONN_IN ≠ 0 then s.delService fd service
    else s.delSession fd session
  deleted.map fun s => s.count fd (-1)

/-- The first section of `hdcdrv_epoll_free_fd_handle`. -/
def clearLists (s : EpollState K F S T) (fd : F) : EpollState K F S T :=
  let epfd := s.epfds fd
  { s.setFd fd { epfd with serviceList := [], sessionList := [] } with
    serviceEpfd := epfd.serviceList.foldl
      (fun owner node => Function.update owner node.inst none) s.serviceEpfd
    sessionEpfd := epfd.sessionList.foldl
      (fun owner node => Function.update owner node.inst none) s.sessionEpfd }

/-- The second section of `hdcdrv_epoll_free_fd_handle`. -/
def invalidate (s : EpollState K F S T) (fd : F) : EpollState K F S T :=
  if (s.epfds fd).valid = true then
    s.setFd fd { s.epfds fd with valid := false, events := none }
  else s

/-- The end of `hdcdrv_epoll_alloc_fd`. -/
def allocFdInit (s : EpollState K F S T) (fd : F) (size : ℕ) (pid : UInt64) :
    EpollState K F S T :=
  s.setFd fd
    { s.epfds fd with
      pid := pid
      size := size
      eventNum := 0
      events := some size
      array := fun _ => default }

/-- The collection of `fd` in this state. -/
def eventNum (s : EpollState K F S T) (fd : F) : Collection :=
  hdcdrvEpollEventNum s.service s.session (s.epfds fd)

def collect (s : EpollState K F S T) (fd : F) : EpollState K F S T :=
  s.setFd fd { s.epfds fd with array := (s.eventNum fd).array }

/-- `hdcdrv_epoll_fd_check`. -/
def fdCheck (s : EpollState K F S T) (fd : F) (pid : UInt64) : Bool :=
  (s.epfds fd).valid = true ∧ (s.epfds fd).pid = pid

/-- The state after a section that may fail. -/
def orKeep (s : EpollState K F S T) : Except HdcError (EpollState K F S T) → EpollState K F S T
  | .ok t => t
  | .error _ => s

/-- The next section of a call. -/
def runCall (s : EpollState K F S T) (k : K) : Option (EpollState K F S T) :=
  match s.call k with
  | .idle => none
  | .add fd event service session =>
      some ((s.orKeep (s.addEvent fd event service session)).setCall k .idle)
  | .del fd event service session =>
      some ((s.orKeep (s.delEvent fd event service session)).setCall k .idle)
  | .wait fd maxevents =>
      if (s.eventNum fd).eventNum = 0 then some ((s.collect fd).setCall k (.asleep fd maxevents))
      else some ((s.collect fd).setCall k .idle)
  | .asleep _ _ => none
  | .clear fd => some ((s.clearLists fd).setCall k (.invalidate fd))
  | .invalidate fd => some ((s.invalidate fd).setCall k .idle)
  | .init fd size pid => some ((s.allocFdInit fd size pid).setCall k .idle)

/-- The section of a waiter after its sleep. -/
def wake (s : EpollState K F S T) (k : K) (woken : Bool) : Option (EpollState K F S T) :=
  match s.call k with
  | .asleep fd maxevents =>
      if (s.epfds fd).valid = false then some (s.setCall k .idle)
      else if (s.eventNum fd).eventNum = 0 ∧ woken = true then
        some ((s.collect fd).setCall k (.asleep fd maxevents))
      else some ((s.collect fd).setCall k .idle)
  | _ => none

/-- The first descriptor that is not valid. -/
def idleFd (s : EpollState K F S T) (fds : List F) : Option F :=
  fds.find? fun fd => (s.epfds fd).valid = false

variable (fds : List F)

/-- A call begins, or the section of one runs. -/
def step (s : EpollState K F S T) : EpollAct K F S T → Option (EpollState K F S T)
  | .add k fd pid event service session =>
      if s.call k = .idle ∧ s.fdCheck fd pid then
        some (s.setCall k (.add fd event service session))
      else none
  | .del k fd pid event service session =>
      if s.call k = .idle ∧ s.fdCheck fd pid then
        some (s.setCall k (.del fd event service session))
      else none
  | .wait k fd pid maxevents =>
      if s.call k = .idle ∧ s.fdCheck fd pid then some (s.setCall k (.wait fd maxevents))
      else none
  | .free k fd pid =>
      if s.call k = .idle ∧ s.fdCheck fd pid then some (s.setCall k (.clear fd)) else none
  | .recycle k fd => if s.call k = .idle then some (s.setCall k (.clear fd)) else none
  | .alloc k size pid =>
      if s.call k = .idle ∧ 0 < size ∧ size ≤ HDCDRV_EPOLL_FD_EVENT_NUM then
        (s.idleFd fds).map fun fd =>
          (s.setFd fd { s.epfds fd with valid := true }).setCall k (.init fd size pid)
      else none
  | .run k => s.runCall k
  | .wake k woken => s.wake k woken
  | .setService service view => some { s with service := Function.update s.service service view }
  | .setSession session view => some { s with session := Function.update s.session session view }

end EpollState

/-- All descriptors are free and no object is registered. -/
def epollMachine (fds : List F) : Machine (EpollState K F S T) (EpollAct K F S T) where
  init s :=
    (∀ fd, (s.epfds fd).valid = false ∧ (s.epfds fd).size = 0 ∧ (s.epfds fd).eventNum = 0 ∧
      (s.epfds fd).serviceList = [] ∧ (s.epfds fd).sessionList = [] ∧
      (s.epfds fd).events = none) ∧
    (∀ service, s.serviceEpfd service = none) ∧ (∀ session, s.sessionEpfd session = none) ∧
    ∀ k, s.call k = .idle
  step := EpollState.step fds

/-! ## What a collection writes -/

/-- The collection has passed `n` nodes, has written entries below `m` and has the next
entry behind entries that satisfy `Q`. -/
structure Collected (Q : HdcdrvEvent → Prop) (n m : ℕ) (c : Collection) : Prop where
  num : c.eventNum ≤ n
  writes : ∀ i ∈ c.writes, i < m
  entries : ∀ i < c.eventNum, Q (c.array i)

section Collected

variable {Q : HdcdrvEvent → Prop} {n m : ℕ} {c : Collection}

theorem Collected.mono (h : Collected Q n m c) {n' m' : ℕ} (hn : n ≤ n') (hm : m ≤ m') :
    Collected Q n' m' c where
  num := Nat.le_trans h.num hn
  writes i hi := Nat.lt_of_lt_of_le (h.writes i hi) hm
  entries := h.entries

theorem Collected.write (h : Collected Q n m c) (hnm : n < m) (event : HdcdrvEvent) :
    Collected Q n m (c.write event) where
  num := h.num
  writes i hi := by
    rcases List.mem_cons.mp hi with rfl | hi
    · exact Nat.lt_of_le_of_lt h.num hnm
    · exact h.writes i hi
  entries i hi := by
    have hi' : i < c.eventNum := hi
    have hkeep : (c.write event).array i = c.array i := Function.update_of_ne (Nat.ne_of_lt hi') _ _
    rw [hkeep]
    exact h.entries i hi'

/-- An entry is kept when it satisfies `Q`. -/
theorem Collected.next (h : Collected Q n m c) (hlast : Q (c.array c.eventNum)) :
    Collected Q (n + 1) m c.next where
  num := Nat.succ_le_succ h.num
  writes := h.writes
  entries i hi := by
    rcases Nat.lt_succ_iff_lt_or_eq.mp hi with hlt | rfl
    · exact h.entries i hlt
    · exact hlast

theorem Collected.foldl {N : Type*} {f : Collection → N → Collection} {l : List N}
    (hf : ∀ node ∈ l, ∀ n c, Collected Q n n c → Collected Q (n + 1) (n + 1) (f c node))
    (h : Collected Q n n c) : Collected Q (n + l.length) (n + l.length) (l.foldl f c) := by
  induction l generalizing n c with
  | nil => exact h
  | cons node l ih =>
      have hhead := hf node List.mem_cons_self n c h
      have htail := ih (fun node hnode => hf node (List.mem_cons_of_mem _ hnode)) hhead
      rw [List.length_cons, Nat.add_comm l.length 1, ← Nat.add_assoc]
      exact htail

end Collected

section Nodes

variable {S T : Type*} {service : S → ServiceView} {session : T → SessionView}
  {Q : HdcdrvEvent → Prop} {n : ℕ} {c : Collection}

@[simp] theorem Collection.array_write (c : Collection) (event : HdcdrvEvent) :
    (c.write event).array (c.write event).eventNum = event :=
  Function.update_self _ _ _

theorem Collected.serviceRound {node : EpollNode S} (h : Collected Q n n c)
    (hQ : ∀ events, Q { node.events with events := events }) :
    Collected Q (n + 1) (n + 1) (collectService service c node) := by
  have hroom := h.mono (Nat.le_refl n) (Nat.le_succ n)
  rw [collectService]
  split_ifs
  · apply (hroom.write (Nat.lt_succ_self n) _).next
    rw [Collection.array_write]
    exact hQ _
  · exact h.mono (Nat.le_succ n) (Nat.le_succ n)

theorem Collected.sessionRound {pid : UInt64} {node : EpollNode T} (h : Collected Q n n c)
    (hQ : ∀ events, Q { node.events with events := events }) :
    Collected Q (n + 1) (n + 1) (collectSession session pid c node) := by
  have hlt := Nat.lt_succ_self n
  have hroom := (h.mono (Nat.le_refl n) (Nat.le_succ n)).write hlt
    { c.array c.eventNum with events := 0 }
  rw [collectSession]
  split_ifs with hclosed
  · apply (hroom.write hlt _).next
    rw [Collection.array_write]
    exact hQ _
  · generalize rxReady pid _ _ (session node.inst).normalRx = dataIn
    generalize rxReady pid _ _ (session node.inst).fastRx = fastIn
    cases dataIn <;> cases fastIn
    · exact hroom.mono (Nat.le_succ n) (Nat.le_refl _)
    · apply (hroom.write hlt _).next
      rw [Collection.array_write]
      exact hQ _
    · apply (hroom.write hlt _).next
      rw [Collection.array_write]
      exact hQ _
    · apply ((hroom.write hlt _).write hlt _).next
      rw [Collection.array_write]
      exact hQ _

/-- An event that was registered with `epfd`. -/
def EpollFd.Reports (epfd : EpollFd S T) (event : HdcdrvEvent) : Prop :=
  (∃ node ∈ epfd.serviceList, event = { node.events with events := event.events }) ∨
    ∃ node ∈ epfd.sessionList, event = { node.events with events := event.events }

variable (service session) in
theorem collected_hdcdrvEpollEventNum (epfd : EpollFd S T) :
    Collected epfd.Reports epfd.nodes epfd.nodes (hdcdrvEpollEventNum service session epfd) := by
  have hstart : Collected epfd.Reports 0 0 ⟨epfd.array, [], 0⟩ := by
    refine ⟨Nat.le_refl 0, ?_, ?_⟩
    · exact fun i hi => absurd hi List.not_mem_nil
    · exact fun i hi => absurd hi (Nat.not_lt_zero i)
  have hservice := hstart.foldl (f := collectService service) (l := epfd.serviceList)
    fun node hnode n c hc => hc.serviceRound fun events => .inl ⟨node, hnode, rfl⟩
  rw [Nat.zero_add] at hservice
  exact hservice.foldl fun node hnode n c hc =>
    hc.sessionRound fun events => .inr ⟨node, hnode, rfl⟩

/-- A call gives out at most `maxevents` events, each of a registered object. -/
theorem hdcdrvCopyEventToUser_ok {epfd : EpollFd S T} {maxevents : ℕ} {l : List HdcdrvEvent}
    (h : hdcdrvCopyEventToUser epfd (hdcdrvEpollEventNum service session epfd) maxevents = .ok l) :
    l.length ≤ maxevents ∧ ∀ event ∈ l, epfd.Reports event := by
  have hcollected := collected_hdcdrvEpollEventNum service session epfd
  have hreports : ∀ n ≤ (hdcdrvEpollEventNum service session epfd).eventNum,
      ∀ event ∈ (List.range n).map (hdcdrvEpollEventNum service session epfd).array,
        epfd.Reports event := by
    intro n hn event hevent
    obtain ⟨i, hi, rfl⟩ := List.mem_map.mp hevent
    exact hcollected.entries i (Nat.lt_of_lt_of_le (List.mem_range.mp hi) hn)
  rw [hdcdrvCopyEventToUser] at h
  split_ifs at h with hzero hmax <;> obtain rfl := Except.ok.inj h
  · simp
  · rw [List.length_map, List.length_range]
    exact ⟨Nat.le_refl _, hreports _ (Nat.le_of_lt hmax)⟩
  · rw [List.length_map, List.length_range]
    exact ⟨Nat.le_of_not_gt hmax, hreports _ (Nat.le_refl _)⟩

end Nodes

/-! ## The registration -/

/-- The registration of an epoll descriptor and what a collection does with it. -/
structure EpollOk (s : EpollState K F S T) : Prop where
  num : ∀ fd, (s.epfds fd).valid = true →
    (s.epfds fd).eventNum = (s.epfds fd).nodes ∧ (s.epfds fd).eventNum ≤ (s.epfds fd).size
  services : BackPointer EpollNode.inst (fun fd => (s.epfds fd).serviceList) s.serviceEpfd
  sessions : BackPointer EpollNode.inst (fun fd => (s.epfds fd).sessionList) s.sessionEpfd
  writes : ∀ fd, (s.epfds fd).valid = true → ∀ i ∈ (s.eventNum fd).writes,
    (i : ℤ) < (s.epfds fd).size ∧ ∃ n, (s.epfds fd).events = some n ∧ i < n
  report : ∀ fd maxevents l,
    hdcdrvCopyEventToUser (s.epfds fd) (s.eventNum fd) maxevents = .ok l →
      l.length ≤ maxevents ∧ ∀ event ∈ l, (s.epfds fd).Reports event

/-- The counter of a descriptor and its array. -/
structure FdInv (epfd : EpollFd S T) : Prop where
  num : epfd.eventNum = epfd.nodes
  le : epfd.eventNum ≤ epfd.size
  present : epfd.valid = true → epfd.nodes = 0 ∨ epfd.events.isSome = true
  len : ∀ n, epfd.events = some n → (n : ℤ) = epfd.size

structure EpollInv (s : EpollState K F S T) : Prop where
  fd : ∀ fd, FdInv (s.epfds fd)
  services : BackPointer EpollNode.inst (fun fd => (s.epfds fd).serviceList) s.serviceEpfd
  sessions : BackPointer EpollNode.inst (fun fd => (s.epfds fd).sessionList) s.sessionEpfd

/-- A descriptor is cleared, chosen and initialised without objects, and nothing is added
to a valid one before its initialisation. -/
def orderly (fds : List F) (s : EpollState K F S T) : EpollAct K F S T → Bool
  | .run k =>
      match s.call k with
      | .clear fd => (s.epfds fd).nodes = 0
      | .init fd _ _ => (s.epfds fd).nodes = 0
      | .add fd _ _ _ => (s.epfds fd).valid = true → (s.epfds fd).events.isSome = true
      | _ => true
  | .alloc _ _ _ => ∀ fd ∈ s.idleFd fds, (s.epfds fd).nodes = 0
  | _ => true

variable {s t : EpollState K F S T} {fds : List F} {fd : F} {epfd : EpollFd S T} {k : K}

omit [DecidableEq K] [DecidableEq F] [DecidableEq S] [DecidableEq T] in
theorem EpollInv.ok (hinv : EpollInv s) : EpollOk s := by
  refine ⟨fun fd _ => ⟨(hinv.fd fd).num, (hinv.fd fd).le⟩, hinv.services, hinv.sessions, ?_, ?_⟩
  · intro fd hvalid i hi
    have hlt := (collected_hdcdrvEpollEventNum s.service s.session (s.epfds fd)).writes i hi
    obtain hzero | hsome := (hinv.fd fd).present hvalid
    · omega
    · obtain ⟨n, hn⟩ := Option.isSome_iff_exists.mp hsome
      have hnum := (hinv.fd fd).num
      have hle := (hinv.fd fd).le
      have hlen := (hinv.fd fd).len n hn
      exact ⟨by omega, n, hn, by omega⟩
  · exact fun fd maxevents l hl => hdcdrvCopyEventToUser_ok hl

omit [DecidableEq K] [DecidableEq S] [DecidableEq T] in
/-- One descriptor is written. -/
theorem EpollInv.update (hinv : EpollInv s) (fd : F) (hfd : FdInv epfd)
    (hepfds : t.epfds = Function.update s.epfds fd epfd)
    (hservices : BackPointer EpollNode.inst
      (Function.update (fun fd => (s.epfds fd).serviceList) fd epfd.serviceList) t.serviceEpfd)
    (hsessions : BackPointer EpollNode.inst
      (Function.update (fun fd => (s.epfds fd).sessionList) fd epfd.sessionList) t.sessionEpfd) :
    EpollInv t := by
  constructor
  · intro g
    rw [hepfds]
    rcases eq_or_ne g fd with rfl | hne
    · rwa [Function.update_self]
    · rw [Function.update_of_ne hne]
      exact hinv.fd g
  · change BackPointer EpollNode.inst (EpollFd.serviceList ∘ t.epfds) t.serviceEpfd
    rw [hepfds, Function.comp_update]
    exact hservices
  · change BackPointer EpollNode.inst (EpollFd.sessionList ∘ t.epfds) t.sessionEpfd
    rw [hepfds, Function.comp_update]
    exact hsessions

omit [DecidableEq K] [DecidableEq S] [DecidableEq T] in
/-- One descriptor is written but for its lists. -/
theorem EpollInv.setFd (hinv : EpollInv s) (hfd : FdInv epfd)
    (hservice : epfd.serviceList = (s.epfds fd).serviceList)
    (hsession : epfd.sessionList = (s.epfds fd).sessionList) : EpollInv (s.setFd fd epfd) := by
  apply hinv.update fd hfd rfl
  · rw [hservice, Function.update_eq_self]
    exact hinv.services
  · rw [hsession, Function.update_eq_self]
    exact hinv.sessions

omit [DecidableEq F] [DecidableEq S] [DecidableEq T] in
theorem EpollInv.setCall (hinv : EpollInv s) (call : EpollCall F S T) :
    EpollInv (s.setCall k call) :=
  ⟨hinv.fd, hinv.services, hinv.sessions⟩


/-! ## The sections keep the registration -/

theorem length_eraseP_key {O : Type*} [DecidableEq O] {l : List (EpollNode O)} {o : O}
    (ho : o ∈ l.map EpollNode.inst) : (l.eraseP fun node => node.inst = o).length + 1 = l.length := by
  obtain ⟨node, hnode, rfl⟩ := List.mem_map.mp ho
  have hpos := List.length_pos_of_mem hnode
  rw [List.length_eraseP_of_mem hnode (by simp)]
  omega

omit [DecidableEq S] [DecidableEq T] in
theorem FdInv.add (hfd : FdInv epfd) (hroom : epfd.eventNum < epfd.size)
    (hpresent : epfd.valid = true → epfd.events.isSome = true) {services : List (EpollNode S)}
    {sessions : List (EpollNode T)} (hlen : services.length + sessions.length = epfd.nodes + 1) :
    FdInv { epfd with
      serviceList := services, sessionList := sessions, eventNum := epfd.eventNum + 1 } := by
  have hnum := hfd.num
  refine ⟨?_, hroom, fun hvalid => .inr (hpresent hvalid), hfd.len⟩
  simp only [EpollFd.nodes] at hlen ⊢
  rw [EpollFd.nodes] at hnum
  omega

omit [DecidableEq S] [DecidableEq T] in
theorem FdInv.del (hfd : FdInv epfd) {services : List (EpollNode S)}
    {sessions : List (EpollNode T)} (hlen : services.length + sessions.length + 1 = epfd.nodes) :
    FdInv { epfd with
      serviceList := services, sessionList := sessions, eventNum := epfd.eventNum + -1 } := by
  have hnum := hfd.num
  have hle := hfd.le
  refine ⟨?_, ?_, fun hvalid => ?_, hfd.len⟩
  · simp only [EpollFd.nodes] at hlen ⊢
    rw [EpollFd.nodes] at hnum
    omega
  · simp only
    omega
  · obtain hzero | hsome := hfd.present hvalid
    · omega
    · exact .inr hsome

omit [DecidableEq K] [DecidableEq T] in
theorem EpollInv.addService (hinv : EpollInv s)
    (hroom : (s.epfds fd).eventNum < (s.epfds fd).size)
    (hpresent : (s.epfds fd).valid = true → (s.epfds fd).events.isSome = true)
    {event : HdcdrvEvent} {service : S} (hadd : s.addService fd event service = .ok t) :
    EpollInv (t.count fd 1) := by
  rw [EpollState.addService] at hadd
  split_ifs at hadd with hlisten hpid hnone
  obtain rfl := Except.ok.inj hadd
  have hlen : (EpollNode.mk service event :: (s.epfds fd).serviceList).length +
      (s.epfds fd).sessionList.length = (s.epfds fd).nodes + 1 := by
    rw [EpollFd.nodes, List.length_cons]
    omega
  apply hinv.update fd ((hinv.fd fd).add hroom hpresent hlen)
  · simp [EpollState.count, EpollState.setFd]
  · exact hinv.services.cons (a := ⟨service, event⟩) (not_not.mp hnone)
  · rw [Function.update_eq_self]
    exact hinv.sessions

omit [DecidableEq K] [DecidableEq S] in
theorem EpollInv.addSession (hinv : EpollInv s)
    (hroom : (s.epfds fd).eventNum < (s.epfds fd).size)
    (hpresent : (s.epfds fd).valid = true → (s.epfds fd).events.isSome = true)
    {event : HdcdrvEvent} {session : T} (hadd : s.addSession fd event session = .ok t) :
    EpollInv (t.count fd 1) := by
  rw [EpollState.addSession] at hadd
  split_ifs at hadd with hidle hpid hnone
  obtain rfl := Except.ok.inj hadd
  have hlen : (s.epfds fd).serviceList.length +
      (EpollNode.mk session event :: (s.epfds fd).sessionList).length =
        (s.epfds fd).nodes + 1 := by
    rw [EpollFd.nodes, List.length_cons]
    omega
  apply hinv.update fd ((hinv.fd fd).add hroom hpresent hlen)
  · simp [EpollState.count, EpollState.setFd]
  · rw [Function.update_eq_self]
    exact hinv.services
  · exact hinv.sessions.cons (a := ⟨session, event⟩) (not_not.mp hnone)

omit [DecidableEq K] in
theorem EpollInv.addEvent (hinv : EpollInv s)
    (hpresent : (s.epfds fd).valid = true → (s.epfds fd).events.isSome = true)
    (event : HdcdrvEvent) (service : S) (session : T) :
    EpollInv (s.orKeep (s.addEvent fd event service session)) := by
  rw [EpollState.addEvent]
  split_ifs with hfull hconn
  · exact hinv
  · cases hadd : s.addService fd event service with
    | error e => exact hinv
    | ok t => exact hinv.addService (Int.not_le.mp hfull) hpresent hadd
  · cases hadd : s.addSession fd event session with
    | error e => exact hinv
    | ok t => exact hinv.addSession (Int.not_le.mp hfull) hpresent hadd

omit [DecidableEq K] [DecidableEq T] in
theorem EpollInv.delService (hinv : EpollInv s) {service : S}
    (hdel : s.delService fd service = .ok t) : EpollInv (t.count fd (-1)) := by
  rw [EpollState.delService] at hdel
  split_ifs at hdel with hmem
  obtain rfl := Except.ok.inj hdel
  have hlen : ((s.epfds fd).serviceList.eraseP fun node => node.inst = service).length +
      (s.epfds fd).sessionList.length + 1 = (s.epfds fd).nodes := by
    rw [EpollFd.nodes, ← length_eraseP_key hmem]
    omega
  apply hinv.update fd ((hinv.fd fd).del hlen)
  · simp [EpollState.count, EpollState.setFd]
  · exact hinv.services.eraseP hmem
  · rw [Function.update_eq_self]
    exact hinv.sessions

omit [DecidableEq K] [DecidableEq S] in
theorem EpollInv.delSession (hinv : EpollInv s) {session : T}
    (hdel : s.delSession fd session = .ok t) : EpollInv (t.count fd (-1)) := by
  rw [EpollState.delSession] at hdel
  split_ifs at hdel with hmem
  obtain rfl := Except.ok.inj hdel
  have hlen : (s.epfds fd).serviceList.length +
      ((s.epfds fd).sessionList.eraseP fun node => node.inst = session).length + 1 =
        (s.epfds fd).nodes := by
    rw [EpollFd.nodes, ← length_eraseP_key hmem]
    omega
  apply hinv.update fd ((hinv.fd fd).del hlen)
  · simp [EpollState.count, EpollState.setFd]
  · rw [Function.update_eq_self]
    exact hinv.services
  · exact hinv.sessions.eraseP hmem

omit [DecidableEq K] in
theorem EpollInv.delEvent (hinv : EpollInv s) (event : HdcdrvEvent) (service : S)
    (session : T) : EpollInv (s.orKeep (s.delEvent fd event service session)) := by
  rw [EpollState.delEvent]
  split_ifs with hconn
  · cases hdel : s.delService fd service with
    | error e => exact hinv
    | ok t => exact hinv.delService hdel
  · cases hdel : s.delSession fd session with
    | error e => exact hinv
    | ok t => exact hinv.delSession hdel

omit [DecidableEq K] in
/-- An empty descriptor may be cleared. -/
theorem EpollInv.clearLists (hinv : EpollInv s) (hempty : (s.epfds fd).nodes = 0) :
    EpollInv (s.clearLists fd) := by
  have hfd := hinv.fd fd
  have hclear :
      FdInv ({ s.epfds fd with serviceList := [], sessionList := [] } : EpollFd S T) :=
    ⟨hfd.num.trans (congrArg Nat.cast hempty), hfd.le, fun _ => .inl rfl, hfd.len⟩
  apply hinv.update fd hclear
  · rfl
  · exact hinv.services.clear
  · exact hinv.sessions.clear

omit [DecidableEq K] [DecidableEq S] [DecidableEq T] in
theorem EpollInv.invalidate (hinv : EpollInv s) : EpollInv (s.invalidate fd) := by
  have hfd := hinv.fd fd
  rw [EpollState.invalidate]
  split_ifs
  · apply hinv.setFd
    · exact ⟨hfd.num, hfd.le, fun hvalid => absurd hvalid Bool.false_ne_true,
        fun n hn => absurd hn (by simp)⟩
    · rfl
    · rfl
  · exact hinv

omit [DecidableEq K] [DecidableEq S] [DecidableEq T] in
/-- An empty descriptor may be initialised. -/
theorem EpollInv.allocFdInit (hinv : EpollInv s) (hempty : (s.epfds fd).nodes = 0) (size : ℕ)
    (pid : UInt64) : EpollInv (s.allocFdInit fd size pid) := by
  apply hinv.setFd
  · refine ⟨?_, Int.natCast_nonneg size, fun _ => .inl hempty, ?_⟩
    · exact (congrArg Nat.cast hempty).symm
    · exact fun n hn => congrArg Nat.cast (Option.some.inj hn).symm
  · rfl
  · rfl

omit [DecidableEq K] [DecidableEq S] [DecidableEq T] in
theorem EpollInv.collect (hinv : EpollInv s) : EpollInv (s.collect fd) := by
  have hfd := hinv.fd fd
  apply hinv.setFd
  · exact ⟨hfd.num, hfd.le, hfd.present, hfd.len⟩
  · rfl
  · rfl

theorem EpollInv.runCall (hinv : EpollInv s) (hok : orderly fds s (.run k) = true)
    (hstep : s.runCall k = some t) : EpollInv t := by
  cases hcall : s.call k with
  | idle => simp [EpollState.runCall, hcall] at hstep
  | add fd event service session =>
      simp only [EpollState.runCall, hcall, Option.some.injEq] at hstep
      subst hstep
      have hpresent : (s.epfds fd).valid = true → (s.epfds fd).events.isSome = true := by
        intro hvalid
        simpa [orderly, hcall, hvalid] using hok
      exact (hinv.addEvent hpresent event service session).setCall _
  | del fd event service session =>
      simp only [EpollState.runCall, hcall, Option.some.injEq] at hstep
      subst hstep
      exact (hinv.delEvent event service session).setCall _
  | wait fd maxevents =>
      simp only [EpollState.runCall, hcall] at hstep
      split_ifs at hstep <;> obtain rfl := Option.some.inj hstep
      · exact hinv.collect.setCall _
      · exact hinv.collect.setCall _
  | asleep fd maxevents => simp [EpollState.runCall, hcall] at hstep
  | clear fd =>
      simp only [EpollState.runCall, hcall, Option.some.injEq] at hstep
      subst hstep
      exact (hinv.clearLists (by simpa [orderly, hcall] using hok)).setCall _
  | invalidate fd =>
      simp only [EpollState.runCall, hcall, Option.some.injEq] at hstep
      subst hstep
      exact hinv.invalidate.setCall _
  | init fd size pid =>
      simp only [EpollState.runCall, hcall, Option.some.injEq] at hstep
      subst hstep
      exact (hinv.allocFdInit (by simpa [orderly, hcall] using hok) size pid).setCall _

omit [DecidableEq S] [DecidableEq T] in
theorem EpollInv.wake (hinv : EpollInv s) {woken : Bool} (hstep : s.wake k woken = some t) :
    EpollInv t := by
  cases hcall : s.call k with
  | asleep fd maxevents =>
      simp only [EpollState.wake, hcall] at hstep
      split_ifs at hstep <;> obtain rfl := Option.some.inj hstep
      · exact hinv.setCall _
      · exact hinv.collect.setCall _
      · exact hinv.collect.setCall _
  | _ => simp [EpollState.wake, hcall] at hstep

theorem EpollInv.alloc (hinv : EpollInv s) {size : ℕ} {pid : UInt64}
    (hok : orderly fds s (.alloc k size pid) = true)
    (hstep : s.step fds (.alloc k size pid) = some t) : EpollInv t := by
  simp only [EpollState.step] at hstep
  split_ifs at hstep
  obtain ⟨fd, hfd, rfl⟩ := Option.map_eq_some_iff.mp hstep
  have hempty : (s.epfds fd).nodes = 0 := by simpa [orderly, hfd] using hok
  have hinv' := hinv.fd fd
  apply EpollInv.setCall
  apply hinv.setFd
  · exact ⟨hinv'.num, hinv'.le, fun _ => .inl hempty, hinv'.len⟩
  · rfl
  · rfl

theorem EpollInv.step (hinv : EpollInv s) (act : EpollAct K F S T)
    (hok : orderly fds s act = true) (hstep : s.step fds act = some t) : EpollInv t := by
  cases act with
  | add k fd pid event service session =>
      obtain ⟨-, ht⟩ := Option.ite_none_right_eq_some.mp hstep
      exact Option.some.inj ht ▸ hinv.setCall _
  | del k fd pid event service session =>
      obtain ⟨-, ht⟩ := Option.ite_none_right_eq_some.mp hstep
      exact Option.some.inj ht ▸ hinv.setCall _
  | wait k fd pid maxevents =>
      obtain ⟨-, ht⟩ := Option.ite_none_right_eq_some.mp hstep
      exact Option.some.inj ht ▸ hinv.setCall _
  | free k fd pid =>
      obtain ⟨-, ht⟩ := Option.ite_none_right_eq_some.mp hstep
      exact Option.some.inj ht ▸ hinv.setCall _
  | recycle k fd =>
      obtain ⟨-, ht⟩ := Option.ite_none_right_eq_some.mp hstep
      exact Option.some.inj ht ▸ hinv.setCall _
  | alloc k size pid => exact hinv.alloc hok hstep
  | run k => exact hinv.runCall hok hstep
  | wake k woken => exact hinv.wake hstep
  | setService service view =>
      obtain rfl := Option.some.inj hstep
      exact ⟨hinv.fd, hinv.services, hinv.sessions⟩
  | setSession session view =>
      obtain rfl := Option.some.inj hstep
      exact ⟨hinv.fd, hinv.services, hinv.sessions⟩

/-- In a run of orderly steps the registration is consistent. -/
theorem epoll_registration
    (hs : (epollMachine fds).ReachIf (fun s act => orderly fds s act = true) s) :
    EpollOk s := by
  have hinv : EpollInv s := by
    apply hs.invariant
    · rintro s ⟨hfd, hservice, hsession, -⟩
      refine ⟨fun fd => ?_, ?_, ?_⟩
      · obtain ⟨-, hsize, hnum, hservices, hsessions, hevents⟩ := hfd fd
        refine ⟨?_, ?_, fun _ => .inl ?_, ?_⟩
        · simp [EpollFd.nodes, hnum, hservices, hsessions]
        · simp [hnum, hsize]
        · simp [EpollFd.nodes, hservices, hsessions]
        · simp [hevents]
      · rw [show s.serviceEpfd = fun _ => none from funext hservice,
          show (fun fd => (s.epfds fd).serviceList) = fun _ => [] from
            funext fun fd => (hfd fd).2.2.2.1]
        exact .empty
      · rw [show s.sessionEpfd = fun _ => none from funext hsession,
          show (fun fd => (s.epfds fd).sessionList) = fun _ => [] from
            funext fun fd => (hfd fd).2.2.2.2.1]
        exact .empty
    · exact fun s act t hinv hok hstep => hinv.step act hok hstep
  exact hinv.ok

/-! ## Two services and one descriptor -/

/-- Both services listen and have a connection. -/
def twoServices : EpollState Bool Unit Bool Unit where
  epfds _ := ⟨false, 0, 0, 0, [], [], none, fun _ => default⟩
  service _ := ⟨true, 7, true⟩
  session _ := ⟨true, 0, ⟨0, 0⟩, ⟨0, 0⟩⟩
  serviceEpfd _ := none
  sessionEpfd _ := none
  call _ := .idle

theorem init_twoServices : (epollMachine [()]).init twoServices :=
  ⟨fun _ => ⟨rfl, rfl, rfl, rfl, rfl, rfl⟩, fun _ => rfl, fun _ => rfl, fun _ => rfl⟩

def connIn (n : UInt64) : HdcdrvEvent := ⟨HDCDRV_EPOLL_CONN_IN, 0, n⟩

/-- A descriptor is taken and a service added. -/
def addOne : List (EpollAct Bool Unit Bool Unit) :=
  [.alloc true 1 7, .run true, .add false () 7 (connIn 1) true (), .run false]

theorem epoll_registration_one : EpollOk ((epollMachine [()]).final twoServices addOne) := by
  have hs : (epollMachine [()]).ReachIf (fun s act => orderly [()] s act = true)
      ((epollMachine [()]).final twoServices addOne) :=
    .final (.start init_twoServices) (by decide +kernel) (by decide +kernel)
  exact epoll_registration hs

/-- The first service is added between the sections of a free; the descriptor is taken
again and the second is added. -/
def addDuringFree : List (EpollAct Bool Unit Bool Unit) :=
  [.alloc true 1 7, .run true, .add false () 7 (connIn 1) true (), .free true () 7, .run true,
    .run false, .run true, .alloc true 1 7, .run true, .add false () 7 (connIn 2) false (),
    .run false]

theorem epoll_writes_beyond :
    ∃ s : EpollState Bool Unit Bool Unit, (epollMachine [()]).Reach s ∧
      (s.epfds ()).valid = true ∧ (s.epfds ()).eventNum = 1 ∧ (s.epfds ()).nodes = 2 ∧
      (s.epfds ()).size = 1 ∧ 1 ∈ (s.eventNum ()).writes := by
  refine ⟨(epollMachine [()]).final twoServices addDuringFree, ?_, ?_, ?_, ?_, ?_, ?_⟩
  · exact .final (.start init_twoServices) (by decide +kernel)
  all_goals decide +kernel

end OpiaiKernel.Hdc
