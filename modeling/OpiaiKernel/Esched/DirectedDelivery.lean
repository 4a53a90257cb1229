import OpiaiKernel.Esched.Event
import OpiaiKernel.Esched.GroupMap

/-!
# Directed delivery

A publisher may name the thread that shall get its event.  An event that names
no thread goes to a thread that subscribes it.  The two searches of a wait test
this; the search for an exact event id does not.

A call that publishes is cut after its checks, so that calls of other threads
come between the checks and the list.  A list is searched in one step, with the
hand-over to the thread; the priorities, which may be set at any time, are
labels of the steps.  Processes stay alive.
-/

namespace OpiaiKernel.Esched

/-- An event with the thread that its publisher named. -/
structure Published where
  event : SchedEvent
  tid : Option ℕ
  deriving DecidableEq

/-- An event in the hands of a thread, and whether the thread subscribed it
when it was taken. -/
structure Handed where
  published : Published
  grpId : GrpId
  tid : ℕ
  subscribed : Bool
  deriving DecidableEq

structure DeliveryState where
  grp : GrpId → SchedGrpCtx
  runStatus : GrpId → RunStatus
  publishing : List Published
  nodeList : ℕ × ℕ → SchedEventList Published
  grpList : GrpId × ℕ → SchedEventList Published
  curThread : ℕ → Option (GrpId × ℕ)
  handed : List Handed

inductive DeliveryOp
  | group (k : GrpId) (op : GrpOp)
  | publish (k : GrpId) (eventId : ℕ) (tid : Option ℕ)
  | drop (i : ℕ)
  | enqueue (i procPri eventPri : ℕ)
  | cpuSearch (cpuid procPri eventPri curTime : ℕ)
  | nonSchedSearch (k : GrpId) (tid eventPri : ℕ)
  | exact (k : GrpId) (tid eventId cpuid procPri eventPri : ℕ)
  | exclusiveFinish (k : GrpId)

/-! ## The steps -/

/-- `sched_publish_event` up to the count of the event. -/
def publishCheck (s : DeliveryState) (k : GrpId) (eventId : ℕ) (tid : Option ℕ) :
    DeliveryState :=
  let grp := s.grp k
  let event : SchedEvent := ⟨k.1, k.2, eventId, none⟩
  let event := match tid with
    | none => event
    | some tid => schedEventAddThread event tid
  if grp.schedMode = .uninit then s
  else if tid.any (grp.cfgThreadNum ≤ ·) = true then s
  else if grp.schedMode = .schedCpu ∧ (grp.eventTimeoutInfo eventId).timeoutFlag = true then s
  else if schedGrpCanHandleEvent grp event = false then s
  else { s with publishing := s.publishing ++ [⟨event, tid⟩] }

/-- An event that finds its list full is given back. -/
def enqueue (s : DeliveryState) (p : Published) (procPri eventPri : ℕ) : DeliveryState :=
  let k := p.event.grpId
  if (s.grp k).schedMode = .schedCpu then
    match schedEventAddTail (s.nodeList (procPri, eventPri)) p with
    | none => s
    | some l => { s with nodeList := Function.update s.nodeList (procPri, eventPri) l }
  else
    match schedEventAddTail (s.grpList (k, eventPri)) p with
    | none => s
    | some l => { s with grpList := Function.update s.grpList (k, eventPri) l }

def hand (s : DeliveryState) (p : Published) (k : GrpId) (tid : ℕ) : DeliveryState :=
  { s with handed := ⟨p, k, tid, subscribed (s.grp k) p.event.eventId tid⟩ :: s.handed }

def canHandle (grp : GrpId → SchedGrpCtx) (cpuid curTime : ℕ) (runStatus : GrpId → RunStatus)
    (p : Published) : Bool × (GrpId → RunStatus) :=
  let k := p.event.grpId
  let (handle, status) := schedIsEventCanHandle (grp k) true (runStatus k) p.event cpuid curTime
  (handle, Function.update runStatus k status)

def exclusiveFinish (s : DeliveryState) (k : GrpId) : DeliveryState :=
  if (s.grp k).isExclusive = true then
    { s with runStatus := Function.update s.runStatus k .idle }
  else s

/-- One search of `sched_get_next_thread_in_list`.  A thread that has timed out
finishes its event at once. -/
def schedGetNextThreadInList (s : DeliveryState) (cpuid procPri eventPri curTime : ℕ) :
    DeliveryState :=
  match schedEventSearch (canHandle s.grp cpuid curTime) s.runStatus
      (s.nodeList (procPri, eventPri)) with
  | (none, _, runStatus) => { s with runStatus }
  | (some p, l, runStatus) =>
      let k := p.event.grpId
      let tid := (s.grp k).cpuidToTid cpuid
      let nodeList := Function.update s.nodeList (procPri, eventPri) l
      let s := hand { s with runStatus, nodeList } p k tid
      if ((s.grp k).threadCtx tid).timeoutFlag = true then exclusiveFinish s k
      else { s with curThread := Function.update s.curThread cpuid (some (k, tid)) }

/-- One list of `sched_get_next_non_sched_event`, for a thread in the wait. -/
def schedGetNextNonSchedEvent (s : DeliveryState) (k : GrpId) (tid eventPri : ℕ) :
    DeliveryState :=
  let thread := (s.grp k).threadCtx tid
  match schedTakeFirst (fun p => schedThreadCanHandleEvent thread p.event)
      (s.grpList (k, eventPri)) with
  | none => s
  | some (p, l) => hand { s with grpList := Function.update s.grpList (k, eventPri) l } p k tid

/-- The list that `sched_get_exact_event` searches. -/
def exactList (s : DeliveryState) (k : GrpId) (procPri eventPri : ℕ) :
    SchedEventList Published :=
  if (s.grp k).schedMode = .schedCpu then s.nodeList (procPri, eventPri)
  else s.grpList (k, eventPri)

def schedGetExactEvent (s : DeliveryState) (k : GrpId) (tid eventId cpuid procPri eventPri : ℕ) :
    DeliveryState :=
  let grp := s.grp k
  let found := schedTakeFirst (fun p => schedIsSpecifiedEvent k eventId p.event)
    (exactList s k procPri eventPri)
  if grp.schedMode = .uninit then s
  else if grp.cfgThreadNum ≤ tid then s
  else if (grp.threadCtx tid).status ≠ .run then s
  else if grp.schedMode = .schedCpu then
    if s.curThread cpuid ≠ some (k, tid) then s
    else
      match found with
      | none => s
      | some (p, l) =>
          exclusiveFinish
            (hand { s with nodeList := Function.update s.nodeList (procPri, eventPri) l } p k tid)
            k
  else
    match found with
    | none => s
    | some (p, l) => hand { s with grpList := Function.update s.grpList (k, eventPri) l } p k tid

def deliveryStep (s : DeliveryState) : DeliveryOp → Option DeliveryState
  | .group k op =>
      (grpStep (s.grp k) op).map fun grp => { s with grp := Function.update s.grp k grp }
  | .publish k eventId tid => some (publishCheck s k eventId tid)
  | .drop i =>
      s.publishing[i]?.map fun _ => { s with publishing := s.publishing.eraseIdx i }
  | .enqueue i procPri eventPri =>
      s.publishing[i]?.map fun p =>
        enqueue { s with publishing := s.publishing.eraseIdx i } p procPri eventPri
  | .cpuSearch cpuid procPri eventPri curTime =>
      some (schedGetNextThreadInList s cpuid procPri eventPri curTime)
  | .nonSchedSearch k tid eventPri =>
      let thread := (s.grp k).threadCtx tid
      if (s.grp k).schedMode = .nonSchedCpu ∧ thread.valid = true ∧ thread.waitFlag = true then
        some (schedGetNextNonSchedEvent s k tid eventPri)
      else none
  | .exact k tid eventId cpuid procPri eventPri =>
      some (schedGetExactEvent s k tid eventId cpuid procPri eventPri)
  | .exclusiveFinish k => some (exclusiveFinish s k)

/-- No event is published, and the lists have some depths. -/
def initDelivery (nodeDepth grpDepth : ℕ) : DeliveryState where
  grp := fun _ => zeroGrpCtx
  runStatus := fun _ => .idle
  publishing := []
  nodeList := fun _ => ⟨nodeDepth, 0, []⟩
  grpList := fun _ => ⟨grpDepth, 0, []⟩
  curThread := fun _ => none
  handed := []

def deliveryMachine : Machine DeliveryState DeliveryOp where
  init s := ∃ nodeDepth grpDepth, s = initDelivery nodeDepth grpDepth
  step := deliveryStep

/-! ## The claim -/

/-- The event is handed to a thread of its group: to the thread that its
publisher named, or to one that subscribes it. -/
def Handed.Directed (h : Handed) : Prop :=
  h.grpId = h.published.event.grpId ∧
    match h.published.tid with
    | some tid => h.tid = tid
    | none => h.subscribed = true

/-- The thread is named by the event, or the event names no thread and the thread
subscribes it. -/
def eventIsFor (grp : SchedGrpCtx) (event : SchedEvent) (tid : ℕ) : Bool :=
  match event.eventThreadMap with
  | some map => map.contains tid
  | none => subscribed grp event.eventId tid

/-- The checks of an exact fetch let the thread search the list. -/
def ExactSearches (s : DeliveryState) (k : GrpId) (tid cpuid : ℕ) : Prop :=
  (s.grp k).schedMode ≠ .uninit ∧ tid < (s.grp k).cfgThreadNum ∧
    ((s.grp k).threadCtx tid).status = .run ∧
    ((s.grp k).schedMode = .schedCpu → s.curThread cpuid = some (k, tid))

/-- The first event that an exact fetch finds is one for the thread that
fetches. -/
def ExactIsDirected (s : DeliveryState) : DeliveryOp → Prop
  | .exact k tid eventId cpuid procPri eventPri =>
      ExactSearches s k tid cpuid →
        ∀ p ∈ (exactList s k procPri eventPri).head.find? fun p =>
            schedIsSpecifiedEvent k eventId p.event,
          eventIsFor (s.grp k) p.event tid = true
  | _ => True

instance decidableExactIsDirected (s : DeliveryState) : ∀ op, Decidable (ExactIsDirected s op)
  | .group .. | .publish .. | .drop .. | .enqueue .. | .cpuSearch .. | .nonSchedSearch ..
  | .exclusiveFinish .. => isTrue trivial
  | .exact k tid eventId cpuid procPri eventPri =>
      inferInstanceAs (Decidable
        ((s.grp k).schedMode ≠ .uninit ∧ tid < (s.grp k).cfgThreadNum ∧
            ((s.grp k).threadCtx tid).status = .run ∧
            ((s.grp k).schedMode = .schedCpu → s.curThread cpuid = some (k, tid)) →
          ∀ p ∈ (exactList s k procPri eventPri).head.find? fun p =>
              schedIsSpecifiedEvent k eventId p.event,
            eventIsFor (s.grp k) p.event tid = true))

/-! ## The invariant -/

/-- The thread map of the event is the one of its publisher, who named a
registered thread. -/
structure Eligible (grp : GrpId → SchedGrpCtx) (p : Published) : Prop where
  map : p.event.eventThreadMap = p.tid.map ([·])
  registered : ∀ t ∈ p.tid, registered (grp p.event.grpId) t = true

structure DeliveryInv (s : DeliveryState) : Prop where
  grp : ∀ k, grpMachine.Reach (s.grp k)
  publishing : ∀ p ∈ s.publishing, Eligible s.grp p
  nodeList : ∀ pri, ∀ p ∈ (s.nodeList pri).head,
    (s.grp p.event.grpId).schedMode = .schedCpu ∧ Eligible s.grp p
  grpList : ∀ k pri, ∀ p ∈ (s.grpList (k, pri)).head,
    p.event.grpId = k ∧ Eligible s.grp p
  handed : ∀ h ∈ s.handed, h.Directed

theorem Eligible.grp {grp grp' : GrpId → SchedGrpCtx} {p : Published} (h : Eligible grp p)
    (hkeep : ∀ k t, Esched.registered (grp k) t = true → Esched.registered (grp' k) t = true) :
    Eligible grp' p :=
  ⟨h.map, fun t ht => hkeep _ t (h.registered t ht)⟩

section Inv

variable {s : DeliveryState} {k : GrpId}

theorem DeliveryInv.group (h : DeliveryInv s) {op : GrpOp} {grp : SchedGrpCtx}
    (hstep : grpStep (s.grp k) op = some grp) :
    DeliveryInv { s with grp := Function.update s.grp k grp } := by
  have hkeep := grpStep_continues (grpMapInv_of_reach (h.grp k)) hstep
  have hreg (j : GrpId) (t : ℕ) (ht : registered (s.grp j) t = true) :
      registered (Function.update s.grp k grp j) t = true := by
    rcases eq_or_ne j k with rfl | hne
    · simpa using hkeep.registered t ht
    · rwa [Function.update_of_ne hne]
  refine ⟨fun j => ?_, fun p hp => (h.publishing p hp).grp hreg, fun pri p hp => ?_,
    fun j pri p hp => (h.grpList j pri p hp).imp_right fun he => he.grp hreg, h.handed⟩
  · rcases eq_or_ne j k with rfl | hne
    · simpa using (h.grp j).next op trivial hstep
    · simpa [Function.update_of_ne hne] using h.grp j
  · obtain ⟨hmode, he⟩ := h.nodeList pri p hp
    refine ⟨?_, he.grp hreg⟩
    dsimp only
    rcases eq_or_ne p.event.grpId k with heq | hne
    · rw [heq] at hmode ⊢
      rw [Function.update_self, hkeep.schedMode (by simp [hmode]), hmode]
    · rwa [Function.update_of_ne hne]

/-- The checks of a publisher admit an event for registered threads only. -/
theorem eligible_of_canHandle {grp : GrpId → SchedGrpCtx} (hreach : grpMachine.Reach (grp k))
    {event : SchedEvent} {tid : Option ℕ} (hk : event.grpId = k)
    (hmap : event.eventThreadMap = tid.map ([·]))
    (hcan : schedGrpCanHandleEvent (grp k) event = true) : Eligible grp ⟨event, tid⟩ := by
  refine ⟨hmap, fun t ht => ?_⟩
  obtain rfl := Option.mem_def.mp ht
  simp only [schedGrpCanHandleEvent, hmap, Option.map_some, List.all_cons, List.all_nil,
    Bool.and_true, Bool.and_eq_true, List.contains_iff_mem] at hcan
  rw [hk]
  exact (((grpMapInv_of_reach hreach).map_iff _ t).mp hcan.2).1

theorem DeliveryInv.publishCheck (h : DeliveryInv s) (k : GrpId) (eventId : ℕ)
    (tid : Option ℕ) : DeliveryInv (publishCheck s k eventId tid) := by
  dsimp only [Esched.publishCheck]
  split_ifs with _ _ _ hcan
  · exact h
  · exact h
  · exact h
  · exact h
  · refine ⟨h.grp, fun p hp => ?_, h.nodeList, h.grpList, h.handed⟩
    rcases List.mem_append.mp hp with hp | hp
    · exact h.publishing p hp
    · obtain rfl := List.mem_singleton.mp hp
      apply eligible_of_canHandle (h.grp k) _ _ (by simpa using hcan) <;> cases tid <;> rfl

theorem DeliveryInv.withdraw (h : DeliveryInv s) (i : ℕ) :
    DeliveryInv { s with publishing := s.publishing.eraseIdx i } :=
  ⟨h.grp, fun p hp => h.publishing p (List.mem_of_mem_eraseIdx hp), h.nodeList, h.grpList,
    h.handed⟩

/-- A list that is replaced holds events that are fit for it. -/
theorem DeliveryInv.setNodeList (h : DeliveryInv s) (pri : ℕ × ℕ) {l : SchedEventList Published}
    (hl : ∀ p ∈ l.head, (s.grp p.event.grpId).schedMode = .schedCpu ∧ Eligible s.grp p) :
    DeliveryInv { s with nodeList := Function.update s.nodeList pri l } := by
  refine ⟨h.grp, h.publishing, fun pri' p hp => ?_, h.grpList, h.handed⟩
  rcases eq_or_ne pri' pri with rfl | hne
  · exact hl p (by simpa using hp)
  · exact h.nodeList pri' p (by simpa [Function.update_of_ne hne] using hp)

theorem DeliveryInv.setGrpList (h : DeliveryInv s) (k : GrpId) (pri : ℕ)
    {l : SchedEventList Published}
    (hl : ∀ p ∈ l.head, p.event.grpId = k ∧ Eligible s.grp p) :
    DeliveryInv { s with grpList := Function.update s.grpList (k, pri) l } := by
  refine ⟨h.grp, h.publishing, h.nodeList, fun k' pri' p hp => ?_, h.handed⟩
  rcases eq_or_ne (k', pri') (k, pri) with heq | hne
  · obtain ⟨rfl, rfl⟩ := Prod.mk.inj heq
    exact hl p (by simpa using hp)
  · exact h.grpList k' pri' p (by simpa [Function.update_of_ne hne] using hp)

theorem DeliveryInv.enqueue (h : DeliveryInv s) {p : Published} (hp : Eligible s.grp p)
    (procPri eventPri : ℕ) : DeliveryInv (enqueue s p procPri eventPri) := by
  dsimp only [Esched.enqueue]
  split
  · next hmode =>
      split
      · exact h
      · next l hadd =>
          apply h.setNodeList
          intro a ha
          rcases (mem_of_addTail hadd).mp ha with ha | rfl
          · exact h.nodeList _ a ha
          · exact ⟨hmode, hp⟩
  · split
    · exact h
    · next l hadd =>
        apply h.setGrpList
        intro a ha
        rcases (mem_of_addTail hadd).mp ha with ha | rfl
        · exact h.grpList _ _ a ha
        · exact ⟨rfl, hp⟩

theorem DeliveryInv.runStatus (h : DeliveryInv s) (runStatus : GrpId → RunStatus) :
    DeliveryInv { s with runStatus } :=
  ⟨h.grp, h.publishing, h.nodeList, h.grpList, h.handed⟩

theorem DeliveryInv.exclusiveFinish (h : DeliveryInv s) (k : GrpId) :
    DeliveryInv (exclusiveFinish s k) := by
  unfold Esched.exclusiveFinish
  split
  · exact h.runStatus _
  · exact h

theorem DeliveryInv.hand (h : DeliveryInv s) {p : Published} {tid : ℕ}
    (hp : Handed.Directed ⟨p, k, tid, subscribed (s.grp k) p.event.eventId tid⟩) :
    DeliveryInv (hand s p k tid) :=
  ⟨h.grp, h.publishing, h.nodeList, h.grpList, List.forall_mem_cons.mpr ⟨hp, h.handed⟩⟩

/-! ## The searches -/

/-- A thread that is eligible for an event, by its own map or by the map of the
group, may be handed the event. -/
theorem directed_of_mem {p : Published} (hreach : grpMachine.Reach (s.grp k))
    (he : Eligible s.grp p) (hk : p.event.grpId = k) {tid : ℕ}
    (hmem : tid ∈ schedGetEventThreadMap (s.grp k) p.event) :
    registered (s.grp k) tid = true ∧
      Handed.Directed ⟨p, k, tid, subscribed (s.grp k) p.event.eventId tid⟩ := by
  obtain ⟨event, named⟩ := p
  cases named with
  | none =>
      have hmap : event.eventThreadMap = none := he.map
      rw [schedGetEventThreadMap, hmap, Option.getD_none] at hmem
      obtain ⟨hreg, hsub⟩ := ((grpMapInv_of_reach hreach).map_iff _ _).mp hmem
      exact ⟨hreg, hk.symm, hsub⟩
  | some t =>
      have hmap : event.eventThreadMap = some [t] := he.map
      rw [schedGetEventThreadMap, hmap, Option.getD_some, List.mem_singleton] at hmem
      exact ⟨hmem ▸ hk ▸ he.registered t rfl, hk.symm, hmem⟩

/-- A cpu only takes an event that a thread bound to it may handle. -/
theorem exists_bound_of_canHandle {grp : GrpId → SchedGrpCtx} {cpuid curTime : ℕ}
    {st st' : GrpId → RunStatus} {p : Published}
    (h : canHandle grp cpuid curTime st p = (true, st')) :
    ∃ t ∈ schedGetEventThreadMap (grp p.event.grpId) p.event,
      ((grp p.event.grpId).threadCtx t).bindCpuid = cpuid := by
  have hcpu : schedIsCpuHandleEvent (grp p.event.grpId) true p.event cpuid curTime = true := by
    have hfst := congrArg Prod.fst h
    simp only [canHandle, schedIsEventCanHandle] at hfst
    split_ifs at hfst with _ _ hcpu
    · exact hfst
    · exact hcpu
  unfold schedIsCpuHandleEvent at hcpu
  split at hcpu
  · cases hcpu
  · next t hfind =>
      exact ⟨t, List.mem_of_find?_eq_some hfind, by simpa using List.find?_some hfind⟩

theorem DeliveryInv.cpuSearch (h : DeliveryInv s) (cpuid procPri eventPri curTime : ℕ) :
    DeliveryInv (schedGetNextThreadInList s cpuid procPri eventPri curTime) := by
  unfold schedGetNextThreadInList
  split
  · exact h.runStatus _
  · next p l runStatus hsearch =>
      obtain ⟨hp, hl, st, hcan⟩ := mem_of_eventSearch hsearch
      obtain ⟨hmode, he⟩ := h.nodeList _ p hp
      have hreach := h.grp p.event.grpId
      obtain ⟨t, ht, hbind⟩ := exists_bound_of_canHandle hcan
      obtain ⟨hreg, hdirected⟩ := directed_of_mem hreach he rfl ht
      -- the thread that the cpu knows is the one that is bound to it
      have hcpu : (s.grp p.event.grpId).cpuidToTid cpuid = t :=
        ((grpMapInv_of_reach hreach).bound_iff hmode cpuid t hreg).mpr hbind
      have hset := (h.runStatus runStatus).setNodeList (procPri, eventPri)
        fun a ha => h.nodeList _ a (hl a ha)
      have hhand := hset.hand (k := p.event.grpId) hdirected
      dsimp only
      rw [hcpu]
      split
      · exact hhand.exclusiveFinish _
      · exact ⟨hhand.grp, hhand.publishing, hhand.nodeList, hhand.grpList, hhand.handed⟩

theorem DeliveryInv.nonSchedSearch (h : DeliveryInv s) {tid : ℕ}
    (hvalid : ((s.grp k).threadCtx tid).valid = true) (eventPri : ℕ) :
    DeliveryInv (schedGetNextNonSchedEvent s k tid eventPri) := by
  dsimp only [schedGetNextNonSchedEvent]
  split
  · exact h
  · next p l htake =>
      obtain ⟨hp, hcan, hl⟩ := mem_of_takeFirst htake
      obtain ⟨hk, he⟩ := h.grpList k eventPri p hp
      have htid := tid_of_reach (h.grp k) hvalid
      simp only [schedThreadCanHandleEvent, Bool.and_eq_true] at hcan
      obtain ⟨hsub, hmap⟩ := hcan
      have hmem : tid ∈ schedGetEventThreadMap (s.grp k) p.event := by
        unfold schedGetEventThreadMap
        split at hmap
        · next hnone =>
            rw [hnone, Option.getD_none]
            exact ((grpMapInv_of_reach (h.grp k)).map_iff _ tid).mpr ⟨hvalid, hsub⟩
        · next map hsome =>
            rw [hsome, Option.getD_some]
            rw [htid] at hmap
            exact List.contains_iff_mem.mp hmap
      have hset := h.setGrpList k eventPri fun a ha => h.grpList k eventPri a (hl a ha)
      exact hset.hand (directed_of_mem (h.grp k) he hk hmem).2

/-- What an exact fetch takes is handed over rightly under the condition, and
the other events stay. -/
theorem directed_of_exact {tid eventId cpuid procPri eventPri : ℕ} {p : Published}
    {l : SchedEventList Published}
    (hok : ExactIsDirected s (.exact k tid eventId cpuid procPri eventPri))
    (hsearch : ExactSearches s k tid cpuid)
    (hmap : ∀ p ∈ (exactList s k procPri eventPri).head, Eligible s.grp p)
    (htake : schedTakeFirst (fun p => schedIsSpecifiedEvent k eventId p.event)
      (exactList s k procPri eventPri) = some (p, l)) :
    Handed.Directed ⟨p, k, tid, subscribed (s.grp k) p.event.eventId tid⟩ := by
  obtain ⟨hp, hspec, -⟩ := mem_of_takeFirst htake
  have hfind : (exactList s k procPri eventPri).head.find?
      (fun p => schedIsSpecifiedEvent k eventId p.event) = some p := by
    obtain ⟨a, hfind, heq⟩ := Option.map_eq_some_iff.mp htake
    exact (Prod.mk.inj heq).1 ▸ hfind
  have hfit := hok hsearch p hfind
  have he := (hmap p hp).map
  simp only [schedIsSpecifiedEvent, decide_eq_true_eq] at hspec
  obtain ⟨-, hk⟩ := hspec
  refine ⟨hk.symm, ?_⟩
  unfold eventIsFor at hfit
  cases hnamed : p.tid with
  | none =>
      rw [he, hnamed] at hfit
      exact hfit
  | some t =>
      rw [he, hnamed] at hfit
      exact List.mem_singleton.mp (List.contains_iff_mem.mp hfit)

theorem DeliveryInv.exact (h : DeliveryInv s) {tid eventId cpuid procPri eventPri : ℕ}
    (hok : ExactIsDirected s (.exact k tid eventId cpuid procPri eventPri)) :
    DeliveryInv (schedGetExactEvent s k tid eventId cpuid procPri eventPri) := by
  dsimp only [schedGetExactEvent]
  split_ifs with hinit htid hrun hmode hcur
  · exact h
  · exact h
  · exact h
  · exact h
  · have hsearch : ExactSearches s k tid cpuid :=
      ⟨hinit, Nat.lt_of_not_le htid, not_not.mp hrun, fun _ => not_not.mp hcur⟩
    have hlist : exactList s k procPri eventPri = s.nodeList (procPri, eventPri) := if_pos hmode
    split
    · exact h
    · next p l htake =>
        have hdirected := directed_of_exact hok hsearch
          (by rw [hlist]; exact fun a ha => (h.nodeList _ a ha).2) htake
        obtain ⟨-, -, hl⟩ := mem_of_takeFirst htake
        rw [hlist] at hl
        have hset := h.setNodeList (procPri, eventPri) fun a ha => h.nodeList _ a (hl a ha)
        exact (hset.hand (k := k) hdirected).exclusiveFinish k
  · have hsearch : ExactSearches s k tid cpuid :=
      ⟨hinit, Nat.lt_of_not_le htid, not_not.mp hrun, fun hsched => absurd hsched hmode⟩
    have hlist : exactList s k procPri eventPri = s.grpList (k, eventPri) := if_neg hmode
    split
    · exact h
    · next p l htake =>
        have hdirected := directed_of_exact hok hsearch
          (by rw [hlist]; exact fun a ha => (h.grpList k _ a ha).2) htake
        obtain ⟨-, -, hl⟩ := mem_of_takeFirst htake
        rw [hlist] at hl
        have hset := h.setGrpList k eventPri fun a ha => h.grpList k _ a (hl a ha)
        exact hset.hand hdirected

end Inv

/-! ## Runs -/

theorem deliveryStep_inv {s s' : DeliveryState} {op : DeliveryOp} (h : DeliveryInv s)
    (hok : ExactIsDirected s op) (hstep : deliveryStep s op = some s') : DeliveryInv s' := by
  cases op with
  | group k op =>
      obtain ⟨grp, hgrp, rfl⟩ := Option.map_eq_some_iff.mp hstep
      exact h.group hgrp
  | publish k eventId tid =>
      obtain rfl := Option.some.inj hstep
      exact h.publishCheck k eventId tid
  | drop i =>
      obtain ⟨p, -, rfl⟩ := Option.map_eq_some_iff.mp hstep
      exact h.withdraw i
  | enqueue i procPri eventPri =>
      obtain ⟨p, hp, rfl⟩ := Option.map_eq_some_iff.mp hstep
      exact (h.withdraw i).enqueue (h.publishing p (List.mem_of_getElem? hp)) procPri eventPri
  | cpuSearch cpuid procPri eventPri curTime =>
      obtain rfl := Option.some.inj hstep
      exact h.cpuSearch cpuid procPri eventPri curTime
  | nonSchedSearch k tid eventPri =>
      simp only [deliveryStep, Option.ite_none_right_eq_some, Option.some.injEq] at hstep
      obtain ⟨⟨-, hvalid, -⟩, rfl⟩ := hstep
      exact h.nonSchedSearch hvalid eventPri
  | exact k tid eventId cpuid procPri eventPri =>
      obtain rfl := Option.some.inj hstep
      exact h.exact hok
  | exclusiveFinish k =>
      obtain rfl := Option.some.inj hstep
      exact h.exclusiveFinish k

/-- Where every exact fetch finds an event for its thread first, every event is
handed to a thread that it is for. -/
theorem handed_directed_of_exact {s : DeliveryState}
    (h : deliveryMachine.ReachIf ExactIsDirected s) : ∀ h ∈ s.handed, h.Directed := by
  refine DeliveryInv.handed (h.invariant ?_ ?_)
  · rintro s ⟨nodeDepth, grpDepth, rfl⟩
    refine ⟨fun k => .start rfl, ?_, ?_, ?_, ?_⟩ <;> simp [initDelivery]
  · intro s op s' hinv hok hstep
    exact deliveryStep_inv hinv hok hstep

/-- Two threads of a group that is not scheduled subscribe event 0, and the
first one gets an event. -/
def setupRun : List DeliveryOp :=
  [.group (7, 0) (.addGrp .bindCpCpu 2 true), .group (7, 0) (.subscribe 0 1),
    .group (7, 0) (.subscribe 1 1), .group (7, 0) (.wait 0 none 100 false),
    .group (7, 0) (.wait 1 none 101 false), .publish (7, 0) 0 none, .enqueue 0 0 0,
    .nonSchedSearch (7, 0) 0 0, .group (7, 0) (.waitReturn 0 .run)]

/-- The first thread fetches an event that names it. -/
def directedRun : List DeliveryOp :=
  setupRun ++ [.publish (7, 0) 0 (some 0), .enqueue 0 0 0, .exact (7, 0) 0 0 1 0 0]

theorem handed_directed_of_exact_fetched :
    let s := deliveryMachine.final (initDelivery 4 4) directedRun
    s.handed.map (·.tid) = [0, 0] ∧ ∀ h ∈ s.handed, h.Directed := by
  refine ⟨by decide +kernel, handed_directed_of_exact ?_⟩
  exact Machine.ReachIf.final (.start ⟨4, 4, rfl⟩) (by decide +kernel) (by decide +kernel)

/-- The first thread fetches an event that names the second one. -/
def misdirectedRun : List DeliveryOp :=
  setupRun ++ [.publish (7, 0) 0 (some 1), .enqueue 0 0 0, .exact (7, 0) 0 0 1 0 0]

theorem exact_event_misdirected :
    let s := deliveryMachine.final (initDelivery 4 4) misdirectedRun
    deliveryMachine.Reach s ∧ ¬ ∀ h ∈ s.handed, h.Directed := by
  have hhanded : (⟨⟨⟨7, 0, 0, some [1]⟩, some 1⟩, (7, 0), 0, true⟩ : Handed) ∈
      (deliveryMachine.final (initDelivery 4 4) misdirectedRun).handed := by
    decide +kernel
  refine ⟨Machine.Reach.final (.start ⟨4, 4, rfl⟩) (by decide +kernel), fun h => ?_⟩
  have hdirected : 0 = 1 := (h _ hhanded).2
  cases hdirected

end OpiaiKernel.Esched
