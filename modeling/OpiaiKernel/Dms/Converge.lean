import OpiaiKernel.Dms.EventList

/-!
# Convergence of alarms

Event ids form a forest; an occurrence is reported under the id of the highest
node that it reaches.  It climbs until it meets a node that is asserted already or
masked.  A resumption climbs as long as no sibling is asserted.  The root keeps
the event that it is reported with, and a masked root stays out of the event list.

The functions are translated from `dms_event_converge.c` and `dms_event.c`, for
one device and with allocation succeeding.  The parent and the next sibling of a
node are given; the siblings stand in a ring.
-/

namespace OpiaiKernel.Dms

abbrev EVENT_CONVERGE_ID_NUM_MAX : ℕ := 130

abbrev EVENT_CONVERGE_DIAGRAMS_LAYER_MAX : ℕ := 3

/-- `DMS_EVENT_CODE_CLEAR_SERVERITY_ASSERTION`. -/
def clearServerityAssertion (code : UInt32) : UInt32 := code &&& 0xc1ffffff

/-- `EVENT_CONVERGE_ID_ADD_CONVERGE_FLAG`. -/
def addConvergeFlag (eventId : UInt32) : UInt32 := eventId ||| 0x10000000

/-- `next` leads from `a` over the list to `b`. -/
def Follows (next : UInt32 → UInt32) (a : UInt32) : List UInt32 → UInt32 → Prop
  | [], b => next a = b
  | c :: l, b => next a = c ∧ Follows next c l b

/-- The diagrams of convergence: the nodes of the table by their ids, the children
of a node in a ring, the layers within the checked limit.  A root carries the
converge flag. -/
structure Forest where
  nodes : List UInt32
  parent : UInt32 → Option UInt32
  broNext : UInt32 → UInt32
  layer : UInt32 → ℕ
  severity : UInt32 → UInt8 → UInt8
  parent_mem : ∀ {n p}, parent n = some p → n ∈ nodes ∧ p ∈ nodes
  ring : ∀ {n p}, parent n = some p → ∃ l : List UInt32, l.length ≤ EVENT_CONVERGE_ID_NUM_MAX ∧
    n ∉ l ∧ Follows broNext n l n ∧ ∀ m, m ∈ l ↔ m ≠ n ∧ parent m = some p
  layer_parent : ∀ {n p}, parent n = some p → layer n = layer p + 1
  layer_le : ∀ n, layer n ≤ EVENT_CONVERGE_DIAGRAMS_LAYER_MAX
  root_flag : ∀ {r}, r ∈ nodes → parent r = none →
    addConvergeFlag (clearServerityAssertion r) = r

/-- `EVENT_CONVERGE_NODE_T` for the device, node by node, and the event list. -/
structure ConvergeState where
  asserted : UInt32 → Bool
  mask : UInt32 → Bool
  eventSerialNum : UInt32 → Int32
  exceptionData : UInt32 → Option DmsEventPara
  eventList : DmsConvergeEventList

namespace ConvergeState

def assert (s : ConvergeState) (n : UInt32) (serial : Int32) : ConvergeState :=
  { s with
    asserted := Function.update s.asserted n true
    eventSerialNum := Function.update s.eventSerialNum n serial }

def resume (s : ConvergeState) (n : UInt32) : ConvergeState :=
  { s with
    asserted := Function.update s.asserted n false
    eventSerialNum := Function.update s.eventSerialNum n 0 }

def setData (s : ConvergeState) (n : UInt32) (data : Option DmsEventPara) : ConvergeState :=
  { s with exceptionData := Function.update s.exceptionData n data }

end ConvergeState

variable (f : Forest)

/-! ## Occurrences -/

/-- The event as the root keeps it. -/
def topException (n : UInt32) (exception : DmsEventPara) : DmsEventPara :=
  { exception with
    eventId := clearServerityAssertion n
    severity := f.severity n exception.severity }

/-- A root that has no event yet keeps this one. -/
def storeTop (s : ConvergeState) (n : UInt32) (exception : DmsEventPara) : ConvergeState :=
  if f.parent n = none ∧ s.exceptionData n = none then
    s.setData n (some (topException f n exception))
  else s

/-- The loop of `dms_event_obj_converge_occur` from a node on. -/
def occurClimb : ℕ → ConvergeState → DmsEventPara → UInt32 →
    DrvError × ConvergeState × DmsEventPara
  | 0, s, exception, _ => (.none, s, exception)
  | fuel + 1, s, exception, n =>
      let s := storeTop f s n exception
      if s.asserted n ∨ s.mask n then (.eventNotMatch, s, exception)
      else
        let s := s.assert n exception.eventSerialNum
        let exception := { exception with eventId := clearServerityAssertion n }
        match f.parent n with
        | none => (.none, s, exception)
        | some p => occurClimb fuel s exception p

def dmsEventObjConvergeOccur (s : ConvergeState) (exception : DmsEventPara) :
    DrvError × ConvergeState × DmsEventPara :=
  if exception.eventId ∈ f.nodes then
    occurClimb f (EVENT_CONVERGE_ID_NUM_MAX + 2) s exception exception.eventId
  else (.none, s, exception)

/-! ## Resumptions -/

/-- The loop over the ring of the siblings. -/
def broAsserted (s : ConvergeState) (n : UInt32) : ℕ → UInt32 → Bool
  | 0, _ => false
  | fuel + 1, bro =>
      if bro = n then false
      else if s.asserted bro then true
      else broAsserted s n fuel (f.broNext bro)

/-- At the top the event of the root goes into the resumption and is freed. -/
def resumeTop (s : ConvergeState) (exception : DmsEventPara) (n : UInt32) (maskFlag : Bool) :
    DrvError × ConvergeState × DmsEventPara :=
  let ret : DrvError := if maskFlag then .eventNotMatch else .none
  match s.exceptionData n with
  | none => (ret, s, exception)
  | some data =>
      (ret, s.setData n none,
        { exception with eventSerialNum := data.eventSerialNum, severity := data.severity })

/-- The loop of `dms_event_obj_converge_resume` from a resumed node on. -/
def resumeClimb : ℕ → ConvergeState → DmsEventPara → UInt32 → Bool →
    DrvError × ConvergeState × DmsEventPara
  | 0, s, exception, n, maskFlag => resumeTop s exception n maskFlag
  | fuel + 1, s, exception, n, maskFlag =>
      match f.parent n with
      | none => resumeTop s exception n maskFlag
      | some p =>
          if broAsserted f s n (EVENT_CONVERGE_ID_NUM_MAX + 1) (f.broNext n) then
            (.eventNotMatch, s, exception)
          else
            resumeClimb fuel (s.resume p)
              { exception with
                eventId := clearServerityAssertion p
                eventSerialNum := s.eventSerialNum p }
              p (s.mask p || maskFlag)

def dmsEventObjConvergeResume (s : ConvergeState) (exception : DmsEventPara) :
    DrvError × ConvergeState × DmsEventPara :=
  let n := exception.eventId
  if n ∈ f.nodes then
    if s.asserted n = false then (.eventNotMatch, s, exception)
    else resumeClimb f (EVENT_CONVERGE_ID_NUM_MAX + 1) (s.resume n) exception n (s.mask n)
  else (.none, s, exception)

/-! ## Masks -/

def dmsEventMaskAddToEventCb (s : ConvergeState) (eventId : UInt32) : ConvergeState :=
  let n := addConvergeFlag eventId
  if n ∈ f.nodes ∧ s.mask n then
    match s.exceptionData n with
    | none => s
    | some data =>
        { s with eventList := (dmsEventConvergeOccurAddToCb s.eventList data true).2 }
  else s

def dmsEventConvergentDiagramsMask (s : ConvergeState) (eventId : UInt32) (mask : Bool) :
    ConvergeState :=
  if addConvergeFlag eventId ∈ f.nodes then
    { s with mask := Function.update s.mask (addConvergeFlag eventId) mask }
  else if eventId ∈ f.nodes then { s with mask := Function.update s.mask eventId mask }
  else s

def dmsEventMaskByPhyid (s : ConvergeState) (eventId : UInt32) (mask : Bool) : ConvergeState :=
  let s :=
    if mask then { s with eventList := dmsEventMaskDelToEventCb s.eventList eventId }
    else dmsEventMaskAddToEventCb f s eventId
  dmsEventConvergentDiagramsMask f s eventId mask

/-! ## Events -/

/-- An event that is reported has the severity of its id. -/
def reportSeverity (exception : DmsEventPara) : DmsEventPara :=
  { exception with severity := f.severity exception.eventId exception.severity }

/-- An occurrence goes to the event list when the convergence reports it. -/
def occurEvent (s : ConvergeState) (exception : DmsEventPara) : ConvergeState :=
  match dmsEventObjConvergeOccur f s exception with
  | (.none, s, exception) =>
      { s with eventList :=
          (dmsEventConvergeOccurAddToCb s.eventList (reportSeverity f exception) true).2 }
  | (_, s, _) => s

def resumeEvent (s : ConvergeState) (exception : DmsEventPara) : ConvergeState :=
  match dmsEventObjConvergeResume f s exception with
  | (.none, s, exception) =>
      { s with eventList :=
          (dmsEventConvergeResumeAddToCb s.eventList (reportSeverity f exception)).2.1 }
  | (_, s, _) => s

theorem clear_addConvergeFlag (x : UInt32) :
    clearServerityAssertion (addConvergeFlag x) = clearServerityAssertion x := by
  apply UInt32.toBitVec_inj.mp
  simp only [clearServerityAssertion, addConvergeFlag, UInt32.toBitVec_and, UInt32.toBitVec_or,
    BitVec.and_or_distrib_right]
  have hflag : (0x10000000 : UInt32).toBitVec &&& (0xc1ffffff : UInt32).toBitVec = 0 := by decide
  rw [hflag]
  exact BitVec.or_zero

/-! ## Siblings -/

variable {f : Forest} {s t : ConvergeState} {n p : UInt32} {exception : DmsEventPara}

theorem broAsserted_follows {l : List UInt32} {b : UInt32} (hl : Follows f.broNext b l n)
    (hn : n ∉ l) {fuel : ℕ} (hfuel : l.length < fuel) :
    broAsserted f s n fuel (f.broNext b) = l.any s.asserted := by
  induction l generalizing b fuel with
  | nil =>
      obtain ⟨fuel, rfl⟩ := Nat.exists_eq_add_one_of_ne_zero (Nat.ne_of_gt hfuel)
      rw [broAsserted, hl, if_pos rfl]
      rfl
  | cons c l ih =>
      obtain ⟨fuel, rfl⟩ := Nat.exists_eq_add_one_of_ne_zero (Nat.ne_of_gt (Nat.zero_lt_of_lt hfuel))
      obtain ⟨hc, hrest⟩ := hl
      have hne : c ≠ n := fun heq => hn (heq ▸ List.mem_cons_self)
      rw [broAsserted, hc, if_neg hne, List.any_cons]
      by_cases ha : s.asserted c = true
      · rw [if_pos ha, ha, Bool.true_or]
      · rw [if_neg ha, ih hrest (fun hmem => hn (List.mem_cons_of_mem _ hmem))
          (Nat.lt_of_succ_lt_succ hfuel)]
        simp [ha]

/-- The ring holds the other children of the parent. -/
theorem broAsserted_iff (hp : f.parent n = some p) :
    broAsserted f s n (EVENT_CONVERGE_ID_NUM_MAX + 1) (f.broNext n) = true ↔
      ∃ m, m ≠ n ∧ f.parent m = some p ∧ s.asserted m = true := by
  obtain ⟨l, hlen, hn, hl, hmem⟩ := f.ring hp
  rw [broAsserted_follows hl hn (Nat.lt_succ_of_le hlen), List.any_eq_true]
  constructor
  · rintro ⟨m, hm, ha⟩
    obtain ⟨hne, hpar⟩ := (hmem m).mp hm
    exact ⟨m, hne, hpar, ha⟩
  · rintro ⟨m, hne, hpar, ha⟩
    exact ⟨m, (hmem m).mpr ⟨hne, hpar⟩, ha⟩

/-! ## What an occurrence does -/

/-- The root of a tree. -/
def Forest.Root (f : Forest) (r : UInt32) : Prop := r ∈ f.nodes ∧ f.parent r = none

/-- What the climb of an occurrence from `n` on does to the nodes. -/
structure Climbed (f : Forest) (s : ConvergeState) (n : UInt32) (t : ConvergeState) : Prop where
  mono : ∀ m, s.asserted m = true → t.asserted m = true
  mask : t.mask = s.mask
  eventList : t.eventList = s.eventList
  reached : s.mask n = false → t.asserted n = true
  child : ∀ m, t.asserted m = true → s.asserted m = false → m ≠ n →
    ∃ c, f.parent c = some m ∧ t.asserted c = true
  carried : ∀ m, t.asserted m = true → s.asserted m = false → ∀ q, f.parent m = some q →
    s.mask q = false → t.asserted q = true
  serial : ∀ m, t.asserted m = false → t.eventSerialNum m = s.eventSerialNum m

/-- What it does to the events of the roots, and the event that it reports. -/
structure Topped (f : Forest) (s : ConvergeState) (exception : DmsEventPara) (n : UInt32)
    (ret : DrvError) (t : ConvergeState) (exception' : DmsEventPara) : Prop where
  kept : ∀ r d, s.exceptionData r = some d → t.exceptionData r = some d
  new : ∀ r d, t.exceptionData r = some d → s.exceptionData r = none →
    f.Root r ∧ (r = n ∨ ∃ c, f.parent c = some r ∧ t.asserted c = true) ∧
      d.eventId = clearServerityAssertion r ∧ d.eventSerialNum = exception.eventSerialNum
  one : ∀ r r' d d', t.exceptionData r = some d → s.exceptionData r = none →
    t.exceptionData r' = some d' → s.exceptionData r' = none → r = r'
  stored : ∀ r, f.Root r →
    (r = n ∨ ∃ c, f.parent c = some r ∧ t.asserted c = true ∧ s.asserted c = false) →
    t.exceptionData r ≠ none
  reported : ret = .none → exception'.eventSerialNum = exception.eventSerialNum ∧
    ∃ r, f.Root r ∧ s.mask r = false ∧ exception'.eventId = clearServerityAssertion r ∧
      t.exceptionData r ≠ none ∧
      ∀ r' d, t.exceptionData r' = some d → s.exceptionData r' = none → r' = r
  withheld : ret ≠ .none → ∀ r d, t.exceptionData r = some d → s.exceptionData r = none →
    s.mask r = true ∨ s.asserted r = true

theorem storeTop_fields (f : Forest) (s : ConvergeState) (n : UInt32) (exception : DmsEventPara) :
    (storeTop f s n exception).asserted = s.asserted ∧ (storeTop f s n exception).mask = s.mask ∧
      (storeTop f s n exception).eventSerialNum = s.eventSerialNum ∧
      (storeTop f s n exception).eventList = s.eventList := by
  unfold storeTop
  split <;> exact ⟨rfl, rfl, rfl, rfl⟩

theorem storeTop_data {r : UInt32} :
    (storeTop f s n exception).exceptionData r =
      if r = n ∧ f.parent n = none ∧ s.exceptionData n = none then
        some (topException f n exception)
      else s.exceptionData r := by
  unfold storeTop
  split_ifs with hstore h h
  · rw [h.1]
    exact Function.update_self _ _ _
  · exact Function.update_of_ne (fun heq => h ⟨heq, hstore⟩) _ _
  · exact absurd h.2 hstore
  · rfl

theorem storeTop_of_parent (hp : f.parent n = some p) : storeTop f s n exception = s := by
  rw [storeTop, if_neg]
  rintro ⟨hnone, -⟩
  rw [hp] at hnone
  cases hnone

theorem assert_asserted {m : UInt32} {serial : Int32} (h : (s.assert n serial).asserted m = true)
    (hm : s.asserted m = false) : m = n := by
  by_contra hne
  have hold : (s.assert n serial).asserted m = s.asserted m := Function.update_of_ne hne _ _
  rw [hold, hm] at h
  cases h

theorem asserted_of_assert {m : UInt32} (serial : Int32) (h : s.asserted m = true) :
    (s.assert n serial).asserted m = true := by
  by_cases hm : m = n
  · rw [hm]
    exact Function.update_self _ _ _
  · exact (Function.update_of_ne hm _ _).trans h

theorem Climbed.stop (hn : s.mask n = false → s.asserted n = true) :
    Climbed f s n (storeTop f s n exception) := by
  obtain ⟨hasserted, hmask, hserial, hlist⟩ := storeTop_fields f s n exception
  refine ⟨fun m h => hasserted ▸ h, hmask, hlist, fun h => hasserted ▸ hn h, ?_, ?_,
    fun m _ => congrFun hserial m⟩
  · intro m h hs
    rw [hasserted, hs] at h
    cases h
  · intro m h hs
    rw [hasserted, hs] at h
    cases h

theorem Climbed.top (hroot : f.parent n = none) {serial : Int32} :
    Climbed f s n ((storeTop f s n exception).assert n serial) := by
  obtain ⟨hasserted, hmask, hserial, hlist⟩ := storeTop_fields f s n exception
  refine ⟨fun m h => asserted_of_assert serial (hasserted ▸ h), hmask, hlist,
    fun _ => Function.update_self _ _ _, ?_, ?_, ?_⟩
  · intro m h hs hne
    exact absurd (assert_asserted h (hasserted ▸ hs)) hne
  · intro m h hs q hq
    obtain rfl := assert_asserted h (hasserted ▸ hs)
    rw [hroot] at hq
    cases hq
  · intro m h
    have hne : m ≠ n := by
      rintro rfl
      exact Bool.false_ne_true (h.symm.trans (Function.update_self _ _ _))
    exact (Function.update_of_ne hne _ _).trans (congrFun hserial m)

theorem Climbed.next (hp : f.parent n = some p) {serial : Int32}
    (h : Climbed f (s.assert n serial) p t) : Climbed f s n t := by
  have hself : t.asserted n = true := h.mono n (Function.update_self _ _ _)
  have hother : ∀ {m}, m ≠ n → (s.assert n serial).asserted m = s.asserted m := fun hne =>
    Function.update_of_ne hne _ _
  refine ⟨fun m hm => h.mono m (asserted_of_assert serial hm), h.mask, h.eventList,
    fun _ => hself, ?_, ?_, ?_⟩
  · intro m ht hs hne
    by_cases hmp : m = p
    · exact ⟨n, hmp ▸ hp, hself⟩
    · exact h.child m ht ((hother hne).trans hs) hmp
  · intro m ht hs q hq hmask
    by_cases hmn : m = n
    · subst hmn
      rw [hp] at hq
      obtain rfl := Option.some.inj hq
      exact h.reached hmask
    · exact h.carried m ht ((hother hmn).trans hs) q hq hmask
  · intro m ht
    have hne : m ≠ n := by
      rintro rfl
      exact Bool.false_ne_true (ht.symm.trans hself)
    exact (h.serial m ht).trans (Function.update_of_ne hne _ _)

/-- The climb ends at a masked or asserted node, or at the root. -/
theorem occurClimb_climbed {fuel : ℕ} (hfuel : f.layer n < fuel) :
    Climbed f s n (occurClimb f fuel s exception n).2.1 := by
  induction fuel generalizing s exception n with
  | zero => exact absurd hfuel (Nat.not_lt_zero _)
  | succ fuel ih =>
      obtain ⟨hasserted, hmask, -, -⟩ := storeTop_fields f s n exception
      rw [occurClimb]
      dsimp only
      by_cases hstop : (storeTop f s n exception).asserted n = true ∨
          (storeTop f s n exception).mask n = true
      · rw [if_pos hstop]
        rw [hasserted, hmask] at hstop
        exact .stop fun hm => hstop.resolve_right (by simp [hm])
      · rw [if_neg hstop]
        cases hp : f.parent n with
        | none => exact .top hp
        | some p =>
            have hlayer := f.layer_parent hp
            rw [storeTop_of_parent hp]
            exact (ih (by omega)).next hp

theorem storeTop_new {r : UInt32} {d : DmsEventPara} (hn : n ∈ f.nodes)
    (h : (storeTop f s n exception).exceptionData r = some d) (hs : s.exceptionData r = none) :
    r = n ∧ f.Root n ∧ d = topException f n exception := by
  rw [storeTop_data] at h
  split_ifs at h with hnew
  · exact ⟨hnew.1, ⟨hn, hnew.2.1⟩, (Option.some.inj h).symm⟩
  · rw [hs] at h
    cases h

theorem storeTop_kept {r : UInt32} {d : DmsEventPara} (h : s.exceptionData r = some d) :
    (storeTop f s n exception).exceptionData r = some d := by
  rw [storeTop_data, if_neg, h]
  rintro ⟨rfl, -, hnone⟩
  rw [h] at hnone
  cases hnone

theorem storeTop_self (hroot : f.parent n = none) :
    (storeTop f s n exception).exceptionData n ≠ none := by
  rw [storeTop_data]
  split_ifs with h
  · exact Option.some_ne_none _
  · exact fun hnone => h ⟨rfl, hroot, hnone⟩

/-- A climb that ends at its first node stores the event at most there. -/
theorem Topped.here {ret : DrvError} {exception' : DmsEventPara} (hn : n ∈ f.nodes)
    (hdata : t.exceptionData = (storeTop f s n exception).exceptionData)
    (hfresh : ∀ r c, f.parent c = some r → t.asserted c = true → s.asserted c = false → False)
    (hreported : ret = .none → f.Root n ∧ s.mask n = false ∧
      exception' = { exception with eventId := clearServerityAssertion n })
    (hwithheld : ret ≠ .none → s.mask n = true ∨ s.asserted n = true) :
    Topped f s exception n ret t exception' := by
  refine ⟨?_, ?_, ?_, ?_, ?_, ?_⟩
  · intro r d h
    rw [hdata]
    exact storeTop_kept h
  · intro r d h hs
    rw [hdata] at h
    obtain ⟨rfl, hroot, rfl⟩ := storeTop_new hn h hs
    exact ⟨hroot, .inl rfl, rfl, rfl⟩
  · intro r r' d d' h hs h' hs'
    rw [hdata] at h h'
    exact (storeTop_new hn h hs).1.trans (storeTop_new hn h' hs').1.symm
  · rintro r hroot (rfl | ⟨c, hc, ht, hs⟩)
    · rw [hdata]
      exact storeTop_self hroot.2
    · exact (hfresh r c hc ht hs).elim
  · intro hret
    obtain ⟨hroot, hmask, rfl⟩ := hreported hret
    refine ⟨rfl, n, hroot, hmask, rfl, ?_, ?_⟩
    · rw [hdata]
      exact storeTop_self hroot.2
    · intro r d h hs
      rw [hdata] at h
      exact (storeTop_new hn h hs).1
  · intro hret r d h hs
    rw [hdata] at h
    rw [(storeTop_new hn h hs).1]
    exact hwithheld hret

theorem Topped.next {ret : DrvError} {exception' : DmsEventPara} (hp : f.parent n = some p)
    (hself : t.asserted n = true)
    (h : Topped f (s.assert n exception.eventSerialNum)
      { exception with eventId := clearServerityAssertion n } p ret t exception') :
    Topped f s exception n ret t exception' := by
  refine ⟨h.kept, ?_, h.one, ?_, h.reported, ?_⟩
  · intro r d ht hs
    obtain ⟨hroot, hwhere, hid, hserial⟩ := h.new r d ht hs
    refine ⟨hroot, .inr ?_, hid, hserial⟩
    rcases hwhere with rfl | hchild
    · exact ⟨n, hp, hself⟩
    · exact hchild
  · rintro r hroot (rfl | ⟨c, hc, ht, hs⟩)
    · rw [hroot.2] at hp
      cases hp
    · by_cases hcn : c = n
      · rw [hcn, hp] at hc
        exact h.stored r hroot (.inl (Option.some.inj hc).symm)
      · exact h.stored r hroot (.inr ⟨c, hc, ht, (Function.update_of_ne hcn _ _).trans hs⟩)
  · intro hret r d ht hs
    rcases h.withheld hret r d ht hs with hmask | hasserted
    · exact .inl hmask
    · have hrn : r ≠ n := by
        rintro rfl
        have hroot := (h.new r d ht hs).1
        rw [hroot.2] at hp
        cases hp
      exact .inr ((Function.update_of_ne hrn _ _).symm.trans hasserted)

theorem occurClimb_topped {fuel : ℕ} (hfuel : f.layer n < fuel) (hn : n ∈ f.nodes) :
    Topped f s exception n (occurClimb f fuel s exception n).1
      (occurClimb f fuel s exception n).2.1 (occurClimb f fuel s exception n).2.2 := by
  induction fuel generalizing s exception n with
  | zero => exact absurd hfuel (Nat.not_lt_zero _)
  | succ fuel ih =>
      obtain ⟨hasserted, hmask, -, -⟩ := storeTop_fields f s n exception
      rw [occurClimb]
      dsimp only
      by_cases hstop : (storeTop f s n exception).asserted n = true ∨
          (storeTop f s n exception).mask n = true
      · rw [if_pos hstop]
        rw [hasserted, hmask] at hstop
        refine .here hn rfl ?_ (fun hret => nomatch hret) fun _ => hstop.symm
        intro r c _ ht hs
        dsimp only at ht
        rw [hasserted, hs] at ht
        cases ht
      · rw [if_neg hstop]
        rw [hasserted, hmask] at hstop
        cases hp : f.parent n with
        | none =>
            refine .here hn rfl ?_ (fun _ => ⟨⟨hn, hp⟩, ?_, rfl⟩) fun hret => absurd rfl hret
            · intro r c hc ht hs
              obtain rfl := assert_asserted ht (hasserted ▸ hs)
              rw [hp] at hc
              cases hc
            · simpa using fun hm => hstop (.inr hm)
        | some p =>
            have hlayer := f.layer_parent hp
            rw [storeTop_of_parent hp]
            have hclimbed : Climbed f (s.assert n exception.eventSerialNum) p
                (occurClimb f fuel (s.assert n exception.eventSerialNum)
                  { exception with eventId := clearServerityAssertion n } p).2.1 :=
              occurClimb_climbed (by omega)
            exact (ih (by omega) (f.parent_mem hp).2).next hp
              (hclimbed.mono n (Function.update_self _ _ _))

theorem occurClimb_self {fuel : ℕ} (hfuel : f.layer n < fuel) :
    (occurClimb f fuel s exception n).2.1.asserted n = (s.asserted n || !s.mask n) := by
  have hc : Climbed f s n (occurClimb f fuel s exception n).2.1 := occurClimb_climbed hfuel
  cases ha : s.asserted n with
  | true => exact hc.mono n ha
  | false =>
      cases hm : s.mask n with
      | false => exact hc.reached hm
      | true =>
          obtain ⟨fuel, rfl⟩ :=
            Nat.exists_eq_add_one_of_ne_zero (Nat.ne_of_gt (Nat.zero_lt_of_lt hfuel))
          obtain ⟨hasserted, hmask, -, -⟩ := storeTop_fields f s n exception
          have hstop : (storeTop f s n exception).asserted n = true ∨
              (storeTop f s n exception).mask n = true := by
            rw [hmask]
            exact .inr hm
          rw [occurClimb]
          dsimp only
          rw [if_pos hstop]
          dsimp only
          rw [hasserted, ha]
          rfl

/-! ## What a resumption does -/

/-- What the climb of a resumption from the resumed node `n` on does.  Every parent
that it looks at keeps an asserted child, or is resumed too. -/
structure Resumed (f : Forest) (s : ConvergeState) (exception : DmsEventPara) (n : UInt32)
    (ret : DrvError) (t : ConvergeState) (exception' : DmsEventPara) : Prop where
  mono : ∀ m, t.asserted m = true → s.asserted m = true
  mask : t.mask = s.mask
  eventList : t.eventList = s.eventList
  path : ∀ m q, f.parent m = some q → m = n ∨ s.asserted m = true ∧ t.asserted m = false →
    (∃ c, f.parent c = some q ∧ t.asserted c = true) ∨
      t.asserted q = false ∧ (f.parent q = none → t.exceptionData q = none)
  dropped : ∀ m, s.asserted m = true → t.asserted m = false → ∀ c, f.parent c = some m →
    t.asserted c = false
  inner : ∀ m, s.asserted m = true → t.asserted m = false → ∃ c, f.parent c = some m
  serial : ∀ m, t.eventSerialNum m = 0 ∨
    t.eventSerialNum m = s.eventSerialNum m ∧ t.asserted m = s.asserted m
  data : ∀ r, t.exceptionData r = s.exceptionData r ∨
    t.exceptionData r = none ∧ f.parent r = none ∧
      (r = n ∨ ∀ c, f.parent c = some r → t.asserted c = false)
  freed : f.parent n = none → t.exceptionData n = none
  reported : ret = .none → ∃ r, f.Root r ∧ t.exceptionData r = none ∧
    (∀ r', r' ≠ r → t.exceptionData r' = s.exceptionData r') ∧
    (∀ d, s.exceptionData r = some d → exception'.eventSerialNum = d.eventSerialNum) ∧
    (s.exceptionData r = none → r = n ∧ exception'.eventSerialNum = exception.eventSerialNum ∨
      r ≠ n ∧ exception'.eventSerialNum = s.eventSerialNum r)

theorem resumeTop_spec (hroot : f.Root n) (maskFlag : Bool) :
    Resumed f s exception n (resumeTop s exception n maskFlag).1
      (resumeTop s exception n maskFlag).2.1 (resumeTop s exception n maskFlag).2.2 := by
  have hpath : ∀ m q, f.parent m = some q → m ≠ n := by
    rintro m q hq rfl
    rw [hroot.2] at hq
    cases hq
  cases hdata : s.exceptionData n with
  | none =>
      simp only [resumeTop, hdata]
      have hsame : ∀ m, s.asserted m = true → s.asserted m = false → ∃ c, f.parent c = some m :=
        fun m hs ht => absurd (hs.symm.trans ht) (by decide)
      refine ⟨fun _ h => h, rfl, rfl, ?_, ?_, hsame, fun _ => .inr ⟨rfl, rfl⟩, fun _ => .inl rfl,
        fun _ => hdata, ?_⟩
      · rintro m q hq (heq | ⟨hs, ht⟩)
        · exact absurd heq (hpath m q hq)
        · exact absurd (hs.symm.trans ht) (by decide)
      · intro m hs ht
        exact absurd (hs.symm.trans ht) (by decide)
      · intro _
        refine ⟨n, hroot, hdata, fun _ _ => rfl, ?_, fun _ => .inl ⟨rfl, rfl⟩⟩
        intro d hd
        rw [hdata] at hd
        cases hd
  | some top =>
      have hother : ∀ r, r ≠ n → (s.setData n none).exceptionData r = s.exceptionData r :=
        fun r hr => Function.update_of_ne hr _ _
      have hself : (s.setData n none).exceptionData n = none := Function.update_self _ _ _
      simp only [resumeTop, hdata]
      have hsame : ∀ m, s.asserted m = true → s.asserted m = false → ∃ c, f.parent c = some m :=
        fun m hs ht => absurd (hs.symm.trans ht) (by decide)
      refine ⟨fun _ h => h, rfl, rfl, ?_, ?_, hsame, fun _ => .inr ⟨rfl, rfl⟩, ?_,
        fun _ => hself, ?_⟩
      · rintro m q hq (heq | ⟨hs, ht⟩)
        · exact absurd heq (hpath m q hq)
        · exact absurd (hs.symm.trans ht) (by decide)
      · intro m hs ht
        exact absurd (hs.symm.trans ht) (by decide)
      · intro r
        by_cases hr : r = n
        · subst hr
          exact .inr ⟨hself, hroot.2, .inl rfl⟩
        · exact .inl (hother r hr)
      · intro _
        refine ⟨n, hroot, hself, hother, ?_, ?_⟩
        · intro d hd
          rw [hdata] at hd
          obtain rfl := Option.some.inj hd
          rfl
        · intro hnone
          rw [hdata] at hnone
          cases hnone

/-- A sibling that is asserted ends the climb. -/
theorem Resumed.blocked (hp : f.parent n = some p)
    (hbro : ∃ m, m ≠ n ∧ f.parent m = some p ∧ s.asserted m = true) :
    Resumed f s exception n .eventNotMatch s exception := by
  have hsame : ∀ m, s.asserted m = true → s.asserted m = false → ∃ c, f.parent c = some m :=
    fun m hs ht => absurd (hs.symm.trans ht) (by decide)
  refine ⟨fun _ h => h, rfl, rfl, ?_, ?_, hsame, fun _ => .inr ⟨rfl, rfl⟩, fun _ => .inl rfl, ?_,
    fun hret => nomatch hret⟩
  · rintro m q hq (rfl | ⟨hs, ht⟩)
    · rw [hp] at hq
      obtain rfl := Option.some.inj hq
      obtain ⟨c, -, hc, ha⟩ := hbro
      exact .inl ⟨c, hc, ha⟩
    · exact absurd (hs.symm.trans ht) (by decide)
  · intro m hs ht
    exact absurd (hs.symm.trans ht) (by decide)
  · intro hnone
    rw [hp] at hnone
    cases hnone

/-- Without an asserted sibling the parent is resumed and the climb goes on. -/
theorem Resumed.next {ret : DrvError} {exception' : DmsEventPara} (hp : f.parent n = some p)
    (hself : s.asserted n = false)
    (hbro : ¬∃ m, m ≠ n ∧ f.parent m = some p ∧ s.asserted m = true)
    (h : Resumed f (s.resume p)
      { exception with
        eventId := clearServerityAssertion p
        eventSerialNum := s.eventSerialNum p } p ret t exception') :
    Resumed f s exception n ret t exception' := by
  have hother : ∀ {m}, m ≠ p → (s.resume p).asserted m = s.asserted m := fun hne =>
    Function.update_of_ne hne _ _
  have hparent : (s.resume p).asserted p = false := Function.update_self _ _ _
  have hmono : ∀ m, t.asserted m = true → s.asserted m = true := by
    intro m ht
    by_cases hm : m = p
    · rw [hm] at ht
      exact absurd ((h.mono p ht).symm.trans hparent) (by decide)
    · exact (hother hm).symm.trans (h.mono m ht)
  have hfalse : ∀ m, s.asserted m = false → t.asserted m = false := by
    intro m hs
    rw [← Bool.not_eq_true] at hs ⊢
    exact fun ht => hs (hmono m ht)
  have hchildren : ∀ c, f.parent c = some p → t.asserted c = false := by
    intro c hc
    apply hfalse
    by_cases hcn : c = n
    · rw [hcn]
      exact hself
    · rw [← Bool.not_eq_true]
      exact fun ha => hbro ⟨c, hcn, hc, ha⟩
  have hpfalse : t.asserted p = false := by
    rw [← Bool.not_eq_true]
    exact fun ht => absurd ((h.mono p ht).symm.trans hparent) (by decide)
  refine ⟨hmono, h.mask, h.eventList, ?_, ?_, ?_, ?_, ?_, ?_, ?_⟩
  · rintro m q hq (rfl | ⟨hs, ht⟩)
    · rw [hp] at hq
      obtain rfl := Option.some.inj hq
      exact .inr ⟨hpfalse, h.freed⟩
    · by_cases hm : m = p
      · exact h.path m q hq (.inl hm)
      · exact h.path m q hq (.inr ⟨(hother hm).trans hs, ht⟩)
  · intro m hs ht
    by_cases hm : m = p
    · rw [hm]
      exact hchildren
    · exact h.dropped m ((hother hm).trans hs) ht
  · intro m hs ht
    by_cases hm : m = p
    · exact ⟨n, hm ▸ hp⟩
    · exact h.inner m ((hother hm).trans hs) ht
  · intro m
    by_cases hm : m = p
    · subst hm
      rcases h.serial m with hzero | ⟨hsame, -⟩
      · exact .inl hzero
      · exact .inl (hsame.trans (Function.update_self _ _ _))
    · rcases h.serial m with hzero | ⟨hsame, ha⟩
      · exact .inl hzero
      · exact .inr ⟨hsame.trans (Function.update_of_ne hm _ _), ha.trans (hother hm)⟩
  · intro r
    rcases h.data r with hsame | ⟨hnone, hroot, hwhere⟩
    · exact .inl hsame
    · refine .inr ⟨hnone, hroot, .inr ?_⟩
      rcases hwhere with rfl | hall
      · exact hchildren
      · exact hall
  · intro hnone
    rw [hp] at hnone
    cases hnone
  · intro hret
    obtain ⟨r, hroot, hnone, hsame, htop, hempty⟩ := h.reported hret
    have hrn : r ≠ n := by
      rintro rfl
      rw [hroot.2] at hp
      cases hp
    refine ⟨r, hroot, hnone, hsame, htop, fun hs => .inr ⟨hrn, ?_⟩⟩
    rcases hempty hs with ⟨rfl, hserial⟩ | ⟨hrp, hserial⟩
    · exact hserial
    · exact hserial.trans (Function.update_of_ne hrp _ _)

theorem resumeClimb_spec {fuel : ℕ} {maskFlag : Bool} (hfuel : f.layer n < fuel)
    (hn : n ∈ f.nodes) (hself : s.asserted n = false) :
    Resumed f s exception n (resumeClimb f fuel s exception n maskFlag).1
      (resumeClimb f fuel s exception n maskFlag).2.1
      (resumeClimb f fuel s exception n maskFlag).2.2 := by
  induction fuel generalizing s exception n maskFlag with
  | zero => exact absurd hfuel (Nat.not_lt_zero _)
  | succ fuel ih =>
      rw [resumeClimb]
      cases hp : f.parent n with
      | none => exact resumeTop_spec ⟨hn, hp⟩ maskFlag
      | some p =>
          have hlayer := f.layer_parent hp
          have hiff := broAsserted_iff (s := s) hp
          dsimp only
          by_cases hbro : broAsserted f s n (EVENT_CONVERGE_ID_NUM_MAX + 1) (f.broNext n) = true
          · rw [if_pos hbro]
            exact .blocked hp (hiff.mp hbro)
          · rw [if_neg hbro]
            exact .next hp hself (fun h => hbro (hiff.mpr h))
              (ih (by omega) (f.parent_mem hp).2 (Function.update_self _ _ _))

end OpiaiKernel.Dms
