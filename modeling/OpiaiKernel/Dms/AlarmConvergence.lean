import OpiaiKernel.Dms.Converge
import Mathlib.Data.List.Perm.Subperm

/-!
# The event list and the forest

Occurrences and resumptions of leaves and maskings of event ids come in any order.
What the nodes say about each other is kept by all of them; the event list holds
the events of the unmasked roots as long as it has room and no resumption loses its
report to a mask below the root.
-/

namespace OpiaiKernel.Dms

variable {f : Forest} {s t : ConvergeState} {n p : UInt32} {exception : DmsEventPara}

/-! ## Steps -/

/-- A leaf has a parent and no children. -/
def Forest.Leaf (f : Forest) (n : UInt32) : Prop :=
  f.parent n ≠ none ∧ ∀ c ∈ f.nodes, f.parent c ≠ some n

instance (f : Forest) (n : UInt32) : Decidable (f.Leaf n) :=
  haveI : Decidable (∀ c ∈ f.nodes, f.parent c ≠ some n) := List.decidableBAll _ _
  inferInstanceAs (Decidable (_ ∧ _))

/-- The state with what happened: the leaves whose last recorded event is an
occurrence, and the nodes that were reported while their parent was masked. -/
structure Alarms where
  state : ConvergeState
  active : UInt32 → Bool
  maskedAtReport : UInt32 → Bool

/-- The nodes that an occurrence asserts are marked with the mask of their parent. -/
def reportMarks (f : Forest) (s t : ConvergeState) (marks : UInt32 → Bool) (n : UInt32) : Bool :=
  if t.asserted n = true ∧ s.asserted n = false then
    match f.parent n with
    | some p => s.mask p
    | none => false
  else marks n

/-- An occurrence has a serial number of its own. -/
def MayOccur (f : Forest) (s : ConvergeState) (exception : DmsEventPara) : Prop :=
  f.Leaf exception.eventId ∧ exception.eventSerialNum ≠ 0 ∧
    ∀ r ∈ f.nodes, (s.exceptionData r).all fun d => d.eventSerialNum ≠ exception.eventSerialNum

instance (f : Forest) (s : ConvergeState) (exception : DmsEventPara) :
    Decidable (MayOccur f s exception) :=
  haveI : Decidable (∀ r ∈ f.nodes, (s.exceptionData r).all fun d =>
    d.eventSerialNum ≠ exception.eventSerialNum) := List.decidableBAll _ _
  inferInstanceAs (Decidable (_ ∧ _ ∧ _))

inductive AlarmStep
  | occur (exception : DmsEventPara)
  | resume (exception : DmsEventPara)
  | mask (eventId : UInt32) (mask : Bool)

def alarmStep (f : Forest) (a : Alarms) : AlarmStep → Option Alarms
  | .occur exception =>
      if MayOccur f a.state exception then
        let n := exception.eventId
        let t := occurEvent f a.state exception
        some ⟨t, Function.update a.active n (a.active n || !a.state.mask n),
          reportMarks f a.state t a.maskedAtReport⟩
      else none
  | .resume exception =>
      if f.Leaf exception.eventId then
        some ⟨resumeEvent f a.state exception, Function.update a.active exception.eventId false,
          a.maskedAtReport⟩
      else none
  | .mask eventId mask =>
      if clearServerityAssertion eventId = eventId then
        some { a with state := dmsEventMaskByPhyid f a.state eventId mask }
      else none

def Alarms.start : Alarms where
  state := ⟨fun _ => false, fun _ => false, fun _ => 0, fun _ => none, ⟨[], 0, 0⟩⟩
  active := fun _ => false
  maskedAtReport := fun _ => false

def alarmMachine (f : Forest) : Machine Alarms AlarmStep where
  init a := a = Alarms.start
  step := alarmStep f

def Forest.roots (f : Forest) : List UInt32 := f.nodes.filter (f.parent · = none)

/-- A list that is full drops its oldest entry for a new one. -/
def HasRoom (f : Forest) (s : ConvergeState) : Prop :=
  f.roots.length ≤ DMS_MAX_EVENT_NUM ∨ s.eventList.head.length < DMS_MAX_EVENT_NUM

/-- The roots whose event a resumption frees without reporting it are masked. -/
def FreedMasked (f : Forest) (s : ConvergeState) (exception : DmsEventPara) : Prop :=
  (dmsEventObjConvergeResume f s exception).1 ≠ .none → ∀ r ∈ f.nodes,
    s.exceptionData r ≠ none →
    (dmsEventObjConvergeResume f s exception).2.1.exceptionData r = none → s.mask r = true

/-- The steps that the event list follows. -/
def Listed (f : Forest) (a : Alarms) : AlarmStep → Prop
  | .resume exception => FreedMasked f a.state exception
  | _ => HasRoom f a.state

instance (f : Forest) (s : ConvergeState) : Decidable (HasRoom f s) :=
  inferInstanceAs (Decidable (_ ∨ _))

instance (f : Forest) (s : ConvergeState) (exception : DmsEventPara) :
    Decidable (FreedMasked f s exception) :=
  haveI : Decidable (∀ r ∈ f.nodes, s.exceptionData r ≠ none →
    (dmsEventObjConvergeResume f s exception).2.1.exceptionData r = none → s.mask r = true) :=
    List.decidableBAll _ _
  inferInstanceAs (Decidable (_ → _))

instance (f : Forest) : ∀ a step, Decidable (Listed f a step)
  | a, .resume exception => inferInstanceAs (Decidable (FreedMasked f a.state exception))
  | a, .occur _ => inferInstanceAs (Decidable (HasRoom f a.state))
  | a, .mask _ _ => inferInstanceAs (Decidable (HasRoom f a.state))

/-! ## The nodes -/

/-- An inner node is asserted only above an asserted child, and above each child
that was not reported under a mask; a root keeps an event while a child is
asserted. -/
structure TreeInv (f : Forest) (active marks : UInt32 → Bool) (s : ConvergeState) : Prop where
  leaf : ∀ n, f.Leaf n → s.asserted n = active n
  supported : ∀ q, s.asserted q = true →
    f.Leaf q ∨ ∃ c, f.parent c = some q ∧ s.asserted c = true
  carried : ∀ c q, f.parent c = some q → s.asserted c = true → marks c = false →
    s.asserted q = true
  serial : ∀ m, s.asserted m = false → s.eventSerialNum m = 0
  known : ∀ r d, s.exceptionData r = some d →
    f.Root r ∧ d.eventId = clearServerityAssertion r ∧ d.eventSerialNum ≠ 0
  distinct : ∀ r r' d d', s.exceptionData r = some d → s.exceptionData r' = some d' →
    d.eventSerialNum = d'.eventSerialNum → r = r'
  top : ∀ r, f.Root r →
    (s.exceptionData r ≠ none ↔ ∃ c, f.parent c = some r ∧ s.asserted c = true)

variable {active marks : UInt32 → Bool}

theorem Forest.Leaf.not_root (h : f.Leaf n) : ¬f.Root n := fun hroot => h.1 hroot.2

theorem Forest.Leaf.not_parent {c : UInt32} (h : f.Leaf n) : f.parent c ≠ some n := fun hc =>
  h.2 c (f.parent_mem hc).1 hc

theorem Forest.Leaf.mem (h : f.Leaf n) : n ∈ f.nodes := by
  obtain ⟨p, hp⟩ := Option.ne_none_iff_exists'.mp h.1
  exact (f.parent_mem hp).1

theorem TreeInv.congr (h : TreeInv f active marks s) (hasserted : t.asserted = s.asserted)
    (hserial : t.eventSerialNum = s.eventSerialNum) (hdata : t.exceptionData = s.exceptionData) :
    TreeInv f active marks t := by
  obtain ⟨h₁, h₂, h₃, h₄, h₅, h₆, h₇⟩ := h
  constructor <;> simpa only [hasserted, hserial, hdata]

theorem TreeInv.occur {ret : DrvError} {exception' : DmsEventPara}
    (h : TreeInv f active marks s) (hmay : MayOccur f s exception)
    (hc : Climbed f s exception.eventId t)
    (ht : Topped f s exception exception.eventId ret t exception')
    (hself : t.asserted exception.eventId =
      (s.asserted exception.eventId || !s.mask exception.eventId)) :
    TreeInv f (Function.update active exception.eventId
      (active exception.eventId || !s.mask exception.eventId)) (reportMarks f s t marks) t := by
  obtain ⟨hleaf, hnonzero, hfresh⟩ := hmay
  have hnew : ∀ m, t.asserted m = true → s.asserted m = true ∨ s.asserted m = false :=
    fun m _ => by cases s.asserted m <;> simp
  refine ⟨?_, ?_, ?_, ?_, ?_, ?_, ?_⟩
  · intro n hn
    by_cases heq : n = exception.eventId
    · rw [heq, Function.update_self, hself, h.leaf _ hleaf]
    · rw [Function.update_of_ne heq, ← h.leaf n hn]
      cases hs : s.asserted n with
      | true => exact hc.mono n hs
      | false =>
          rw [← Bool.not_eq_true]
          intro ha
          obtain ⟨c, hpar, -⟩ := hc.child n ha hs heq
          exact hn.not_parent hpar
  · intro q ha
    rcases hnew q ha with hs | hs
    · refine (h.supported q hs).imp_right ?_
      rintro ⟨c, hpar, hcs⟩
      exact ⟨c, hpar, hc.mono c hcs⟩
    · by_cases heq : q = exception.eventId
      · exact .inl (heq ▸ hleaf)
      · exact .inr (hc.child q ha hs heq)
  · intro c q hpar ha hmark
    rcases hnew c ha with hs | hs
    · rw [reportMarks, if_neg (by simp [hs])] at hmark
      exact hc.mono q (h.carried c q hpar hs hmark)
    · rw [reportMarks, if_pos ⟨ha, hs⟩, hpar] at hmark
      exact hc.carried c ha hs q hpar hmark
  · intro m ha
    have hs : s.asserted m = false := by
      rw [← Bool.not_eq_true] at ha ⊢
      exact fun hs => ha (hc.mono m hs)
    rw [hc.serial m ha, h.serial m hs]
  · intro r d hd
    cases hs : s.exceptionData r with
    | none =>
        obtain ⟨hroot, -, hid, hserial⟩ := ht.new r d hd hs
        exact ⟨hroot, hid, hserial ▸ hnonzero⟩
    | some d₀ =>
        rw [ht.kept r d₀ hs] at hd
        exact h.known r d (hs.trans hd)
  · have hold : ∀ r r' d d', s.exceptionData r = some d → t.exceptionData r' = some d' →
        s.exceptionData r' = none → d.eventSerialNum ≠ d'.eventSerialNum := by
      intro r r' d d' hs hd' hs'
      have hall := hfresh r (h.known r d hs).1.1
      rw [hs] at hall
      rw [(ht.new r' d' hd' hs').2.2.2]
      simpa using hall
    intro r r' d d' hd hd' heq
    cases hs : s.exceptionData r with
    | none =>
        cases hs' : s.exceptionData r' with
        | none => exact ht.one r r' d d' hd hs hd' hs'
        | some d₀ =>
            rw [ht.kept r' d₀ hs'] at hd'
            obtain rfl := Option.some.inj hd'
            exact absurd heq.symm (hold r' r d₀ d hs' hd hs)
    | some d₀ =>
        rw [ht.kept r d₀ hs] at hd
        obtain rfl := Option.some.inj hd
        cases hs' : s.exceptionData r' with
        | none => exact absurd heq (hold r r' d₀ d' hs hd' hs')
        | some d₁ =>
            rw [ht.kept r' d₁ hs'] at hd'
            obtain rfl := Option.some.inj hd'
            exact h.distinct r r' d₀ d₁ hs hs' heq
  · intro r hroot
    constructor
    · intro hd
      cases hs : s.exceptionData r with
      | none =>
          obtain ⟨d, hd⟩ := Option.ne_none_iff_exists'.mp hd
          rcases (ht.new r d hd hs).2.1 with rfl | hchild
          · exact absurd hroot hleaf.not_root
          · exact hchild
      | some d₀ =>
          obtain ⟨c, hpar, hcs⟩ := (h.top r hroot).mp (by rw [hs]; exact Option.some_ne_none _)
          exact ⟨c, hpar, hc.mono c hcs⟩
    · rintro ⟨c, hpar, ha⟩
      rcases hnew c ha with hs | hs
      · obtain ⟨d, hd⟩ := Option.ne_none_iff_exists'.mp ((h.top r hroot).mpr ⟨c, hpar, hs⟩)
        rw [ht.kept r d hd]
        exact Option.some_ne_none _
      · exact ht.stored r hroot (.inr ⟨c, hpar, ha, hs⟩)

theorem TreeInv.resume {ret : DrvError} {exception' : DmsEventPara}
    (h : TreeInv f active marks s) (hleaf : f.Leaf n)
    (hr : Resumed f (s.resume n) exception n ret t exception') :
    TreeInv f (Function.update active n false) marks t := by
  have hother : ∀ {m}, m ≠ n → (s.resume n).asserted m = s.asserted m := fun hne =>
    Function.update_of_ne hne _ _
  have hself : (s.resume n).asserted n = false := Function.update_self _ _ _
  have hne : ∀ {m}, t.asserted m = true → m ≠ n := by
    rintro m ha rfl
    exact absurd ((hr.mono m ha).symm.trans hself) (by decide)
  have hmono : ∀ m, t.asserted m = true → s.asserted m = true := fun m ha =>
    (hother (hne ha)).symm.trans (hr.mono m ha)
  -- a child that was asserted is asserted still, or the climb came past it
  have hchild : ∀ c q, f.parent c = some q → s.asserted c = true → t.asserted c = true ∨
      (∃ c, f.parent c = some q ∧ t.asserted c = true) ∨
      t.asserted q = false ∧ (f.parent q = none → t.exceptionData q = none) := by
    intro c q hpar hs
    cases ha : t.asserted c with
    | true => exact .inl rfl
    | false =>
        by_cases hcn : c = n
        · exact .inr (hr.path c q hpar (.inl hcn))
        · exact .inr (hr.path c q hpar (.inr ⟨(hother hcn).trans hs, ha⟩))
  refine ⟨?_, ?_, ?_, ?_, ?_, ?_, ?_⟩
  · intro m hm
    by_cases hmn : m = n
    · rw [hmn, Function.update_self, ← Bool.not_eq_true]
      exact fun ha => hne ha rfl
    · rw [Function.update_of_ne hmn, ← h.leaf m hm]
      cases ha : t.asserted m with
      | true => exact (hmono m ha).symm
      | false =>
          symm
          rw [← Bool.not_eq_true]
          intro hs
          obtain ⟨c, hpar⟩ := hr.inner m ((hother hmn).trans hs) ha
          exact hm.not_parent hpar
  · intro q ha
    refine (h.supported q (hmono q ha)).imp_right ?_
    rintro ⟨c, hpar, hs⟩
    rcases hchild c q hpar hs with hc | hc | ⟨hq, -⟩
    · exact ⟨c, hpar, hc⟩
    · exact hc
    · exact absurd (ha.symm.trans hq) (by decide)
  · intro c q hpar ha hmark
    have hs := h.carried c q hpar (hmono c ha) hmark
    have hqn : q ≠ n := fun heq => hleaf.not_parent (heq ▸ hpar)
    cases hq : t.asserted q with
    | true => rfl
    | false =>
        have hdropped := hr.dropped q ((hother hqn).trans hs) hq c hpar
        exact absurd (ha.symm.trans hdropped) (by decide)
  · intro m ha
    rcases hr.serial m with hzero | ⟨hsame, hsameA⟩
    · exact hzero
    · rw [hsame]
      by_cases hmn : m = n
      · rw [hmn]
        exact Function.update_self _ _ _
      · rw [ha, hother hmn] at hsameA
        exact (Function.update_of_ne hmn _ _).trans (h.serial m hsameA.symm)
  · intro r d hd
    rcases hr.data r with hsame | ⟨hnone, -⟩
    · exact h.known r d (hsame.symm.trans hd)
    · rw [hnone] at hd
      cases hd
  · intro r r' d d' hd hd' heq
    rcases hr.data r with hsame | ⟨hnone, -⟩
    · rcases hr.data r' with hsame' | ⟨hnone, -⟩
      · exact h.distinct r r' d d' (hsame.symm.trans hd) (hsame'.symm.trans hd') heq
      · rw [hnone] at hd'
        cases hd'
    · rw [hnone] at hd
      cases hd
  · intro r hroot
    constructor
    · intro hd
      rcases hr.data r with hsame | ⟨hnone, -⟩
      · rw [hsame] at hd
        obtain ⟨c, hpar, hs⟩ := (h.top r hroot).mp hd
        rcases hchild c r hpar hs with hc | hc | ⟨-, hfreed⟩
        · exact ⟨c, hpar, hc⟩
        · exact hc
        · exact absurd (hsame.symm.trans (hfreed hroot.2)) hd
      · exact absurd hnone hd
    · rintro ⟨c, hpar, ha⟩
      rcases hr.data r with hsame | ⟨-, -, heq | hall⟩
      · rw [hsame]
        exact (h.top r hroot).mpr ⟨c, hpar, hmono c ha⟩
      · exact absurd (heq ▸ hroot) hleaf.not_root
      · exact absurd (ha.symm.trans (hall c hpar)) (by decide)

/-! ## The event list -/

/-- The list holds the roots that have an event and are not masked. -/
structure ListInv (f : Forest) (s : ConvergeState) : Prop where
  ok : EventListOk s.eventList
  entry : ∀ r, f.Root r →
    ((∃ x ∈ s.eventList.head, x.eventId = clearServerityAssertion r) ↔
      s.mask r = false ∧ s.exceptionData r ≠ none)
  known : ∀ x ∈ s.eventList.head, ∃ r d, f.Root r ∧ s.exceptionData r = some d ∧
    x.eventId = clearServerityAssertion r ∧ x.eventSerialNum = d.eventSerialNum

theorem Forest.Root.eq {r r' : UInt32} (h : f.Root r) (h' : f.Root r')
    (heq : clearServerityAssertion r = clearServerityAssertion r') : r = r' := by
  rw [← f.root_flag h.1 h.2, heq, f.root_flag h'.1 h'.2]

/-- The root of an event id. -/
theorem Forest.Root.clear_eq_iff {r x : UInt32} (h : f.Root r)
    (hx : clearServerityAssertion x = x) :
    clearServerityAssertion r = x ↔ r = addConvergeFlag x := by
  constructor
  · intro heq
    rw [← heq, f.root_flag h.1 h.2]
  · intro heq
    rw [heq, clear_addConvergeFlag, hx]

theorem Forest.mem_roots {r : UInt32} : r ∈ f.roots ↔ f.Root r := by
  rw [Forest.roots, List.mem_filter, decide_eq_true_eq]
  rfl

/-- There is room for the event of a root that is not in the list. -/
theorem ListInv.room (h : ListInv f s) (hroom : HasRoom f s) {r : UInt32} (hroot : f.Root r)
    (hnot : clearServerityAssertion r ∉ s.eventList.head.map DmsEventPara.eventId) :
    s.eventList.head.length < DMS_MAX_EVENT_NUM := by
  rcases hroom with hroots | hroom
  · have hnodup : (clearServerityAssertion r :: s.eventList.head.map DmsEventPara.eventId).Nodup :=
      List.nodup_cons.mpr ⟨hnot, h.ok.ids⟩
    have hsub : clearServerityAssertion r :: s.eventList.head.map DmsEventPara.eventId ⊆
        f.roots.map clearServerityAssertion := by
      intro eventId hmem
      rcases List.mem_cons.mp hmem with rfl | hmem
      · exact List.mem_map_of_mem (Forest.mem_roots.mpr hroot)
      · obtain ⟨x, hx, rfl⟩ := List.mem_map.mp hmem
        obtain ⟨r', d, hroot', -, hid, -⟩ := h.known x hx
        rw [hid]
        exact List.mem_map_of_mem (Forest.mem_roots.mpr hroot')
    have hlen := (List.subperm_of_subset hnodup hsub).length_le
    simp only [List.length_cons, List.length_map] at hlen
    exact Nat.lt_of_lt_of_le hlen hroots
  · exact hroom

/-- The event of a root is added behind the others unless it is there. -/
theorem ListInv.add (h : ListInv f s) (hroom : HasRoom f s) {r : UInt32} (hroot : f.Root r)
    (hid : exception.eventId = clearServerityAssertion r) :
    (exception.eventId ∈ s.eventList.head.map DmsEventPara.eventId ∧
      (dmsEventConvergeOccurAddToCb s.eventList exception true).2 = s.eventList) ∨
    (exception.eventId ∉ s.eventList.head.map DmsEventPara.eventId ∧
      (dmsEventConvergeOccurAddToCb s.eventList exception true).2.head =
        s.eventList.head ++ [exception]) := by
  rcases occur_cases h.ok exception with ⟨hmem, heq⟩ | ⟨hnot, -, heq⟩ | ⟨hnot, hfull, -⟩
  · exact .inl ⟨hmem, by rw [heq]⟩
  · exact .inr ⟨hnot, by rw [heq]⟩
  · have hlt := h.room hroom hroot (hid ▸ hnot)
    omega

theorem mem_resume_head {list : DmsConvergeEventList} {x : DmsEventPara} :
    x ∈ (dmsEventConvergeResumeAddToCb list exception).2.1.head ↔
      x ∈ list.head ∧ exception.eventSerialNum ≠ x.eventSerialNum := by
  unfold dmsEventConvergeResumeAddToCb
  dsimp only
  split_ifs with hnil
  · simp [hnil]
  · simp [head_sweep]

theorem mem_maskDel_head {list : DmsConvergeEventList} {x : DmsEventPara} {eventId : UInt32} :
    x ∈ (dmsEventMaskDelToEventCb list eventId).head ↔ x ∈ list.head ∧ x.eventId ≠ eventId := by
  unfold dmsEventMaskDelToEventCb
  split_ifs with hnil
  · simp [hnil]
  · simp [head_sweep]

/-- An occurrence that is not reported leaves the list right. -/
theorem ListInv.withheld {ret : DrvError} {exception' : DmsEventPara} (h : ListInv f s)
    (htree : TreeInv f active marks s) (hc : Climbed f s n t)
    (ht : Topped f s exception n ret t exception') (hret : ret ≠ .none) : ListInv f t := by
  have hhidden : ∀ r d, t.exceptionData r = some d → s.exceptionData r = none →
      s.mask r = true := by
    intro r d hd hs
    have hroot := (ht.new r d hd hs).1
    refine (ht.withheld hret r d hd hs).resolve_right fun ha => ?_
    rcases htree.supported r ha with hr | hchild
    · exact hr.not_root hroot
    · exact (htree.top r hroot).mpr hchild hs
  refine ⟨hc.eventList ▸ h.ok, ?_, ?_⟩
  · intro r hroot
    rw [hc.eventList, hc.mask, h.entry r hroot]
    constructor
    · rintro ⟨hmask, hd⟩
      obtain ⟨d, hd⟩ := Option.ne_none_iff_exists'.mp hd
      exact ⟨hmask, by rw [ht.kept r d hd]; exact Option.some_ne_none _⟩
    · rintro ⟨hmask, hd⟩
      obtain ⟨d, hd⟩ := Option.ne_none_iff_exists'.mp hd
      refine ⟨hmask, fun hs => ?_⟩
      rw [hhidden r d hd hs] at hmask
      cases hmask
  · intro x hx
    rw [hc.eventList] at hx
    obtain ⟨r, d, hroot, hd, hid, hserial⟩ := h.known x hx
    exact ⟨r, d, hroot, ht.kept r d hd, hid, hserial⟩

/-- A reported occurrence is in the list under the id of its root. -/
theorem ListInv.reported {exception' : DmsEventPara} (h : ListInv f s) (hroom : HasRoom f s)
    (hc : Climbed f s n t) (ht : Topped f s exception n .none t exception') :
    ListInv f { t with eventList :=
      (dmsEventConvergeOccurAddToCb t.eventList (reportSeverity f exception') true).2 } := by
  obtain ⟨hserial, r₀, hroot₀, hmask₀, hid₀, hd₀, hone⟩ := ht.reported rfl
  have hid₀ : (reportSeverity f exception').eventId = clearServerityAssertion r₀ := hid₀
  have hok := h.ok.occur (reportSeverity f exception') true
  have hkept : ∀ x ∈ s.eventList.head, ∃ r d, f.Root r ∧ t.exceptionData r = some d ∧
      x.eventId = clearServerityAssertion r ∧ x.eventSerialNum = d.eventSerialNum := by
    intro x hx
    obtain ⟨r, d, hroot, hd, hid, hx⟩ := h.known x hx
    exact ⟨r, d, hroot, ht.kept r d hd, hid, hx⟩
  have hold : ∀ r, r ≠ r₀ → (t.exceptionData r ≠ none ↔ s.exceptionData r ≠ none) := by
    intro r hne
    constructor
    · intro hd hs
      obtain ⟨d, hd⟩ := Option.ne_none_iff_exists'.mp hd
      exact hne (hone r d hd hs)
    · intro hs
      obtain ⟨d, hs⟩ := Option.ne_none_iff_exists'.mp hs
      rw [ht.kept r d hs]
      exact Option.some_ne_none _
  rw [hc.eventList]
  refine ⟨hok, ?_, ?_⟩
  · intro r hroot
    dsimp only
    rw [hc.mask]
    by_cases hr : r = r₀
    · subst hr
      refine iff_of_true ?_ ⟨hmask₀, hd₀⟩
      rcases h.add hroom hroot₀ hid₀ with ⟨hmem, heq⟩ | ⟨-, heq⟩
      · rw [heq]
        obtain ⟨x, hx, hxid⟩ := List.mem_map.mp hmem
        exact ⟨x, hx, hxid.trans hid₀⟩
      · rw [heq]
        exact ⟨_, List.mem_append_right _ (List.mem_singleton_self _), hid₀⟩
    · rw [hold r hr, ← h.entry r hroot]
      rcases h.add hroom hroot₀ hid₀ with ⟨-, heq⟩ | ⟨-, heq⟩
      · rw [heq]
      · rw [heq]
        constructor
        · rintro ⟨x, hx, hxid⟩
          rcases List.mem_append.mp hx with hx | hx
          · exact ⟨x, hx, hxid⟩
          · rw [List.mem_singleton.mp hx, hid₀] at hxid
            exact absurd (hroot.eq hroot₀ hxid.symm) hr
        · rintro ⟨x, hx, hxid⟩
          exact ⟨x, List.mem_append_left _ hx, hxid⟩
  · intro x hx
    rcases h.add hroom hroot₀ hid₀ with ⟨-, heq⟩ | ⟨hnot, heq⟩
    · dsimp only at hx
      rw [heq] at hx
      exact hkept x hx
    · dsimp only at hx
      rw [heq] at hx
      rcases List.mem_append.mp hx with hx | hx
      · exact hkept x hx
      · obtain rfl := List.mem_singleton.mp hx
        obtain ⟨d, hd⟩ := Option.ne_none_iff_exists'.mp hd₀
        have hs : s.exceptionData r₀ = none := by
          by_contra hs
          obtain ⟨y, hy, hyid⟩ := (h.entry r₀ hroot₀).mpr ⟨hmask₀, hs⟩
          exact hnot (List.mem_map.mpr ⟨y, hy, hyid.trans hid₀.symm⟩)
        exact ⟨r₀, d, hroot₀, hd, hid₀, hserial.trans (ht.new r₀ d hd hs).2.2.2.symm⟩

/-- Removing an entry is right when its root is masked or has no event left. -/
theorem ListInv.remove (h : ListInv f s) (eventId : UInt32) (hok : EventListOk t.eventList)
    (hmem : ∀ x, x ∈ t.eventList.head ↔ x ∈ s.eventList.head ∧ x.eventId ≠ eventId)
    (hgone : ∀ r, f.Root r → clearServerityAssertion r = eventId →
      ¬(t.mask r = false ∧ t.exceptionData r ≠ none))
    (hkept : ∀ r, f.Root r → clearServerityAssertion r ≠ eventId →
      t.mask r = s.mask r ∧ t.exceptionData r = s.exceptionData r) : ListInv f t := by
  refine ⟨hok, ?_, ?_⟩
  · intro r hroot
    by_cases hid : clearServerityAssertion r = eventId
    · refine iff_of_false ?_ (hgone r hroot hid)
      rintro ⟨x, hx, hxid⟩
      exact ((hmem x).mp hx).2 (hxid.trans hid)
    · rw [(hkept r hroot hid).1, (hkept r hroot hid).2, ← h.entry r hroot]
      constructor
      · rintro ⟨x, hx, hxid⟩
        exact ⟨x, ((hmem x).mp hx).1, hxid⟩
      · rintro ⟨x, hx, hxid⟩
        exact ⟨x, (hmem x).mpr ⟨hx, hxid ▸ hid⟩, hxid⟩
  · intro x hx
    obtain ⟨hx, hne⟩ := (hmem x).mp hx
    obtain ⟨r, d, hroot, hd, hid, hserial⟩ := h.known x hx
    exact ⟨r, d, hroot, ((hkept r hroot (hid ▸ hne)).2).trans hd, hid, hserial⟩

/-- A resumption that is not reported frees the events of masked roots only. -/
theorem ListInv.unreported {ret : DrvError} {exception' : DmsEventPara} (h : ListInv f s)
    (hr : Resumed f (s.resume n) exception n ret t exception')
    (hfreed : ∀ r ∈ f.nodes, s.exceptionData r ≠ none → t.exceptionData r = none →
      s.mask r = true) : ListInv f t := by
  have hlist : t.eventList = s.eventList := hr.eventList
  have hmask : t.mask = s.mask := hr.mask
  have hsame : ∀ r, f.Root r → s.mask r = false → t.exceptionData r = s.exceptionData r := by
    intro r hroot hm
    rcases hr.data r with heq | ⟨hnone, -, -⟩
    · exact heq
    · by_cases hs : s.exceptionData r = none
      · rw [hnone, hs]
      · rw [hfreed r hroot.1 hs hnone] at hm
        cases hm
  refine ⟨hlist ▸ h.ok, ?_, ?_⟩
  · intro r hroot
    rw [hlist, hmask, h.entry r hroot]
    refine and_congr_right fun hm => ?_
    rw [hsame r hroot hm]
  · intro x hx
    rw [hlist] at hx
    obtain ⟨r, d, hroot, hd, hid, hserial⟩ := h.known x hx
    have hm := ((h.entry r hroot).mp ⟨x, hx, hid⟩).1
    exact ⟨r, d, hroot, (hsame r hroot hm).trans hd, hid, hserial⟩

/-- A reported resumption takes the entry of its root out of the list: the serial
numbers of the events tell the roots apart. -/
theorem ListInv.resumed {exception' : DmsEventPara} (h : ListInv f s)
    (htree : TreeInv f active marks s) (hleaf : f.Leaf n)
    (hr : Resumed f (s.resume n) exception n .none t exception') :
    ListInv f { t with eventList :=
      (dmsEventConvergeResumeAddToCb t.eventList (reportSeverity f exception')).2.1 } := by
  have hlist : t.eventList = s.eventList := hr.eventList
  have hmask : t.mask = s.mask := hr.mask
  obtain ⟨r₀, hroot₀, hnone₀, hsame, htop, hempty⟩ := hr.reported rfl
  have hserial : ∀ x ∈ s.eventList.head, exception'.eventSerialNum ≠ x.eventSerialNum ↔
      x.eventId ≠ clearServerityAssertion r₀ := by
    intro x hx
    obtain ⟨r, d, hroot, hd, hid, hxs⟩ := h.known x hx
    rw [hid, hxs, not_iff_not]
    cases hd₀ : s.exceptionData r₀ with
    | some d₀ =>
        rw [htop d₀ hd₀]
        constructor
        · intro heq
          rw [htree.distinct r₀ r d₀ d hd₀ hd heq]
        · intro heq
          obtain rfl := hroot.eq hroot₀ heq
          rw [hd₀] at hd
          rw [Option.some.inj hd]
    | none =>
        -- such a root was not asserted and had no serial number
        have hna : s.asserted r₀ = false := by
          rw [← Bool.not_eq_true]
          intro ha
          rcases htree.supported r₀ ha with hl | hchild
          · exact hl.not_root hroot₀
          · exact (htree.top r₀ hroot₀).mpr hchild hd₀
        have hzero : exception'.eventSerialNum = 0 := by
          rcases hempty hd₀ with ⟨rfl, -⟩ | ⟨hne, hes⟩
          · exact absurd hroot₀ hleaf.not_root
          · rw [hes]
            exact (Function.update_of_ne hne _ _).trans (htree.serial r₀ hna)
        refine iff_of_false ?_ ?_
        · rw [hzero]
          exact fun heq => (htree.known r d hd).2.2 heq.symm
        · intro heq
          obtain rfl := hroot.eq hroot₀ heq
          rw [hd₀] at hd
          cases hd
  have hok : EventListOk t.eventList := hlist ▸ h.ok
  refine h.remove (clearServerityAssertion r₀) (hok.resume _) ?_ ?_ ?_
  · intro x
    dsimp only
    rw [hlist, mem_resume_head]
    exact and_congr_right fun hx => hserial x hx
  · rintro r hroot hid ⟨-, hd⟩
    obtain rfl := hroot.eq hroot₀ hid
    exact hd hnone₀
  · intro r hroot hid
    refine ⟨congrFun hmask r, hsame r ?_⟩
    rintro rfl
    exact hid rfl

/-! ## Masking -/

theorem dmsEventMaskAddToEventCb_fields (f : Forest) (s : ConvergeState) (eventId : UInt32) :
    (dmsEventMaskAddToEventCb f s eventId).asserted = s.asserted ∧
      (dmsEventMaskAddToEventCb f s eventId).mask = s.mask ∧
      (dmsEventMaskAddToEventCb f s eventId).eventSerialNum = s.eventSerialNum ∧
      (dmsEventMaskAddToEventCb f s eventId).exceptionData = s.exceptionData := by
  unfold dmsEventMaskAddToEventCb
  dsimp only
  split
  · split <;> exact ⟨rfl, rfl, rfl, rfl⟩
  · exact ⟨rfl, rfl, rfl, rfl⟩

theorem diagramsMask_fields (f : Forest) (s : ConvergeState) (eventId : UInt32) (mask : Bool) :
    (dmsEventConvergentDiagramsMask f s eventId mask).asserted = s.asserted ∧
      (dmsEventConvergentDiagramsMask f s eventId mask).eventSerialNum = s.eventSerialNum ∧
      (dmsEventConvergentDiagramsMask f s eventId mask).exceptionData = s.exceptionData ∧
      (dmsEventConvergentDiagramsMask f s eventId mask).eventList = s.eventList := by
  unfold dmsEventConvergentDiagramsMask
  split_ifs <;> exact ⟨rfl, rfl, rfl, rfl⟩

/-- Among the roots only the one of the event id changes its mask. -/
theorem diagramsMask_root {eventId : UInt32} {mask : Bool} {r : UInt32}
    (hvalid : clearServerityAssertion eventId = eventId) (hroot : f.Root r) :
    (dmsEventConvergentDiagramsMask f s eventId mask).mask r =
      if clearServerityAssertion r = eventId then mask else s.mask r := by
  unfold dmsEventConvergentDiagramsMask
  split_ifs with hflag hid hin hid hid
  · rw [(hroot.clear_eq_iff hvalid).mp hid]
    exact Function.update_self _ _ _
  · refine Function.update_of_ne (fun heq => hid ?_) _ _
    exact (hroot.clear_eq_iff hvalid).mpr heq
  · exact absurd ((hroot.clear_eq_iff hvalid).mp hid ▸ hroot.1) hflag
  · refine Function.update_of_ne ?_ _ _
    rintro rfl
    -- a root that is an event id itself carries the flag already
    have hself := f.root_flag hroot.1 hroot.2
    rw [hvalid] at hself
    exact hflag (hself.symm ▸ hroot.1)
  · exact absurd ((hroot.clear_eq_iff hvalid).mp hid ▸ hroot.1) hflag
  · rfl

theorem TreeInv.mask (h : TreeInv f active marks s) (eventId : UInt32) (mask : Bool) :
    TreeInv f active marks (dmsEventMaskByPhyid f s eventId mask) := by
  unfold dmsEventMaskByPhyid
  cases mask with
  | true =>
      obtain ⟨ha, hs, hd, -⟩ := diagramsMask_fields f
        { s with eventList := dmsEventMaskDelToEventCb s.eventList eventId } eventId true
      exact h.congr ha hs hd
  | false =>
      obtain ⟨ha, hs, hd, -⟩ :=
        diagramsMask_fields f (dmsEventMaskAddToEventCb f s eventId) eventId false
      obtain ⟨ha', -, hs', hd'⟩ := dmsEventMaskAddToEventCb_fields f s eventId
      exact h.congr (ha.trans ha') (hs.trans hs') (hd.trans hd')

/-- A mask takes the entry of its root out of the list. -/
theorem ListInv.masked {eventId : UInt32} (h : ListInv f s)
    (hvalid : clearServerityAssertion eventId = eventId) :
    ListInv f (dmsEventMaskByPhyid f s eventId true) := by
  obtain ⟨-, -, hdata, hlist⟩ := diagramsMask_fields f
    { s with eventList := dmsEventMaskDelToEventCb s.eventList eventId } eventId true
  have hdata : (dmsEventMaskByPhyid f s eventId true).exceptionData = s.exceptionData := hdata
  have hlist : (dmsEventMaskByPhyid f s eventId true).eventList =
      dmsEventMaskDelToEventCb s.eventList eventId := hlist
  have hmask : ∀ r, f.Root r → (dmsEventMaskByPhyid f s eventId true).mask r =
      if clearServerityAssertion r = eventId then true else s.mask r := fun r hroot =>
    diagramsMask_root hvalid hroot
  refine h.remove eventId (hlist ▸ h.ok.maskDel eventId) ?_ ?_ ?_
  · intro x
    rw [hlist]
    exact mem_maskDel_head
  · rintro r hroot hid ⟨hm, -⟩
    rw [hmask r hroot, if_pos hid] at hm
    cases hm
  · intro r hroot hid
    rw [hmask r hroot, if_neg hid, hdata]
    exact ⟨rfl, rfl⟩

/-- An unmasking adds the event that the root keeps. -/
theorem mem_maskAdd (h : ListInv f s) (hroom : HasRoom f s) (htree : TreeInv f active marks s)
    (eventId : UInt32) (x : DmsEventPara) :
    x ∈ (dmsEventMaskAddToEventCb f s eventId).eventList.head ↔
      x ∈ s.eventList.head ∨ s.mask (addConvergeFlag eventId) = true ∧
        s.exceptionData (addConvergeFlag eventId) = some x := by
  unfold dmsEventMaskAddToEventCb
  dsimp only
  split_ifs with hmasked
  · cases hd : s.exceptionData (addConvergeFlag eventId) with
    | none => simp
    | some data =>
        obtain ⟨hroot, hid, -⟩ := htree.known _ data hd
        rcases h.add hroom hroot hid with ⟨hmem, -⟩ | ⟨-, heq⟩
        · obtain ⟨y, hy, hyid⟩ := List.mem_map.mp hmem
          have hfalse := ((h.entry _ hroot).mp ⟨y, hy, hyid.trans hid⟩).1
          exact absurd (hfalse.symm.trans hmasked.2) (by decide)
        · dsimp only
          rw [heq, List.mem_append, List.mem_singleton, Option.some_inj, eq_comm]
          simp [hmasked.2]
  · refine (or_iff_left ?_).symm
    rintro ⟨hm, hd⟩
    exact hmasked ⟨(htree.known _ x hd).1.1, hm⟩

theorem EventListOk.maskAdd (h : EventListOk s.eventList) (eventId : UInt32) :
    EventListOk (dmsEventMaskAddToEventCb f s eventId).eventList := by
  unfold dmsEventMaskAddToEventCb
  dsimp only
  split
  · split
    · exact h
    · exact h.occur _ _
  · exact h

/-- Without the mask the event of the root is in the list. -/
theorem ListInv.unmasked (h : ListInv f s) (hroom : HasRoom f s)
    (htree : TreeInv f active marks s) {eventId : UInt32}
    (hvalid : clearServerityAssertion eventId = eventId) :
    ListInv f (dmsEventMaskByPhyid f s eventId false) := by
  obtain ⟨-, -, hdata, hlist⟩ :=
    diagramsMask_fields f (dmsEventMaskAddToEventCb f s eventId) eventId false
  obtain ⟨-, hmaskAdd, -, hdataAdd⟩ := dmsEventMaskAddToEventCb_fields f s eventId
  have hdata : (dmsEventMaskByPhyid f s eventId false).exceptionData = s.exceptionData :=
    hdata.trans hdataAdd
  have hlist : (dmsEventMaskByPhyid f s eventId false).eventList =
      (dmsEventMaskAddToEventCb f s eventId).eventList := hlist
  have hmask : ∀ r, f.Root r → (dmsEventMaskByPhyid f s eventId false).mask r =
      if clearServerityAssertion r = eventId then false else s.mask r := by
    intro r hroot
    rw [← hmaskAdd]
    exact diagramsMask_root hvalid hroot
  refine ⟨hlist ▸ h.ok.maskAdd eventId, ?_, ?_⟩
  · intro r hroot
    rw [hlist, hdata, hmask r hroot]
    by_cases hid : clearServerityAssertion r = eventId
    · have hr := (hroot.clear_eq_iff hvalid).mp hid
      rw [if_pos hid]
      constructor
      · rintro ⟨x, hx, hxid⟩
        refine ⟨rfl, ?_⟩
        rcases (mem_maskAdd h hroom htree eventId x).mp hx with hx | ⟨-, hd⟩
        · exact ((h.entry r hroot).mp ⟨x, hx, hxid⟩).2
        · rw [hr, hd]
          exact Option.some_ne_none _
      · rintro ⟨-, hd⟩
        cases hm : s.mask r with
        | true =>
            obtain ⟨d, hd⟩ := Option.ne_none_iff_exists'.mp hd
            exact ⟨d, (mem_maskAdd h hroom htree eventId d).mpr (.inr (hr ▸ ⟨hm, hd⟩)),
              (htree.known r d hd).2.1⟩
        | false =>
            obtain ⟨x, hx, hxid⟩ := (h.entry r hroot).mpr ⟨hm, hd⟩
            exact ⟨x, (mem_maskAdd h hroom htree eventId x).mpr (.inl hx), hxid⟩
    · rw [if_neg hid, ← h.entry r hroot]
      constructor
      · rintro ⟨x, hx, hxid⟩
        rcases (mem_maskAdd h hroom htree eventId x).mp hx with hx | ⟨-, hd⟩
        · exact ⟨x, hx, hxid⟩
        · have hflag := (htree.known _ x hd).2.1
          rw [clear_addConvergeFlag, hvalid, hxid] at hflag
          exact absurd hflag hid
      · rintro ⟨x, hx, hxid⟩
        exact ⟨x, (mem_maskAdd h hroom htree eventId x).mpr (.inl hx), hxid⟩
  · intro x hx
    rw [hlist] at hx
    rw [hdata]
    rcases (mem_maskAdd h hroom htree eventId x).mp hx with hx | ⟨-, hd⟩
    · exact h.known x hx
    · obtain ⟨hroot, hid, -⟩ := htree.known _ x hd
      exact ⟨_, x, hroot, hd, hid, rfl⟩

/-! ## Every run -/

theorem layer_lt (f : Forest) (n : UInt32) : f.layer n < EVENT_CONVERGE_ID_NUM_MAX + 1 :=
  Nat.lt_of_le_of_lt (f.layer_le n) (by decide)

theorem dmsEventObjConvergeOccur_spec (f : Forest) (s : ConvergeState)
    (hn : exception.eventId ∈ f.nodes) :
    Climbed f s exception.eventId (dmsEventObjConvergeOccur f s exception).2.1 ∧
    Topped f s exception exception.eventId (dmsEventObjConvergeOccur f s exception).1
      (dmsEventObjConvergeOccur f s exception).2.1 (dmsEventObjConvergeOccur f s exception).2.2 ∧
    (dmsEventObjConvergeOccur f s exception).2.1.asserted exception.eventId =
      (s.asserted exception.eventId || !s.mask exception.eventId) := by
  have hfuel := Nat.lt_succ_of_lt (layer_lt f exception.eventId)
  rw [dmsEventObjConvergeOccur, if_pos hn]
  exact ⟨occurClimb_climbed hfuel, occurClimb_topped hfuel hn, occurClimb_self hfuel⟩

theorem occurEvent_inv (htree : TreeInv f active marks s) (hmay : MayOccur f s exception) :
    TreeInv f (Function.update active exception.eventId
      (active exception.eventId || !s.mask exception.eventId))
      (reportMarks f s (occurEvent f s exception) marks) (occurEvent f s exception) ∧
    (HasRoom f s → ListInv f s → ListInv f (occurEvent f s exception)) := by
  obtain ⟨hc, ht, hself⟩ := dmsEventObjConvergeOccur_spec f s hmay.1.mem
  rcases hout : dmsEventObjConvergeOccur f s exception with ⟨ret, t, exception'⟩
  rw [hout] at hc ht hself
  have htree' := htree.occur hmay hc ht hself
  by_cases hret : ret = .none
  · subst hret
    have heq : occurEvent f s exception = { t with eventList :=
        (dmsEventConvergeOccurAddToCb t.eventList (reportSeverity f exception') true).2 } := by
      rw [occurEvent, hout]
    rw [heq]
    exact ⟨htree'.congr rfl rfl rfl, fun hroom hlist => hlist.reported hroom hc ht⟩
  · have heq : occurEvent f s exception = t := by
      rw [occurEvent, hout]
      split
      · rename_i h
        exact absurd (congrArg Prod.fst h) hret
      · rename_i h
        exact (congrArg (·.2.1) h).symm
    rw [heq]
    exact ⟨htree', fun _ hlist => hlist.withheld htree hc ht hret⟩

theorem dmsEventObjConvergeResume_spec (f : Forest) (s : ConvergeState)
    (hn : exception.eventId ∈ f.nodes) (ha : s.asserted exception.eventId ≠ false) :
    Resumed f (s.resume exception.eventId) exception exception.eventId
      (dmsEventObjConvergeResume f s exception).1 (dmsEventObjConvergeResume f s exception).2.1
      (dmsEventObjConvergeResume f s exception).2.2 := by
  rw [dmsEventObjConvergeResume, if_pos hn, if_neg ha]
  exact resumeClimb_spec (layer_lt f _) hn (Function.update_self _ _ _)

/-- Nothing happens to a leaf that is not asserted. -/
theorem resumeEvent_idle (hn : exception.eventId ∈ f.nodes)
    (ha : s.asserted exception.eventId = false) : resumeEvent f s exception = s := by
  rw [resumeEvent, dmsEventObjConvergeResume, if_pos hn, if_pos ha]

theorem resumeEvent_inv (htree : TreeInv f active marks s) (hleaf : f.Leaf exception.eventId) :
    TreeInv f (Function.update active exception.eventId false) marks (resumeEvent f s exception) ∧
    (FreedMasked f s exception → ListInv f s → ListInv f (resumeEvent f s exception)) := by
  by_cases ha : s.asserted exception.eventId = false
  · have hsame : Function.update active exception.eventId false = active := by
      rw [← ha, htree.leaf _ hleaf]
      exact Function.update_eq_self _ _
    rw [resumeEvent_idle hleaf.mem ha, hsame]
    exact ⟨htree, fun _ hlist => hlist⟩
  · have hr := dmsEventObjConvergeResume_spec f s hleaf.mem ha
    unfold FreedMasked
    rcases hout : dmsEventObjConvergeResume f s exception with ⟨ret, t, exception'⟩
    rw [hout] at hr
    have htree' := htree.resume hleaf hr
    by_cases hret : ret = .none
    · subst hret
      have heq : resumeEvent f s exception = { t with eventList :=
          (dmsEventConvergeResumeAddToCb t.eventList (reportSeverity f exception')).2.1 } := by
        rw [resumeEvent, hout]
      rw [heq]
      exact ⟨htree'.congr rfl rfl rfl, fun _ hlist => hlist.resumed htree hleaf hr⟩
    · have heq : resumeEvent f s exception = t := by
        rw [resumeEvent, hout]
        split
        · rename_i h
          exact absurd (congrArg Prod.fst h) hret
        · rename_i h
          exact (congrArg (·.2.1) h).symm
      rw [heq]
      exact ⟨htree', fun hfreed hlist => hlist.unreported hr (hfreed hret)⟩

theorem alarmStep_inv {a b : Alarms} {step : AlarmStep}
    (htree : TreeInv f a.active a.maskedAtReport a.state) (hstep : alarmStep f a step = some b) :
    TreeInv f b.active b.maskedAtReport b.state ∧
      (Listed f a step → ListInv f a.state → ListInv f b.state) := by
  cases step with
  | occur exception =>
      rw [alarmStep] at hstep
      split_ifs at hstep with hmay
      obtain rfl := Option.some.inj hstep
      exact occurEvent_inv htree hmay
  | resume exception =>
      rw [alarmStep] at hstep
      split_ifs at hstep with hleaf
      obtain rfl := Option.some.inj hstep
      exact resumeEvent_inv htree hleaf
  | mask eventId mask =>
      rw [alarmStep] at hstep
      split_ifs at hstep with hvalid
      obtain rfl := Option.some.inj hstep
      refine ⟨htree.mask eventId mask, fun hroom hlist => ?_⟩
      cases mask with
      | true => exact hlist.masked hvalid
      | false => exact hlist.unmasked hroom htree hvalid

theorem TreeInv.of_reach {a : Alarms} (h : (alarmMachine f).Reach a) :
    TreeInv f a.active a.maskedAtReport a.state := by
  induction h with
  | start hinit =>
      obtain rfl := hinit
      constructor <;> simp [Alarms.start]
  | next step _ _ hstep ih => exact (alarmStep_inv ih hstep).1

theorem ListInv.of_reach {a : Alarms} (h : (alarmMachine f).ReachIf (Listed f) a) :
    ListInv f a.state := by
  induction h with
  | start hinit =>
      obtain rfl := hinit
      refine ⟨⟨rfl, ?_, ?_, rfl⟩, ?_, ?_⟩ <;> simp [Alarms.start]
  | next step hreach hlisted hstep ih =>
      exact (alarmStep_inv (.of_reach hreach.reach) hstep).2 hlisted ih

end OpiaiKernel.Dms
