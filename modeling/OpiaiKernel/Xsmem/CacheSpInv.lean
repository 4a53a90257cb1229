import OpiaiKernel.Xsmem.CacheSp
import OpiaiKernel.Xsmem.PoolAlgo
import OpiaiKernel.Xsmem.VmaFresh

/-!
# The invariant of the cached share pool

What the calls in flight and the blocks handed out say about a device is its
view.  A slot of the device table agrees with its view: the references and the
readers are the calls of the device, the counters are sums over its caches and
blocks, and the blocks inside a cache are the ones its allocator has handed out.
The areas of the share pool are the caches, the areas on their way to become one
and the blocks that come from it directly.
-/

namespace OpiaiKernel.Xsmem

open AugTree Span

variable {P : PageSize}

/-- A nonempty area of whole pages. -/
structure AreaOk (P : PageSize) (a : Span) : Prop where
  start_pos : 0 < a.start
  pos : 0 < a.size
  start_dvd : P.bytes ∣ a.start
  size_dvd : P.bytes ∣ a.size
  stop_lt : a.stop < 2 ^ 64

/-! ## The cache of a block -/

/-- The block starts inside the cache. -/
def CacheSpInfo.Holds (c : CacheSpInfo) (b : SpBlock) : Prop :=
  c.addr ≤ b.offset ∧ b.offset < c.addr + c.totalSize

instance (c : CacheSpInfo) (b : SpBlock) : Decidable (c.Holds b) :=
  inferInstanceAs (Decidable (_ ∧ _))

/-- The block as the allocator of a cache at `addr` knows it. -/
def SpBlock.inside (addr : ℕ) (b : SpBlock) : Span := ⟨b.offset - addr, b.realSize⟩

/-- A cache whose blocks are `held`, and `lost` those of them whose free failed. -/
structure CacheOk (P : PageSize) (held lost : List SpBlock) (c : CacheSpInfo) : Prop where
  area : AreaOk P c.area
  fault : VmaFaultInv P c.totalSize ⟨c.vmaCtrl, held.map (SpBlock.inside c.addr)⟩
  whole : lost = [] → VmaInv P c.totalSize ⟨c.vmaCtrl, held.map (SpBlock.inside c.addr)⟩
  leaf : LeafSizes c.vmaCtrl.freeBlockRoot
  total : c.vmaCtrl.totalSize = c.totalSize
  alloc : c.allocSize = (held.map SpBlock.realSize).sum % 2 ^ 64

theorem VmaFaultInv.perm {T : ℕ} {c : VmaCtrl} {l l' : List Span}
    (h : VmaFaultInv P T ⟨c, l⟩) (hperm : l.Perm l') : VmaFaultInv P T ⟨c, l'⟩ :=
  ⟨h.bound, h.tiling.perm hperm, h.cnt_lt⟩

theorem CacheOk.perm {held held' lost lost' : List SpBlock} {c : CacheSpInfo}
    (h : CacheOk P held lost c) (hheld : held.Perm held') (hlost : lost.Perm lost') :
    CacheOk P held' lost' c where
  area := h.area
  fault := h.fault.perm (hheld.map _)
  whole := fun hnil => (h.whole (hnil ▸ hlost).eq_nil).perm (hheld.map _)
  leaf := h.leaf
  total := h.total
  alloc := h.alloc.trans (by rw [(hheld.map SpBlock.realSize).sum_eq])

/-! ## The slot of a device -/

/-- What the calls and the blocks of a run say about a device. -/
structure DevView where
  refs : ℕ
  walks : List (Option ℕ)
  held : List SpBlock
  lost : List SpBlock

/-- The order of calls and blocks does not matter. -/
structure DevView.Same (v w : DevView) : Prop where
  refs : v.refs = w.refs
  walks : v.walks.Perm w.walks
  held : v.held.Perm w.held
  lost : v.lost.Perm w.lost

structure DevOk (P : PageSize) (v : DevView) (dev : CacheDevInfo) : Prop where
  ref : dev.ref = 1 + v.refs
  sem : dev.cacheSem = v.walks.length
  walk_mem : ∀ a, some a ∈ v.walks → ∃ c ∈ dev.caches, c.addr = a
  cnt : dev.cacheCnt = dev.caches.length % 2 ^ 32
  total : dev.totalSize = total (dev.caches.map CacheSpInfo.area) % 2 ^ 64
  alloc : dev.allocSize = (v.held.map SpBlock.realSize).sum % 2 ^ 64
  sorted : dev.caches.Pairwise fun a b => a.area.stop ≤ b.addr
  home : ∀ b ∈ v.held, ∃ c ∈ dev.caches, c.Holds b
  cache : ∀ c ∈ dev.caches, CacheOk P (v.held.filter c.Holds) (v.lost.filter c.Holds) c

/-- The slot of a device that is not there has no users and no blocks. -/
def DevSlot (P : PageSize) (v : DevView) : Option CacheDevInfo → Prop
  | none => v.refs = 0 ∧ v.walks = [] ∧ v.held = []
  | some dev => DevOk P v dev

theorem DevSlot.same {v w : DevView} {o : Option CacheDevInfo} (h : DevSlot P v o)
    (hs : v.Same w) : DevSlot P w o := by
  cases o with
  | none =>
      obtain ⟨hrefs, hwalks, hheld⟩ := h
      exact ⟨hs.refs ▸ hrefs, (hwalks ▸ hs.walks).nil_eq.symm, (hheld ▸ hs.held).nil_eq.symm⟩
  | some dev =>
      have h : DevOk P v dev := h
      constructor
      · rw [← hs.refs]
        exact h.ref
      · rw [← hs.walks.length_eq]
        exact h.sem
      · exact fun a ha => h.walk_mem a (hs.walks.mem_iff.mpr ha)
      · exact h.cnt
      · exact h.total
      · rw [← (hs.held.map SpBlock.realSize).sum_eq]
        exact h.alloc
      · exact h.sorted
      · exact fun b hb => h.home b (hs.held.mem_iff.mpr hb)
      · exact fun c hc => (h.cache c hc).perm (hs.held.filter _) (hs.lost.filter _)

namespace DevOk

variable {v : DevView} {dev : CacheDevInfo} {c c' : CacheSpInfo} {b : SpBlock}

/-- Of two caches one is in front of the other. -/
theorem order (h : DevOk P v dev) (hc : c ∈ dev.caches) (hc' : c' ∈ dev.caches) :
    c = c' ∨ c.area.stop ≤ c'.addr ∨ c'.area.stop ≤ c.addr := by
  obtain ⟨i, hi, rfl⟩ := List.getElem_of_mem hc
  obtain ⟨j, hj, rfl⟩ := List.getElem_of_mem hc'
  have hsort := List.pairwise_iff_getElem.mp h.sorted
  rcases Nat.lt_trichotomy i j with hij | rfl | hij
  · exact .inr (.inl (hsort i j hi hj hij))
  · exact .inl rfl
  · exact .inr (.inr (hsort j i hj hi hij))

theorem eq_of_addr (h : DevOk P v dev) (hc : c ∈ dev.caches) (hc' : c' ∈ dev.caches)
    (haddr : c.addr = c'.addr) : c = c' := by
  have hpos := (h.cache c hc).area.pos
  have hpos' := (h.cache c' hc').area.pos
  simp only [CacheSpInfo.area] at hpos hpos'
  rcases h.order hc hc' with heq | hlt | hlt
  · exact heq
  · simp only [CacheSpInfo.area, stop] at hlt
    omega
  · simp only [CacheSpInfo.area, stop] at hlt
    omega

theorem eq_of_holds (h : DevOk P v dev) (hc : c ∈ dev.caches) (hc' : c' ∈ dev.caches)
    (hb : c.Holds b) (hb' : c'.Holds b) : c = c' := by
  obtain ⟨hle, hlt⟩ := hb
  obtain ⟨hle', hlt'⟩ := hb'
  rcases h.order hc hc' with heq | hord | hord
  · exact heq
  · simp only [CacheSpInfo.area, stop] at hord
    omega
  · simp only [CacheSpInfo.area, stop] at hord
    omega

/-- Writing to a cache writes to it and to nothing else. -/
theorem mem_modifyInfo (h : DevOk P v dev) (hc : c ∈ dev.caches) {f : CacheSpInfo → CacheSpInfo}
    {d : CacheSpInfo} :
    d ∈ (dev.modifyInfo c.addr f).caches ↔
      d = f c ∨ (d ∈ dev.caches ∧ d ≠ c) ∧ d.addr ≠ c.addr := by
  simp only [CacheDevInfo.caches, CacheDevInfo.modifyInfo, toList_map, List.mem_map]
  constructor
  · rintro ⟨e, he, rfl⟩
    by_cases haddr : e.addr = c.addr
    · obtain rfl := h.eq_of_addr he hc haddr
      exact .inl (by simp)
    · rw [if_neg haddr]
      exact .inr ⟨⟨he, fun heq => haddr (heq ▸ rfl)⟩, haddr⟩
  · rintro (rfl | ⟨⟨hd, -⟩, haddr⟩)
    · exact ⟨c, hc, by simp⟩
    · exact ⟨d, hd, by rw [if_neg haddr]⟩

end DevOk

/-- A write that keeps the place of the caches. -/
theorem map_modifyInfo {α : Type} (g : CacheSpInfo → α) {dev : CacheDevInfo} {addr : ℕ}
    {f : CacheSpInfo → CacheSpInfo} (hf : ∀ c, g (f c) = g c) :
    (dev.modifyInfo addr f).caches.map g = dev.caches.map g := by
  simp only [CacheDevInfo.caches, CacheDevInfo.modifyInfo, toList_map, List.map_map]
  refine List.map_congr_left fun c _ => ?_
  simp only [Function.comp]
  split
  · exact hf c
  · rfl

/-! ## The view of a run -/

namespace CacheRun

/-- The blocks of the caches that have not come back. -/
def held (s : CacheRun) : List SpBlock :=
  s.live ++ s.calls.filterMap CacheCall.freeing ++ s.lost

def view (s : CacheRun) (d : ℕ) : DevView where
  refs := s.calls.countP fun call => call.refDev = some d
  walks := s.calls.filterMap (CacheCall.walk d)
  held := s.held.filter fun b => b.devid = d
  lost := s.lost.filter fun b => b.devid = d

end CacheRun

/-- One more call. -/
def DevView.add (d : ℕ) (call : CacheCall) (v : DevView) : DevView where
  refs := v.refs + if call.refDev = some d then 1 else 0
  walks := (call.walk d).toList ++ v.walks
  held := (call.freeing.toList.filter fun b => b.devid = d) ++ v.held
  lost := v.lost

theorem DevView.add_of_ne {d : ℕ} {call : CacheCall} (v : DevView) (h : call.refDev ≠ some d) :
    v.add d call = v := by
  have hne : ∀ e, some e ≠ some d → ¬ e = d := fun e he heq => he (heq ▸ rfl)
  cases call <;> simp_all [DevView.add, CacheCall.refDev, CacheCall.walk, CacheCall.freeing]

theorem DevView.Same.refl (v : DevView) : v.Same v := ⟨rfl, .refl _, .refl _, .refl _⟩

theorem DevView.Same.symm {v w : DevView} (h : v.Same w) : w.Same v :=
  ⟨h.refs.symm, h.walks.symm, h.held.symm, h.lost.symm⟩

theorem DevView.Same.trans {u v w : DevView} (h : u.Same v) (h' : v.Same w) : u.Same w :=
  ⟨h.refs.trans h'.refs, h.walks.trans h'.walks, h.held.trans h'.held, h.lost.trans h'.lost⟩

namespace CacheRun

variable {s : CacheRun} {call : CacheCall}

theorem view_cons (s : CacheRun) (call : CacheCall) (d : ℕ) :
    ({ s with calls := call :: s.calls }.view d).Same ((s.view d).add d call) where
  refs := by simp [view, DevView.add, List.countP_cons]
  walks := by
    simp only [view, DevView.add]
    cases hw : call.walk d <;> simp [hw]
  held := by
    simp only [view, held, DevView.add]
    cases hf : call.freeing with
    | none => simp [hf]
    | some b =>
        simp only [List.filterMap_cons, hf, Option.toList_some]
        rw [← List.filter_append]
        refine List.Perm.filter _ ?_
        simp only [List.append_assoc, List.cons_append]
        exact List.perm_middle
  lost := .refl _

/-- The calls but one. -/
def without (s : CacheRun) (call : CacheCall) : CacheRun :=
  { s with calls := s.calls.erase call }

theorem view_perm {calls : List CacheCall} (h : s.calls.Perm calls) (d : ℕ) :
    (s.view d).Same ({ s with calls := calls }.view d) where
  refs := h.countP_eq _
  walks := h.filterMap _
  held := (((h.filterMap _).append_left _).append_right _).filter _
  lost := .refl _

theorem view_without (h : call ∈ s.calls) (d : ℕ) :
    (s.view d).Same (((s.without call).view d).add d call) :=
  (view_perm (List.perm_cons_erase h) d).trans (view_cons (s.without call) call d)

theorem view_goOn (s : CacheRun) (old new : CacheCall) (ctrl : CacheSpCtrl) (d : ℕ) :
    ((s.goOn old new ctrl).view d).Same (((s.without old).view d).add d new) :=
  view_cons (s.without old) new d

end CacheRun

/-! ## The areas -/

def areasOf (o : Option CacheDevInfo) : List Span :=
  match o with
  | none => []
  | some dev => dev.caches.map CacheSpInfo.area

/-- The areas of the caches of all devices. -/
def CacheSpCtrl.cacheAreas (ctrl : CacheSpCtrl) : List Span :=
  (List.range XSMEM_MAX_DEV_NUM).flatMap fun d => areasOf (ctrl.devInfo d)

theorem count_setDev (ctrl : CacheSpCtrl) {d : ℕ} (hd : d < XSMEM_MAX_DEV_NUM)
    (o : Option CacheDevInfo) (a : Span) :
    (ctrl.setDev d o).cacheAreas.count a + (areasOf (ctrl.devInfo d)).count a =
      (areasOf o).count a + ctrl.cacheAreas.count a := by
  have hrange : List.range XSMEM_MAX_DEV_NUM = [0, 1, 2, 3] := rfl
  simp only [XSMEM_MAX_DEV_NUM] at hd
  simp only [CacheSpCtrl.cacheAreas, CacheSpCtrl.setDev, hrange, List.flatMap_cons,
    List.flatMap_nil, List.count_append, List.count_nil]
  obtain rfl | rfl | rfl | rfl : d = 0 ∨ d = 1 ∨ d = 2 ∨ d = 3 := by omega
  all_goals simp [Function.update]; omega

/-- The share pool has handed out the areas of the caches and `others`. -/
structure AreasOk (P : PageSize) (ctrl : CacheSpCtrl) (others : List Span) : Prop where
  count : ∀ a, ctrl.spCtrl.count a = ctrl.cacheAreas.count a + others.count a
  ok : ∀ a ∈ ctrl.spCtrl, AreaOk P a
  apart : ctrl.spCtrl.Pairwise Apart

/-- The areas outside the caches. -/
def CacheRun.others (s : CacheRun) : List Span :=
  s.calls.filterMap CacheCall.newArea ++ s.osLive.map SpBlock.span

structure CacheInv (P : PageSize) (s : CacheRun) : Prop where
  dev_lt : ∀ d dev, s.ctrl.devInfo d = some dev → d < XSMEM_MAX_DEV_NUM
  slot : ∀ d, DevSlot P (s.view d) (s.ctrl.devInfo d)
  areas : AreasOk P s.ctrl s.others
  os_size : s.ctrl.osInfo.allocedSize = (s.osLive.map SpBlock.realSize).sum % 2 ^ 64
  os_cnt : s.ctrl.osInfo.blkCnt = s.osLive.length % 2 ^ 64

end OpiaiKernel.Xsmem
