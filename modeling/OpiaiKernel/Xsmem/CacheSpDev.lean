import OpiaiKernel.Xsmem.CacheSpInv

/-!
# What a section does to a device

The sections under `cache_sem` change one cache or add one, and the ones under
`dev_sem` change the references.  Each keeps the slot of the device in agreement
with what the calls and the blocks say after it.
-/

namespace OpiaiKernel.Xsmem

open AugTree Span

variable {P : PageSize}

/-! ## Allocating from a cache -/

namespace CacheOk

variable {held lost : List SpBlock} {c : CacheSpInfo} {b : SpBlock}

/-- A block of a cache is inside it. -/
theorem block (h : CacheOk P held lost c) (hb : b ∈ held) (hholds : c.Holds b) :
    0 < b.realSize ∧ P.bytes ∣ b.offset ∧ P.bytes ∣ b.realSize ∧
      b.offset + b.realSize ≤ c.addr + c.totalSize := by
  have hcell := h.fault.tiling.live_cell (b.inside c.addr) (List.mem_map_of_mem hb)
  have hstop := hcell.stop_le
  have hdvd : P.bytes ∣ b.offset - c.addr := hcell.start_dvd
  simp only [SpBlock.inside, stop] at hstop
  obtain ⟨hle, -⟩ := hholds
  refine ⟨hcell.pos, ?_, hcell.size_dvd, by omega⟩
  have := Nat.dvd_add hdvd h.area.start_dvd
  rwa [CacheSpInfo.area, Nat.sub_add_cancel hle] at this

theorem alloc_ok (h : CacheOk P held lost c) {bal : Rotations} {size offset realSize : ℕ}
    {vmaCtrl : VmaCtrl} (flag : ℕ)
    (hres : vmaAlgoAlloc P bal c.vmaCtrl size = (.ok (offset, realSize), vmaCtrl)) :
    c.Holds ⟨flag, Word.add 64 offset c.addr, realSize⟩ ∧
      CacheOk P (⟨flag, Word.add 64 offset c.addr, realSize⟩ :: held) lost
        { c with allocSize := Word.add 64 c.allocSize realSize, vmaCtrl := vmaCtrl } := by
  have hstep : ∀ l, vmaStep P ⟨c.vmaCtrl, l⟩ (.alloc size bal) =
      some ⟨vmaCtrl, ⟨offset, realSize⟩ :: l⟩ := fun l => by simp [vmaStep, hres]
  have hfault := h.fault.alloc (hstep _)
  have hcell := hfault.tiling.live_cell ⟨offset, realSize⟩ (by simp)
  have hpos := hcell.pos
  have hstop := hcell.stop_le
  have harea := h.area.stop_lt
  simp only [CacheSpInfo.area, stop] at hpos hstop harea
  have hoff : Word.add 64 offset c.addr = offset + c.addr := Word.add_of_lt (by omega)
  have hinside : SpBlock.inside c.addr ⟨flag, offset + c.addr, realSize⟩ =
      ⟨offset, realSize⟩ := by
    simp [SpBlock.inside]
  rw [hoff]
  refine ⟨⟨by simp, by simp only; omega⟩, ?_⟩
  constructor
  · exact h.area
  · rw [List.map_cons, hinside]
    exact hfault
  · intro hnil
    rw [List.map_cons, hinside]
    exact (h.whole hnil).alloc (hstep _)
  · have hleaf := leafSizes_vmaAlgoAlloc (P := P) bal size h.leaf
    rwa [hres] at hleaf
  · have htotal := totalSize_vmaAlgoAlloc (P := P) bal c.vmaCtrl size
    rw [hres] at htotal
    exact htotal.trans h.total
  · change Word.add 64 c.allocSize realSize = _
    rw [h.alloc, Word.mod_add, List.map_cons, List.sum_cons, Nat.add_comm]

/-! ## Freeing to a cache -/

/-- The free of a block of the cache, on the spans of its allocator. -/
theorem free_step {rest : List SpBlock} (h : CacheOk P (b :: rest) lost c) (kmalloc : Bool)
    (bal : Rotations) :
    VmaFaultInv P c.totalSize
      ⟨(vmaAlgoFree kmalloc bal c.vmaCtrl (b.inside c.addr).start b.realSize).2,
        match (vmaAlgoFree kmalloc bal c.vmaCtrl (b.inside c.addr).start b.realSize).1 with
        | .ok () => rest.map (SpBlock.inside c.addr)
        | .error _ => (b :: rest).map (SpBlock.inside c.addr)⟩ := by
  refine h.fault.free (?_ : vmaFaultStep P _ (.free (b.inside c.addr) kmalloc bal) = _)
  rw [vmaFaultStep, if_pos (by simp)]
  rcases hres : vmaAlgoFree kmalloc bal c.vmaCtrl (b.inside c.addr).start b.realSize with
    ⟨e | ⟨⟩, vmaCtrl⟩
  · simp only [SpBlock.inside] at hres ⊢
    simp only [hres]
  · simp only [SpBlock.inside] at hres ⊢
    simp only [hres]
    simp [SpBlock.inside]

theorem freed {rest : List SpBlock} (h : CacheOk P (b :: rest) lost c) {kmalloc : Bool}
    {bal : Rotations} {vmaCtrl : VmaCtrl}
    (hres : vmaAlgoFree kmalloc bal c.vmaCtrl (b.inside c.addr).start b.realSize =
      (.ok (), vmaCtrl)) :
    CacheOk P rest lost
      { c with allocSize := Word.sub 64 c.allocSize b.realSize, vmaCtrl := vmaCtrl } := by
  have hctrl : (vmaAlgoFree kmalloc bal c.vmaCtrl (b.inside c.addr).start b.realSize).2 =
      vmaCtrl := by rw [hres]
  constructor
  · exact h.area
  · have hfault := h.free_step kmalloc bal
    rwa [hres] at hfault
  · intro hnil
    -- a free that succeeds has not needed memory for a node, or had it
    have htrue : vmaAlgoFree true bal c.vmaCtrl (b.inside c.addr).start b.realSize =
        (.ok (), vmaCtrl) := by
      rcases vmaFreeBlock_kmalloc kmalloc bal c.vmaCtrl.freeBlockRoot (b.inside c.addr).start
        b.realSize with heq | heq
      · rw [← hres, vmaAlgoFree, vmaAlgoFree, heq]
      · simp [vmaAlgoFree, heq] at hres
    refine (h.whole hnil).free (?_ : vmaStep P _ (.free (b.inside c.addr) bal) = _)
    have htrue' : vmaAlgoFree true bal c.vmaCtrl (b.inside c.addr).start
        (b.inside c.addr).size = (.ok (), vmaCtrl) := htrue
    simp [vmaStep, htrue']
  · rw [← hctrl]
    exact leafSizes_vmaFreeBlock kmalloc bal h.leaf _ _
  · rw [← hctrl]
    exact h.total
  · change Word.sub 64 c.allocSize b.realSize = _
    rw [h.alloc, List.map_cons, List.sum_cons, Word.mod_sub (by omega), Nat.add_sub_cancel_left]

theorem free_failed {rest : List SpBlock} (h : CacheOk P (b :: rest) lost c) {kmalloc : Bool}
    {bal : Rotations} {vmaCtrl : VmaCtrl} {e : Errno}
    (hres : vmaAlgoFree kmalloc bal c.vmaCtrl (b.inside c.addr).start b.realSize =
      (.error e, vmaCtrl)) :
    CacheOk P (b :: rest) (b :: lost) { c with vmaCtrl := vmaCtrl } := by
  have hctrl : (vmaAlgoFree kmalloc bal c.vmaCtrl (b.inside c.addr).start b.realSize).2 =
      vmaCtrl := by rw [hres]
  constructor
  · exact h.area
  · have hfault := h.free_step kmalloc bal
    rwa [hres] at hfault
  · simp
  · rw [← hctrl]
    exact leafSizes_vmaFreeBlock kmalloc bal h.leaf _ _
  · rw [← hctrl]
    exact h.total
  · exact h.alloc

/-- The cache of a fresh allocator. -/
theorem fresh {area : Span} {vmaCtrl : VmaCtrl} (harea : AreaOk P area)
    (hcreate : vmaInstCreate P area.size = some vmaCtrl) :
    CacheOk P [] lost
      { addr := area.start, totalSize := area.size, allocSize := 0, vmaCtrl := vmaCtrl } := by
  have hlt : area.size < 2 ^ 64 := by
    have := harea.stop_lt
    simp only [stop] at this
    omega
  have hinit : VmaInv P area.size ⟨vmaCtrl, []⟩ := vmaInv_init ⟨hlt, hcreate, rfl⟩
  obtain ⟨-, -, hleaf, htotal⟩ := vmaInstCreate_some hcreate
  refine ⟨harea, ?_, fun _ => hinit, hleaf, htotal, rfl⟩
  exact vmaFaultInv_init (s := ⟨vmaCtrl, []⟩) ⟨hlt, hcreate, rfl⟩

end CacheOk

/-! ## References and readers -/

namespace DevOk

variable {v w : DevView} {dev : CacheDevInfo} {c : CacheSpInfo} {b : SpBlock} {pos : Option ℕ}

theorem get (h : DevOk P v dev) :
    DevOk P { v with refs := v.refs + 1 } { dev with ref := dev.ref + 1 } :=
  { h with
    ref := by
      have := h.ref
      simp only
      omega }

theorem put (h : DevOk P { v with refs := v.refs + 1 } dev) :
    DevOk P v { dev with ref := dev.ref - 1 } :=
  { h with
    ref := by
      have := h.ref
      simp only at this ⊢
      omega }

theorem enter (h : DevOk P v dev) (hpos : ∀ a, pos = some a → ∃ c ∈ dev.caches, c.addr = a) :
    DevOk P { v with walks := pos :: v.walks } { dev with cacheSem := dev.cacheSem + 1 } :=
  { h with
    sem := by simp [h.sem]
    walk_mem := by
      intro a ha
      rcases List.mem_cons.mp ha with ha | ha
      · exact hpos a ha.symm
      · exact h.walk_mem a ha }

theorem leave (h : DevOk P { v with walks := pos :: v.walks } dev) :
    DevOk P v { dev with cacheSem := dev.cacheSem - 1 } :=
  { h with
    sem := by simp [h.sem]
    walk_mem := fun a ha => h.walk_mem a (List.mem_cons_of_mem pos ha) }

theorem walkOn {next : Option ℕ} (h : DevOk P { v with walks := pos :: v.walks } dev)
    (hnext : ∀ a, next = some a → ∃ c ∈ dev.caches, c.addr = a) :
    DevOk P { v with walks := next :: v.walks } dev :=
  { h with
    sem := h.sem
    walk_mem := by
      intro a ha
      rcases List.mem_cons.mp ha with ha | ha
      · exact hnext a ha.symm
      · exact h.walk_mem a (List.mem_cons_of_mem pos ha) }

/-! ## Writing to a cache -/

/-- One cache is written and the blocks of the others stay as they are. -/
theorem write (h : DevOk P v dev) (hc : c ∈ dev.caches) {f : CacheSpInfo → CacheSpInfo}
    (hf : ∀ e, (f e).area = e.area) (hrefs : w.refs = v.refs) (hwalks : w.walks = v.walks)
    (hhome : ∀ b ∈ w.held, ∃ e ∈ dev.caches, e.Holds b)
    (hother : ∀ e ∈ dev.caches, e ≠ c →
      (v.held.filter e.Holds).Perm (w.held.filter e.Holds) ∧
        (v.lost.filter e.Holds).Perm (w.lost.filter e.Holds))
    (hself : CacheOk P (w.held.filter c.Holds) (w.lost.filter c.Holds) (f c)) {allocSize : ℕ}
    (halloc : allocSize = (w.held.map SpBlock.realSize).sum % 2 ^ 64) :
    DevOk P w { dev.modifyInfo c.addr f with allocSize := allocSize } := by
  have haddr : ∀ e, (f e).addr = e.addr := fun e => congrArg Span.start (hf e)
  have hareas : (dev.modifyInfo c.addr f).caches.map CacheSpInfo.area =
      dev.caches.map CacheSpInfo.area := map_modifyInfo CacheSpInfo.area hf
  have hholds : ∀ e b, (f e).Holds b ↔ e.Holds b := by
    intro e b
    have hsize : (f e).totalSize = e.totalSize := congrArg Span.size (hf e)
    rw [CacheSpInfo.Holds, CacheSpInfo.Holds, haddr, hsize]
  have hmem : ∀ e ∈ dev.caches, ∃ e' ∈ (dev.modifyInfo c.addr f).caches, e'.area = e.area := by
    intro e he
    have := List.mem_map_of_mem (f := CacheSpInfo.area) he
    rw [← hareas] at this
    obtain ⟨e', he', harea⟩ := List.mem_map.mp this
    exact ⟨e', he', harea⟩
  constructor
  · rw [hrefs]
    exact h.ref
  · rw [hwalks]
    exact h.sem
  · intro a ha
    rw [hwalks] at ha
    obtain ⟨e, he, rfl⟩ := h.walk_mem a ha
    obtain ⟨e', he', harea⟩ := hmem e he
    exact ⟨e', he', congrArg Span.start harea⟩
  · have := congrArg List.length hareas
    rw [List.length_map, List.length_map] at this
    exact h.cnt.trans (by rw [← this]; rfl)
  · exact h.total.trans (by rw [← hareas]; rfl)
  · exact halloc
  · have hsort : (dev.caches.map CacheSpInfo.area).Pairwise fun a b => a.stop ≤ b.start :=
      List.pairwise_map.mpr h.sorted
    rw [← hareas] at hsort
    exact List.pairwise_map.mp hsort
  · intro b hb
    obtain ⟨e, he, hbe⟩ := hhome b hb
    obtain ⟨e', he', harea⟩ := hmem e he
    have haddr' : e'.addr = e.addr := congrArg Span.start harea
    have hsize' : e'.totalSize = e.totalSize := congrArg Span.size harea
    refine ⟨e', he', ?_⟩
    rw [CacheSpInfo.Holds, haddr', hsize']
    exact hbe
  · intro e he
    rcases (h.mem_modifyInfo hc).mp he with rfl | ⟨⟨he, hne⟩, -⟩
    · simpa only [hholds] using hself
    · obtain ⟨hheld, hlost⟩ := hother e he hne
      exact (h.cache e he).perm hheld hlost

/-- Blocks of another cache are not among those of this one. -/
theorem not_holds (h : DevOk P v dev) (hc : c ∈ dev.caches) (hb : c.Holds b)
    {e : CacheSpInfo} (he : e ∈ dev.caches) (hne : e ≠ c) : ¬ e.Holds b := fun heb =>
  hne (h.eq_of_holds he hc heb hb)

theorem tryAlloc_ok (h : DevOk P v dev) (hc : c ∈ dev.caches) {bal : Rotations}
    {size offset realSize : ℕ} {dev' : CacheDevInfo} (flag : ℕ)
    (hres : cacheSpBlkTry P bal dev c size = (.ok (offset, realSize), dev')) :
    DevOk P { v with held := ⟨flag, offset, realSize⟩ :: v.held } dev' := by
  unfold cacheSpBlkTry at hres
  rcases hvma : vmaAlgoAlloc P bal c.vmaCtrl size with ⟨e | ⟨o, r⟩, vmaCtrl⟩
  · simp [hvma] at hres
  · simp only [hvma, Prod.mk.injEq, Except.ok.injEq] at hres
    obtain ⟨⟨rfl, rfl⟩, rfl⟩ := hres
    obtain ⟨hholds, hself⟩ := (h.cache c hc).alloc_ok flag hvma
    refine h.write hc
      (w := { v with held := ⟨flag, Word.add 64 o c.addr, r⟩ :: v.held })
      (f := fun e => { e with allocSize := Word.add 64 e.allocSize r, vmaCtrl := vmaCtrl })
      (fun _ => rfl) rfl rfl ?_ ?_ ?_ ?_
    · intro b hb
      rcases List.mem_cons.mp hb with rfl | hb
      · exact ⟨c, hc, hholds⟩
      · exact h.home b hb
    · intro e he hne
      simp [h.not_holds hc hholds he hne]
    · simpa [hholds] using hself
    · rw [h.alloc, Word.mod_add, List.map_cons, List.sum_cons, Nat.add_comm]

theorem tryAlloc_error (h : DevOk P v dev) (hc : c ∈ dev.caches) {bal : Rotations} {size : ℕ}
    {e : Errno} {dev' : CacheDevInfo}
    (hres : cacheSpBlkTry P bal dev c size = (.error e, dev')) :
    DevOk P v dev' ∧ ∀ x, (∃ c ∈ dev.caches, c.addr = x) → ∃ c ∈ dev'.caches, c.addr = x := by
  unfold cacheSpBlkTry at hres
  rcases hvma : vmaAlgoAlloc P bal c.vmaCtrl size with ⟨e' | ⟨o, r⟩, vmaCtrl⟩
  · obtain rfl := vmaAlgoAlloc_error hvma
    simp only [hvma, Prod.mk.injEq] at hres
    obtain ⟨-, rfl⟩ := hres
    refine ⟨?_, ?_⟩
    · exact h.write hc (f := fun e => { e with vmaCtrl := c.vmaCtrl }) (fun _ => rfl) rfl rfl
        h.home (fun _ _ _ => ⟨.refl _, .refl _⟩) (h.cache c hc) h.alloc
    · rintro x ⟨k, hk, rfl⟩
      have haddrs : (dev.modifyInfo c.addr fun e => { e with vmaCtrl := c.vmaCtrl }).caches.map
          CacheSpInfo.addr = dev.caches.map CacheSpInfo.addr :=
        map_modifyInfo CacheSpInfo.addr fun _ => rfl
      have hmem := List.mem_map_of_mem (f := CacheSpInfo.addr) hk
      rw [← haddrs] at hmem
      exact List.mem_map.mp hmem
  · simp [hvma] at hres

/-! ## Searching and freeing -/

theorem search_eq (h : DevOk P v dev) (hc : c ∈ dev.caches) (hb : c.Holds b) :
    cacheSpRbSearch dev b.offset = some c := by
  have hstop : ∀ e ∈ dev.caches, Word.add 64 e.addr e.totalSize = e.addr + e.totalSize :=
    fun e he => Word.add_of_lt (h.cache e he).area.stop_lt
  rw [cacheSpRbSearch, search_eq_some]
  · refine ⟨hc, ?_⟩
    obtain ⟨hle, hlt⟩ := hb
    rw [hstop c hc, if_neg (by omega), if_neg (by omega)]
  · refine h.sorted.imp_of_mem fun {e k} he hk hek => ?_
    simp only [hstop e he, hstop k hk]
    simp only [CacheSpInfo.area, stop] at hek
    have hpos := (h.cache e he).area.pos
    simp only [CacheSpInfo.area] at hpos
    by_cases hlt : b.offset < k.addr
    · exact .inr (if_pos hlt)
    · rw [if_neg (by omega), if_pos (by omega)]
      exact .inl rfl

variable {rest : List SpBlock}

/-- The cache of a block and the other blocks there. -/
theorem focus (h : DevOk P { v with held := b :: rest } dev) :
    ∃ c ∈ dev.caches, c.Holds b ∧ cacheSpRbSearch dev b.offset = some c ∧
      Word.sub 64 b.offset c.addr = (b.inside c.addr).start ∧
      CacheOk P (b :: rest.filter c.Holds) (v.lost.filter c.Holds) c := by
  obtain ⟨c, hc, hholds⟩ := h.home b List.mem_cons_self
  have hcache := h.cache c hc
  have harea := hcache.area.stop_lt
  obtain ⟨hle, hlt⟩ := hholds
  refine ⟨c, hc, ⟨hle, hlt⟩, h.search_eq hc ⟨hle, hlt⟩, ?_, ?_⟩
  · simp only [CacheSpInfo.area, stop] at harea
    exact Word.sub_of_le hle (by omega)
  · have hfilter : (b :: rest).filter c.Holds = b :: rest.filter c.Holds :=
      List.filter_cons_of_pos (by simpa using ⟨hle, hlt⟩)
    exact hfilter ▸ hcache

theorem freed (h : DevOk P { v with held := b :: rest } dev) {kmalloc : Bool} {bal : Rotations}
    {dev' : CacheDevInfo} (hres : cacheSpFreeToCache kmalloc bal dev b = (.ok (), dev')) :
    DevOk P { v with held := rest } dev' := by
  obtain ⟨c, hc, hholds, hsearch, hsub, hcache⟩ := h.focus
  simp only [cacheSpFreeToCache, hsearch, hsub] at hres
  rcases hvma : vmaAlgoFree kmalloc bal c.vmaCtrl (b.inside c.addr).start b.realSize with
    ⟨e | ⟨⟩, vmaCtrl⟩
  · simp [hvma] at hres
  · simp only [hvma, Prod.mk.injEq, true_and] at hres
    subst hres
    refine h.write hc (w := { v with held := rest })
      (f := fun e =>
        { e with allocSize := Word.sub 64 e.allocSize b.realSize, vmaCtrl := vmaCtrl })
      (fun _ => rfl) rfl rfl ?_ ?_ (hcache.freed hvma) ?_
    · exact fun k hk => h.home k (List.mem_cons_of_mem b hk)
    · intro e he hne
      simp [h.not_holds hc hholds he hne]
    · rw [h.alloc, List.map_cons, List.sum_cons, Word.mod_sub (by omega),
        Nat.add_sub_cancel_left]

theorem free_failed (h : DevOk P { v with held := b :: rest } dev) {kmalloc : Bool}
    {bal : Rotations} {dev' : CacheDevInfo} {e : Errno}
    (hres : cacheSpFreeToCache kmalloc bal dev b = (.error e, dev')) :
    DevOk P { v with held := b :: rest, lost := b :: v.lost } dev' := by
  obtain ⟨c, hc, hholds, hsearch, hsub, hcache⟩ := h.focus
  simp only [cacheSpFreeToCache, hsearch, hsub] at hres
  rcases hvma : vmaAlgoFree kmalloc bal c.vmaCtrl (b.inside c.addr).start b.realSize with
    ⟨e' | ⟨⟩, vmaCtrl⟩
  · simp only [hvma, Prod.mk.injEq] at hres
    obtain ⟨-, rfl⟩ := hres
    refine h.write hc (w := { v with held := b :: rest, lost := b :: v.lost })
      (f := fun e => { e with vmaCtrl := vmaCtrl }) (fun _ => rfl) rfl rfl h.home ?_ ?_ h.alloc
    · intro k hk hne
      simp [h.not_holds hc hholds hk hne]
    · simpa [hholds] using hcache.free_failed hvma
  · simp [hvma] at hres

/-! ## A new cache -/

theorem insert (h : DevOk P v dev) (hwalks : v.walks = []) {area : Span} {vmaCtrl : VmaCtrl}
    (harea : AreaOk P area) (hapart : ∀ c ∈ dev.caches, Apart area c.area)
    (hcreate : vmaInstCreate P area.size = some vmaCtrl) (bal : Rotations) :
    ∃ dev', cacheSpRbInsert bal dev
        { addr := area.start, totalSize := area.size, allocSize := 0, vmaCtrl := vmaCtrl } =
        .ok dev' ∧
      (dev'.caches.map CacheSpInfo.area).Perm (area :: dev.caches.map CacheSpInfo.area) ∧
      DevOk P v
        { dev' with
          cacheCnt := Word.add 32 dev'.cacheCnt 1
          totalSize := Word.add 64 dev'.totalSize area.size } := by
  have hpos : ∀ c ∈ dev.caches, 0 < c.totalSize := fun c hc => (h.cache c hc).area.pos
  have hnew := harea.pos
  have hord : Ordered (fun this : CacheSpInfo => compare area.start this.addr)
      dev.cacheRbtree.toList := by
    refine h.sorted.imp_of_mem fun {e k} he hk hek => ?_
    have := hpos e he
    simp only [CacheSpInfo.area, stop] at hek
    by_cases hlt : area.start < k.addr
    · exact .inr (Nat.compare_eq_lt.mpr hlt)
    · exact .inl (Nat.compare_eq_gt.mpr (by omega))
  have hne : ∀ c ∈ dev.cacheRbtree.toList, compare area.start c.addr ≠ .eq := by
    intro c hc heq
    have := hpos c hc
    have haddr := Nat.compare_eq_eq.mp heq
    rcases hapart c hc with hap | hap <;> simp only [CacheSpInfo.area, stop] at hap <;> omega
  obtain ⟨p, xs, ys, hlink, hlist, hbef, haft, hxs, hys⟩ := link_split (p := []) hord hne
  simp only [before, List.nil_append, after, List.append_nil] at hbef haft
  rw [cacheSpRbInsert, hlink]
  refine ⟨_, rfl, ?_, ?_⟩
  · simp only [CacheDevInfo.caches, toList_rbInsertAugmented, hbef, haft, hlist, List.map_append,
      List.map_cons]
    exact List.perm_middle
  · have hlist' : dev.caches = xs ++ ys := hlist
    have hmem : ∀ c, c ∈ xs ∨ c ∈ ys → c ∈ dev.caches := by
      intro c hc
      rw [hlist']
      exact List.mem_append.mpr hc
    have hbefore : ∀ c ∈ xs, c.area.stop ≤ area.start := by
      intro c hc
      have hlt := Nat.compare_eq_gt.mp (hxs c hc)
      rcases hapart c (hmem c (.inl hc)) with hap | hap
      · simp only [CacheSpInfo.area, stop] at hap
        omega
      · exact hap
    have hbehind : ∀ c ∈ ys, area.stop ≤ c.addr := by
      intro c hc
      have hlt := Nat.compare_eq_lt.mp (hys c hc)
      rcases hapart c (hmem c (.inr hc)) with hap | hap
      · exact hap
      · have := hpos c (hmem c (.inr hc))
        simp only [CacheSpInfo.area, stop] at hap
        omega
    have hcaches : ∀ c, c ∈ xs ++ CacheSpInfo.mk area.start area.size 0 vmaCtrl :: ys ↔
        c = ⟨area.start, area.size, 0, vmaCtrl⟩ ∨ c ∈ dev.caches := by
      intro c
      rw [hlist', List.mem_append, List.mem_cons, List.mem_append]
      tauto
    -- the blocks of the device are in the other caches
    have hnone : ∀ b ∈ v.held, ¬ (CacheSpInfo.mk area.start area.size 0 vmaCtrl).Holds b := by
      rintro b hb ⟨hle, hlt⟩
      obtain ⟨c, hc, hle', hlt'⟩ := h.home b hb
      simp only at hle hlt
      rcases hapart c hc with hap | hap <;> simp only [CacheSpInfo.area, stop] at hap <;> omega
    have hnewdev : (rbInsertAugmented noAugment bal
        (CacheSpInfo.mk area.start area.size 0 vmaCtrl) () p).toList =
        xs ++ CacheSpInfo.mk area.start area.size 0 vmaCtrl :: ys := by
      rw [toList_rbInsertAugmented, hbef, haft]
    constructor
    · exact h.ref
    · exact h.sem
    · simp [hwalks]
    · change Word.add 32 dev.cacheCnt 1 = List.length (AugTree.toList _) % 2 ^ 32
      rw [hnewdev, h.cnt, Word.mod_add, hlist']
      simp [Nat.add_assoc]
    · change Word.add 64 dev.totalSize area.size =
        Span.total ((AugTree.toList _).map CacheSpInfo.area) % 2 ^ 64
      rw [hnewdev, h.total, Word.mod_add, hlist']
      simp only [List.map_append, List.map_cons, total_append, total_cons, CacheSpInfo.area]
      congr 1
      omega
    · exact h.alloc
    · change List.Pairwise _ (AugTree.toList _)
      rw [hnewdev]
      have hsort := h.sorted
      rw [hlist'] at hsort
      obtain ⟨hx, hy, hxy⟩ := List.pairwise_append.mp hsort
      refine List.pairwise_append.mpr ⟨hx, List.pairwise_cons.mpr ⟨hbehind, hy⟩, ?_⟩
      intro c hc k hk
      rcases List.mem_cons.mp hk with rfl | hk
      · exact hbefore c hc
      · exact hxy c hc k hk
    · intro b hb
      obtain ⟨c, hc, hholds⟩ := h.home b hb
      refine ⟨c, ?_, hholds⟩
      change c ∈ AugTree.toList _
      rw [hnewdev, hcaches]
      exact .inr hc
    · intro c hc
      change c ∈ AugTree.toList _ at hc
      rw [hnewdev, hcaches] at hc
      rcases hc with rfl | hc
      · have hheld : v.held.filter (CacheSpInfo.mk area.start area.size 0 vmaCtrl).Holds = [] := by
          rw [List.filter_eq_nil_iff]
          intro b hb
          simpa using hnone b hb
        rw [hheld]
        exact CacheOk.fresh harea hcreate
      · exact h.cache c hc

end DevOk

end OpiaiKernel.Xsmem
