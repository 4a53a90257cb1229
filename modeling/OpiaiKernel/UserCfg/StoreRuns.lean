import Mathlib.Tactic.IntervalCases
import OpiaiKernel.UserCfg.StoreServe

/-!
# Runs of the store

As long as every item that grows finds room, the store is a map from names to
values beside the static items.  Otherwise the item is lost, and only then does a
set that fails change what is read.
-/

namespace OpiaiKernel.UserCfg

variable {bd : Build} {sha : Sha256} {hb : HeadBlk} {m : ItemName → Option (List UInt8)}
  {buf : List UInt8} {fl : Flash} {name : ItemName} {s : Store} {r : Request}

/-! ## The invariant -/

/-- The values after a request: those it notes when it succeeds. -/
def Request.outcome (m : ItemName → Option (List UInt8)) (r : Request) :
    Except UcErr Unit → ItemName → Option (List UInt8)
  | .ok () => r.note m
  | .error _ => m

theorem Store.serve_eq (s : Store) (r : Request) :
    s.serve bd sha r = ⟨(UserCfg.serve bd sha s.flash r).2,
      r.outcome s.last (UserCfg.serve bd sha s.flash r).1⟩ := by
  rw [Store.serve]
  rcases UserCfg.serve bd sha s.flash r with ⟨res, fl⟩
  cases res <;> rfl

theorem Served.holds {statics : Block} {res : Except UcErr Unit × Flash}
    (h : Served bd sha statics m (r.note m) res) : Holds bd sha res.2 (r.outcome m res.1) := by
  cases h with
  | done fl holds same => exact holds
  | failed e fl holds same => exact holds

theorem holds_serve (hh : Holds bd sha fl m) (hroom : Roomy bd sha fl r) :
    Holds bd sha (serve bd sha fl r).2 (r.outcome m (serve bd sha fl r).1) := by
  cases r with
  | set name buf => exact (served_set hh hroom).holds (r := .set name buf)
  | clear name => exact (served_clear hh).holds (r := .clear name)
  | updateStatic item buf effect =>
      have hh' := holds_configUpdate hh item buf effect
      rw [serve]
      generalize configUpdate sha fl item buf effect = res at hh' ⊢
      rcases res with ⟨_ | _, fl'⟩ <;> exact hh'

theorem holds_of_reachIf
    (hs : (storeMachine bd sha).ReachIf (fun s r => Roomy bd sha s.flash r) s) :
    Holds bd sha s.flash s.last := by
  refine hs.invariant (P := fun s => Holds bd sha s.flash s.last) ?_ ?_
  · intro s hs
    exact .blank hs.head hs.last
  · intro s r t hh hroom hst
    obtain rfl := Option.some.inj hst
    rw [Store.serve_eq]
    exact holds_serve hh hroom

/-! ## A set that fails -/

/-- A set that returns an error changes nothing that a dynamic get returns. -/
def FailedSetKeeps (bd : Build) (sha : Sha256) (fl : Flash) (name : ItemName)
    (buf : List UInt8) : Prop :=
  ∀ e fl', setUserConfigDynamic bd sha fl name buf = (.error e, fl') → ∀ other n,
    (getUserConfigDynamic bd sha fl' other n).1 = (getUserConfigDynamic bd sha fl other n).1

theorem Holds.failedSetKeeps_iff (hh : Holds bd sha fl m) (name : ItemName) (buf : List UInt8) :
    FailedSetKeeps bd sha fl name buf ↔ Roomy bd sha fl (.set name buf) := by
  constructor
  · intro hkeeps
    by_contra hno
    obtain ⟨e, fl', hb', v, hrun, hlost, hv⟩ := lost_of_not_roomy hh hno
    have hsame := hkeeps e fl' hrun name v.length
    rw [hlost.getUserConfigDynamic_eq, getUserConfigDynamic_eq hh, hv] at hsame
    simp [readResult] at hsame
  · intro hroom e fl' hrun other n
    have hh' := holds_serve hh hroom
    simp only [serve, hrun, Request.outcome] at hh'
    rw [getUserConfigDynamic_eq hh, getUserConfigDynamic_eq hh']

/-! ## The store as a map -/

/-- What a head table says of the content blocks: valid items of one block do not
overlap, each ends inside the block, and its name leads to no other head. -/
structure TableOk (bd : Build) (hb : HeadBlk) : Prop where
  apart : (hb.heads.filter UcCfgHead.validFlg).Pairwise UcCfgHead.Apart
  inside : ∀ h ∈ hb.heads, h.validFlg = true → h.span.stop ≤ DEVDRV_FLASH_BLOCK_SIZE
  lookup : ∀ i h, hb.heads[i]? = some h → h.validFlg = true →
    getUsrCfgNameInfo bd hb h.itemName = .ok (some (i, h))

structure MapOk (bd : Build) (sha : Sha256) (s : Store) : Prop where
  get : ∀ name n, (getUserConfigDynamic bd sha s.flash name n).1 = readResult n (s.last name)
  table : ∀ c, checkValid sha (s.flash.head c) = true → TableOk bd (s.flash.head c)

/-- The product ascend610Lite searches for gaps, and has six content blocks. -/
def ascend610Lite : Build := ⟨true, 8⟩

def blankStore : Store where
  flash := ⟨fun _ => { initBlock with validFlag := false }, fun _ _ _ => 0⟩
  last _ := none

theorem nthName_fits (k : ℕ) :
    (List.replicate (k % 31 + 1) (65 : UInt8)).length < UC_CFG_NAME_LEN_MAX ∧
      0 ∉ List.replicate (k % 31 + 1) (65 : UInt8) := by
  rw [List.length_replicate, List.mem_replicate, UC_CFG_NAME_LEN_MAX]
  exact ⟨by omega, fun hzero => absurd hzero.2 (by decide)⟩

def nthName (k : ℕ) : ItemName := ⟨List.replicate (k % 31 + 1) 65, nthName_fits k⟩

theorem nthName_ne {j k : ℕ} (hne : j ≠ k) (hj : j < 31) (hk : k < 31) : nthName j ≠ nthName k := by
  intro heq
  have hlen := congrArg (fun n : ItemName => n.val.length) heq
  simp only [nthName, List.length_replicate] at hlen
  omega

/-- The longest item. -/
def longItem : List UInt8 := List.replicate UC_ITEM_DATA_MAX_LEN 0

theorem length_longItem : longItem.length = 32768 := List.length_replicate

def longHead (k : ℕ) : UcCfgHead := ⟨nthName k, 2 + k, 0, 32768, 0, true⟩

/-- One long item after the other. -/
def fillStore (sha : Sha256) : ℕ → Store
  | 0 => blankStore
  | k + 1 => (fillStore sha k).serve ascend610Lite sha (.set (nthName k) longItem)

/-- A reached state with its table, in which the names from `k` on are not set. -/
structure Filled (sha : Sha256) (s : Store) (heads : List UcCfgHead) (k : ℕ) : Prop where
  reach : (storeMachine ascend610Lite sha).ReachIf
    (fun s r => Roomy ascend610Lite sha s.flash r) s
  heads : (workBlock sha s.flash).heads = heads
  unset : ∀ j, k ≤ j → j < 31 → s.last (nthName j) = none

theorem Filled.set {heads : List UcCfgHead} {k blk off : ℕ} (buf : List UInt8)
    (hf : Filled sha s heads k) (hk : k < 31) (hpos : 0 < buf.length)
    (hle : buf.length ≤ UC_ITEM_DATA_MAX_LEN)
    (hlen : heads.length * sizeofUcCfgHead < ascend610Lite.headLenMax - sizeofUcCfgHead)
    (hfound : ∀ hb : HeadBlk, hb.heads = heads →
      ∃ used, configGetItemBlkInfo ascend610Lite hb buf.length = some ⟨blk, off, used⟩)
    (hlt : off + wantLen buf.length < DEVDRV_FLASH_BLOCK_SIZE) :
    Filled sha (s.serve ascend610Lite sha (.set (nthName k) buf))
        (heads ++ [⟨nthName k, blk, off, buf.length, 0, true⟩]) (k + 1) ∧
      (s.serve ascend610Lite sha (.set (nthName k) buf)).last (nthName k) = some buf := by
  have hh := holds_of_reachIf hf.reach
  obtain ⟨vb, hvb, hmain, hw⟩ := hh.work
  have hwork : workBlock sha s.flash = vb.work := by rw [workBlock, hvb]
  have hheads : vb.work.heads = heads := hwork ▸ hf.heads
  have hm := hf.unset k (Nat.le_refl k) hk
  have hinfo := hw.getUsrCfgNameInfo_none hm
  obtain ⟨used, hroom⟩ := hfound vb.work hheads
  rw [← hheads] at hlen
  have hp := placed_addHead sha hlen hw.flag (nthName k) buf.length ⟨blk, off, used⟩
  have hset : setUserConfigDynamic ascend610Lite sha s.flash (nthName k) buf =
      configWriteItem ascend610Lite sha .main buf
        (.ok (addHead sha vb.work (nthName k) buf.length ⟨blk, off, used⟩,
          Room.newHead ⟨blk, off, used⟩ (nthName k) buf.length), s.flash) := by
    rw [setUserConfigDynamic, if_neg (by omega), configSetItemDynamic, hvb]
    simp only [hmain]
    rw [hinfo, andThen_ok, ← configSetNewHead_eq (fun a ha => (hw.layout.fits a ha).valid) hlen,
      ← hw.configAddItemHead_eq hroom]
  rcases configWriteItem_spec hw.layout (hw.room_sound hle hroom) hp hm rfl hpos hle with
    ⟨heq, -⟩ | ⟨-, fl', hrun, -, hhead⟩
  · simp only at heq
    omega
  · have hserve : s.serve ascend610Lite sha (.set (nthName k) buf) =
        ⟨fl', Function.update s.last (nthName k) (some buf)⟩ := by
      rw [Store.serve, UserCfg.serve, hset, hrun]
      rfl
    have hroomy : Roomy ascend610Lite sha s.flash (.set (nthName k) buf) := by
      intro i h hfound'
      rw [hwork, hinfo] at hfound'
      simp at hfound'
    rw [hserve]
    refine ⟨⟨hf.reach.next _ hroomy (congrArg some hserve), ?_, fun j hj hj' => ?_⟩,
      Function.update_self _ _ _⟩
    · rw [workBlock_of_head hhead hp.check, ← hheads]
      rfl
    · simp only
      rw [Function.update_of_ne (nthName_ne (by omega) hj' hk)]
      exact hf.unset j (by omega) hj'

/-- The next long item goes into the next block. -/
theorem room_after_long {k : ℕ} (hk : k < 6) (hb : HeadBlk)
    (hheads : hb.heads = (List.range k).map longHead) :
    ∃ used, configGetItemBlkInfo ascend610Lite hb longItem.length = some ⟨2 + k, 0, used⟩ := by
  have hcompact : ascend610Lite.compactSpace = true := rfl
  rw [length_longItem, configGetItemBlkInfo, if_pos hcompact, configFindFreeSpace, hheads]
  clear hheads
  interval_cases k <;> exact ⟨_, rfl⟩

theorem filled_fillStore (sha : Sha256) {k : ℕ} (hk : k ≤ 6) :
    Filled sha (fillStore sha k) ((List.range k).map longHead) k := by
  induction k with
  | zero =>
      have hcheck : ∀ c, checkValid sha (blankStore.flash.head c) = false := fun _ => rfl
      refine ⟨.start ⟨hcheck, fun _ => rfl⟩, ?_, fun _ _ _ => rfl⟩
      simp [workBlock, configGetValidBlock, hcheck, ValidBlock.work, initBlock, fillStore]
  | succ k ih =>
      have hlen : longItem.length = 32768 := length_longItem
      have hpos : 0 < longItem.length := by rw [hlen]; decide
      have hle : longItem.length ≤ UC_ITEM_DATA_MAX_LEN := by rw [hlen]; decide
      have hheads : ((List.range k).map longHead).length * sizeofUcCfgHead <
          ascend610Lite.headLenMax - sizeofUcCfgHead := by
        rw [List.length_map, List.length_range]
        have : 6 * sizeofUcCfgHead < ascend610Lite.headLenMax - sizeofUcCfgHead := by decide
        have : k * sizeofUcCfgHead ≤ 6 * sizeofUcCfgHead := Nat.mul_le_mul_right _ (by omega)
        omega
      have hend : 0 + wantLen longItem.length < DEVDRV_FLASH_BLOCK_SIZE := by rw [hlen]; decide
      have hset := Filled.set longItem (ih (by omega)) (by omega) hpos hle hheads
        (room_after_long (by omega)) hend
      rw [hlen] at hset
      rw [List.range_succ, List.map_append]
      exact hset.1

/-- Six long items and a short one. -/
def fullStore (sha : Sha256) : Store :=
  (fillStore sha 6).serve ascend610Lite sha (.set (nthName 6) [0])

def shortHead : UcCfgHead := ⟨nthName 6, 2, 32800, 1, 0, true⟩

theorem filled_fullStore (sha : Sha256) :
    Filled sha (fullStore sha) ((List.range 6).map longHead ++ [shortHead]) 7 ∧
      (fullStore sha).last (nthName 6) = some [0] := by
  have hcompact : ascend610Lite.compactSpace = true := rfl
  have hblks : ascend610Lite.contentBlks = [2, 3, 4, 5, 6, 7] := by decide
  have hwant : wantLen ([0] : List UInt8).length = 33 := by decide
  have hscan : scanItems 33 0 (((sortedItems ((List.range 6).map longHead)).drop 0).take
      (itemNumEachBlock ((List.range 6).map longHead) 2)) = .inr 32800 := by decide
  have hfound : ∀ hb : HeadBlk, hb.heads = (List.range 6).map longHead → ∃ used,
      configGetItemBlkInfo ascend610Lite hb ([0] : List UInt8).length =
        some ⟨2, 32800, used⟩ := by
    intro hb hheads
    rw [configGetItemBlkInfo, if_pos hcompact, configFindFreeSpace, hheads, hblks, hwant, gapSpace,
      if_neg (by decide), hscan]
    simp only
    rw [if_pos (by decide)]
    exact ⟨_, rfl⟩
  have hlt : 32800 + wantLen ([0] : List UInt8).length < DEVDRV_FLASH_BLOCK_SIZE := by
    rw [hwant]
    decide
  have hset := Filled.set [0] (filled_fillStore sha (Nat.le_refl 6)) (by omega) (by decide)
    (by decide) (by decide) hfound hlt
  have hone : ([0] : List UInt8).length = 1 := rfl
  rw [hone] at hset
  rw [fullStore, shortHead]
  exact hset

/-- The short item cannot become a long one. -/
theorem not_roomy_fullStore (sha : Sha256) :
    ¬ Roomy ascend610Lite sha (fullStore sha).flash (.set (nthName 6) longItem) := by
  have hheads := (filled_fullStore sha).1.heads
  generalize hhb : workBlock sha (fullStore sha).flash = hb at hheads
  have hinfo : getUsrCfgNameInfo ascend610Lite hb (nthName 6) = .ok (some (6, shortHead)) := by
    rw [getUsrCfgNameInfo, hheads]
    rfl
  intro hroom
  have hroom := hroom 6 shortHead (hhb ▸ hinfo)
  rw [hhb, length_longItem] at hroom
  rcases hroom (by decide) (by decide) with hfound | ⟨i, hi, hlt, -⟩
  · have hcompact : ascend610Lite.compactSpace = true := rfl
    have hnone : configGetItemBlkInfo ascend610Lite
        (growHeads ascend610Lite hb 6 (shortHead.resize 32768)) 32768 = none := by
      rw [configGetItemBlkInfo, if_pos hcompact, configFindFreeSpace, growHeads, HeadBlk.setHead,
        hheads]
      rfl
    rw [hnone] at hfound
    exact absurd hfound (by decide)
  · have hload : ∀ i ∈ ascend610Lite.contentBlks,
        blkLoad (((List.range 6).map longHead ++ [shortHead]).eraseIdx 6) i = 32800 := by decide
    rw [hheads, hload i hi] at hlt
    exact absurd hlt (by decide)

theorem fullStore_failedSetKeeps_false (sha : Sha256) :
    ¬ FailedSetKeeps ascend610Lite sha (fullStore sha).flash (nthName 6) longItem := fun hkeeps =>
  not_roomy_fullStore sha
    (((holds_of_reachIf (filled_fullStore sha).1.reach).failedSetKeeps_iff _ _).mp hkeeps)

/-- The item `ddr_ecc_enable`. -/
def ddrEccEnable : UserConfigItem := ⟨22, 2, [0], by decide⟩

/-- The set that fails, and a static update. -/
theorem fullStore_lost (sha : Sha256) :
    (serve ascend610Lite sha
      ((fullStore sha).serve ascend610Lite sha (.set (nthName 6) longItem)).flash
      (.updateStatic ddrEccEnable [1] true)).1 = .ok () ∧
    ¬ MapOk ascend610Lite sha
      (((fullStore sha).serve ascend610Lite sha (.set (nthName 6) longItem)).serve ascend610Lite sha
        (.updateStatic ddrEccEnable [1] true)) := by
  have hh := holds_of_reachIf (filled_fullStore sha).1.reach
  obtain ⟨e, fl, hb, v, hrun, hlost, -⟩ := lost_of_not_roomy hh (not_roomy_fullStore sha)
  obtain ⟨fl', hb', hupdate, hlost'⟩ :=
    Lost.configUpdate ddrEccEnable [1] hlost rfl true
  have hfail : (fullStore sha).serve ascend610Lite sha (.set (nthName 6) longItem) =
      ⟨fl, (fullStore sha).last⟩ := by
    rw [Store.serve, serve, hrun]
  have hdone : serve ascend610Lite sha fl (.updateStatic ddrEccEnable [1] true) = (.ok (), fl') :=
    hupdate
  rw [hfail, Store.serve, hdone]
  refine ⟨rfl, fun hok => ?_⟩
  have hget := hok.get (nthName 6) 1
  simp only [Request.note, (filled_fullStore sha).2] at hget
  rw [hlost'.getUserConfigDynamic_eq] at hget
  simp [readResult] at hget

/-! ## The results -/

/-- Whatever the digest is, a set that fails may lose an item. -/
theorem not_failedSetKeeps :
    ¬ ∃ sha : Sha256, ∀ s, (storeMachine ascend610Lite sha).Reach s →
      ∀ name buf, FailedSetKeeps ascend610Lite sha s.flash name buf := by
  rintro ⟨sha, hkeeps⟩
  exact fullStore_failedSetKeeps_false sha
    (hkeeps (fullStore sha) (filled_fullStore sha).1.reach.reach (nthName 6) longItem)

/-- Whatever the digest is, a request that succeeds may leave a store without an item
that was set. -/
theorem not_mapOk :
    ¬ ∃ sha : Sha256, ∀ s r, (storeMachine ascend610Lite sha).Reach s →
      (serve ascend610Lite sha s.flash r).1 = .ok () →
      MapOk ascend610Lite sha (s.serve ascend610Lite sha r) := by
  rintro ⟨sha, hmap⟩
  obtain ⟨hok, hlost⟩ := fullStore_lost sha
  exact hlost (hmap _ _ ((filled_fullStore sha).1.reach.reach.next _ trivial rfl) hok)

end OpiaiKernel.UserCfg
