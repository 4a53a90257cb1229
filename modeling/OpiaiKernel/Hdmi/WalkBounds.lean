import OpiaiKernel.Hdmi.ExtBlock
import OpiaiKernel.Hdmi.Overreads

/-!
# The bounds of the walk

While the walk stays inside the block, its eight-bit offset and its pointer agree.
It stays inside if and only if each data block that it reaches starts inside the
block, and what its parser reads ends inside the block and is its own.
-/

namespace OpiaiKernel.Hdmi

open EdidParser Logged

variable {b : ℕ → UInt8} {s : Sink} {k : Known}

section DetailTiming

variable {data len : ℕ}

theorem every_readBytes {offsets : List ℕ} (h : ∀ i ∈ offsets, Fits data len (i + 1)) :
    Every Access.Inside (readBytes b data len offsets) s := by
  induction offsets with
  | nil => exact every_pure _
  | cons i rest ih =>
      rw [List.forall_mem_cons] at h
      rw [readBytes, every_fetch]
      exact ⟨h.1, ih h.2⟩

theorem every_copySinkName {n i : ℕ} (hdata : data + EDID_DTD_SIZE ≤ HDMI_EDID_BLOCK_SIZE)
    (h : i + n < HDMI_EDID_MAX_SINKNAME_COUNT) :
    Every Access.Inside (copySinkName b data EDID_DTD_SIZE n i) s := by
  induction n generalizing i s with
  | zero => exact every_pure _
  | succ n ih =>
      simp only [EDID_DTD_SIZE, HDMI_EDID_MAX_SINKNAME_COUNT] at hdata h
      rw [copySinkName, every_fetch, every_store_bind]
      refine ⟨⟨?_, ?_⟩, ?_, ih ?_⟩
      · simp only [EDID_DTD_SIZE]
        omega
      · omega
      · simp only [CapArray.size, HDMI_EDID_MAX_SINKNAME_COUNT]
        omega
      · simp only [HDMI_EDID_MAX_SINKNAME_COUNT]
        omega

theorem every_edidDetailTiming (hdata : data + EDID_DTD_SIZE ≤ HDMI_EDID_BLOCK_SIZE) :
    Every Access.Inside (edidDetailTiming b data EDID_DTD_SIZE) s := by
  have hfits (i : ℕ) (hi : i < EDID_DTD_SIZE) : Fits data EDID_DTD_SIZE (i + 1) :=
    ⟨hi, (Nat.add_le_add_left hi _).trans hdata⟩
  have hbytes (offsets : List ℕ) (h : ∀ i ∈ offsets, i < EDID_DTD_SIZE) (t : Sink) :
      Every Access.Inside (readBytes b data EDID_DTD_SIZE offsets) t :=
    every_readBytes fun i hi => hfits i (h i hi)
  rw [edidDetailTiming, every_getCap]
  split
  · rw [every_warn_bind]
    exact every_pure _
  next hroom =>
  have hnum : s.cap.perferTimingNum < CapArray.perferTiming.size :=
    not_le.mp fun h => hroom (.inl h)
  rw [every_bind, and_iff_right (hbytes _ (by decide) _)]
  split
  · rw [every_fetch, every_when_bind, and_iff_left (every_pure _), every_bind,
      and_iff_right (every_copySinkName hdata (by decide)), every_store]
    exact ⟨hfits 3 (by decide), fun _ => by decide⟩
  · rw [every_bind, and_iff_right (hbytes _ (by decide) _), every_store_bind, and_iff_right hnum]
    split
    · rw [every_setCap, every_bind, and_iff_right (hbytes _ (by decide) _), every_store_bind]
      exact ⟨hnum, every_pure _⟩
    · exact every_pure _

theorem every_dtDs {blkOffset tmp : ℕ} (htmp : tmp = blkOffset) :
    Every Access.Inside (dtDs b blkOffset tmp) s := by
  induction blkOffset, tmp using dtDs.induct generalizing s with
  | case1 blkOffset tmp hroom ih =>
      rw [dtDs, dif_pos hroom, every_bind]
      constructor
      · apply every_edidDetailTiming
        simp only [EDID_DTD_SIZE, HDMI_EDID_BLOCK_SIZE] at hroom ⊢
        omega
      · split
        · exact every_pure _
        · exact ih (congrArg (· + EDID_DTD_SIZE) htmp)
  | case2 blkOffset tmp hroom =>
      rw [dtDs, dif_neg hroom]
      exact every_pure _

end DetailTiming

/-- From offset `o` on, every data block before the detailed timings starts inside the
block, and what its parser reads ends there and is its own; `k` is known before. -/
inductive BlocksFit (b : ℕ → UInt8) : ℕ → Known → Prop
  | stop {o : ℕ} {k : Known} (h : (b 2).toNat ≤ o) : BlocksFit b o k
  | block {o : ℕ} {k : Known} (h : o < (b 2).toNat) (hin : o < HDMI_EDID_BLOCK_SIZE)
      (hown : ¬ Overreads b k (dbTagCode (b o)) (o + 1) (dbLen (b o)))
      (hend : o + 1 + bytesRead b k (dbTagCode (b o)) (o + 1) (dbLen (b o)) ≤ HDMI_EDID_BLOCK_SIZE)
      (hrest : BlocksFit b (o + 1 + dbLen (b o))
        (knownAfter b k (dbTagCode (b o)) (o + 1) (dbLen (b o)))) : BlocksFit b o k

theorem dbLen_le (byte : UInt8) : dbLen byte ≤ 31 := by
  rw [dbLen, UInt8.toNat_and]
  exact Nat.and_le_right

section Walk

variable {o tmp blkLen fuel : ℕ}

/-- A data block of which all reads are inside, and the walk after it, whose offset
does not overflow. -/
theorem every_severalBlocks_step (fuel : ℕ) (s : Sink) (ho : o < (b 2).toNat) (hpos : tmp + blkLen = o)
    (hin : o < HDMI_EDID_BLOCK_SIZE) :
    (Every Access.Inside (severalBlocks b (b 2).toNat (fuel + 1) o tmp blkLen) s ↔
      (¬ Overreads b s.cap.known (dbTagCode (b o)) (o + 1) (dbLen (b o)) ∧
        o + 1 + bytesRead b s.cap.known (dbTagCode (b o)) (o + 1) (dbLen (b o)) ≤
          HDMI_EDID_BLOCK_SIZE) ∧
      Every Access.Inside
        (severalBlocks b (b 2).toNat fuel (o + 1 + dbLen (b o)) (o + 1) (dbLen (b o)))
        ((edidDbParse b (dbTagCode (b o)) (o + 1) (dbLen (b o))).after s)) ∧
    (severalBlocks b (b 2).toNat (fuel + 1) o tmp blkLen).value s =
      (severalBlocks b (b 2).toNat fuel (o + 1 + dbLen (b o)) (o + 1) (dbLen (b o))).value
        ((edidDbParse b (dbTagCode (b o)) (o + 1) (dbLen (b o))).after s) := by
  have hlen := dbLen_le (b o)
  have hwrap : (o + dbLen (b o) + 1) % 2 ^ 8 = o + 1 + dbLen (b o) := by
    simp only [HDMI_EDID_BLOCK_SIZE] at hin
    omega
  have hfetch : Fits 0 HDMI_EDID_BLOCK_SIZE (o + 1) := ⟨hin, by omega⟩
  rw [severalBlocks, if_pos ho, hpos, every_fetch, value_fetch, Nat.zero_add o, every_bind,
    and_iff_right hfetch, value_bind, value_edidDbParse _ hlen,
    every_edidDbParse _ (Nat.succ_le_of_lt hin) hlen, fits_bytesRead_iff, if_neg (by decide), hwrap]
  exact ⟨Iff.rfl, rfl⟩

theorem known_step (o : ℕ) (s : Sink) :
    ((edidDbParse b (dbTagCode (b o)) (o + 1) (dbLen (b o))).after s).cap.known =
      knownAfter b s.cap.known (dbTagCode (b o)) (o + 1) (dbLen (b o)) :=
  known_after_edidDbParse _ (dbLen_le _)

theorem blocksFit_of_every (hpos : tmp + blkLen = o)
    (hend : (severalBlocks b (b 2).toNat fuel o tmp blkLen).value s ≠ none)
    (h : Every Access.Inside (severalBlocks b (b 2).toNat fuel o tmp blkLen) s) :
    BlocksFit b o s.cap.known := by
  induction fuel generalizing o tmp blkLen s with
  | zero => exact absurd rfl hend
  | succ fuel ih =>
      by_cases ho : o < (b 2).toNat
      · have hin : o < HDMI_EDID_BLOCK_SIZE := by
          rw [severalBlocks, if_pos ho, hpos, every_fetch] at h
          exact h.1.1
        obtain ⟨hevery, hvalue⟩ := every_severalBlocks_step fuel s ho hpos hin
        rw [hvalue] at hend
        obtain ⟨⟨hown, hlast⟩, hrest⟩ := hevery.mp h
        apply BlocksFit.block ho hin hown hlast
        rw [← known_step]
        exact ih rfl hend hrest
      · exact .stop (not_lt.mp ho)

theorem every_of_blocksFit (h : BlocksFit b o k) (hpos : tmp + blkLen = o) (hk : s.cap.known = k) :
    ∃ fuel o', (severalBlocks b (b 2).toNat fuel o tmp blkLen).value s = some (.done o' o') ∧
      Every Access.Inside (severalBlocks b (b 2).toNat fuel o tmp blkLen) s := by
  induction h generalizing tmp blkLen s with
  | @stop o k ho =>
      refine ⟨1, o, ?_⟩
      rw [severalBlocks, if_neg (not_lt.mpr ho), hpos]
      exact ⟨rfl, every_pure _⟩
  | @block o k ho hin hown hlast _ ih =>
      subst hk
      obtain ⟨fuel, o', hdone, hrest⟩ := ih rfl (known_step o s)
      obtain ⟨hevery, hvalue⟩ := every_severalBlocks_step fuel s ho hpos hin
      exact ⟨fuel + 1, o', hvalue.trans hdone, hevery.mpr ⟨⟨hown, hlast⟩, hrest⟩⟩

end Walk

theorem blocksFit_of_staysInside (h : StaysInside b s) :
    BlocksFit b EDID_EXT_BLOCK_OFFSET s.cap.known := by
  obtain ⟨fuel, hend, hevery⟩ := h
  rw [edidExtSeveralBlockParse, value_fetch, value_bind, Nat.zero_add] at hend
  rw [edidExtSeveralBlockParse, every_fetch, every_bind] at hevery
  refine blocksFit_of_every rfl ?_ hevery.2.1
  intro hnone
  rw [hnone] at hend
  cases hend

theorem staysInside_of_blocksFit (h : BlocksFit b EDID_EXT_BLOCK_OFFSET s.cap.known) :
    StaysInside b s := by
  obtain ⟨fuel, o, hdone, hevery⟩ :=
    every_of_blocksFit h (Nat.add_zero EDID_EXT_BLOCK_OFFSET) rfl
  refine ⟨fuel, ?_, ?_⟩
  · rw [edidExtSeveralBlockParse, value_fetch, Nat.zero_add, value_bind, hdone]
    rfl
  · rw [edidExtSeveralBlockParse, every_fetch, Nat.zero_add, every_bind, hdone]
    refine ⟨⟨by decide, by decide⟩, hevery, ?_⟩
    rw [every_bind]
    exact ⟨every_dtDs rfl, every_pure _⟩

/-- The walk ends and stays inside the block if and only if the data blocks fit. -/
theorem staysInside_iff_blocksFit :
    StaysInside b s ↔ BlocksFit b EDID_EXT_BLOCK_OFFSET s.cap.known :=
  ⟨blocksFit_of_staysInside, staysInside_of_blocksFit⟩

/-- Four blocks of a reserved tag up to offset 126, and a video block of 31 formats
there, of which the first is the checksum. -/
def spillingBlock (i : ℕ) : UInt8 :=
  match i with
  | 0 => 0x02
  | 1 => 0x03
  | 2 => 127
  | 4 | 36 | 68 => 0x1f
  | 100 => 0x19
  | 126 => 0x5f
  | 127 => 167
  | _ => 0

/-- Such a block is accepted, and the formats after it are read. -/
theorem spillingBlock_not_staysInside :
    edidBlockCheckSum spillingBlock = true ∧ ¬ StaysInside spillingBlock {} := by
  refine ⟨by decide +kernel, fun h => ?_⟩
  have hskip {o : ℕ} {k : Known} (h : BlocksFit spillingBlock o k) (ho : o < 127)
      (htag : dbTagCode (spillingBlock o) = 0) :
      BlocksFit spillingBlock (o + 1 + dbLen (spillingBlock o)) k := by
    cases h with
    | stop h => exact absurd (show 127 ≤ o from h) (not_le.mpr ho)
    | block _ _ _ _ hrest =>
        rw [htag] at hrest
        exact hrest
  have h126 := hskip (hskip (hskip (hskip (blocksFit_of_staysInside h) (by decide) rfl) (by decide)
    rfl) (by decide) rfl) (by decide) rfl
  cases h126 with
  | stop h => exact absurd h (by decide)
  | block _ _ _ hend _ => exact absurd hend (by decide)

end OpiaiKernel.Hdmi
