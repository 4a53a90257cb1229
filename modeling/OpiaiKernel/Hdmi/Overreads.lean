import OpiaiKernel.Hdmi.BlockKnown

/-!
# The data blocks that are read beyond their end

A length is not compared with all that the flags in a block, or the formats that are
known, tell to read, and the length of an extended data block counts its tag code.
-/

namespace OpiaiKernel.Hdmi

variable {b : ℕ → UInt8} {data len : ℕ} {k : Known}

theorem formatsRead_le {counts : UInt8 → Prop} [DecidablePred counts] {n addr num : ℕ} :
    formatsRead counts b n addr num ≤ n := by
  induction n generalizing addr num with
  | zero => exact le_rfl
  | succ n ih =>
      rw [formatsRead]
      split
      · exact Nat.succ_le_succ (Nat.zero_le n)
      · rw [Nat.add_comm]
        exact Nat.succ_le_succ ih

theorem audioRead_le {n addr num : ℕ} : audioRead b n addr num ≤ 3 * n := by
  induction n generalizing addr num with
  | zero => exact le_rfl
  | succ n ih =>
      rw [audioRead]
      split_ifs
      · exact Nat.zero_le _
      · have := @ih (addr + 3) ((num + 1) % 2 ^ 32)
        omega
      · omega

section Vendor

/-- The latency fields leave no room for the 3D flags and, in a longer block, for the
byte after them; or one byte of the 3D structure is beyond the end. -/
def VsdbOverreads (b : ℕ → UInt8) (data len num : ℕ) : Prop :=
  let offset := flags3dOffset (b (data + 7))
  len = 9 ∧ 8 < offset ∨
    10 ≤ len ∧ len < offset + 2 ∨
    10 ≤ len ∧ vicEnd b data len num + 1 = len ∧
      reads3d (edidFlagsMaskCheck (b (data + 7)) 0x20) (b (data + offset))
        (b (data + (offset + 1))) len (vicEnd b data len num)

theorem vicEnd_le {num : ℕ} (h : flags3dOffset (b (data + 7)) + 2 ≤ len) :
    vicEnd b data len num ≤ len := by
  rw [vicEnd]
  split
  · have := @formatsRead_le b (· < 5) _ (hdmiVicLen (b (data +
      (flags3dOffset (b (data + 7)) + 2 - 1)))) (data + (flags3dOffset (b (data + 7)) + 2)) num
    omega
  · exact h

/-- The 3D structure is read only if one byte is left for it. -/
theorem lt_of_reads3d {present : Bool} {flags lens : UInt8} {offset : ℕ}
    (h : reads3d present flags lens len offset) : offset < len := by
  simp only [reads3d, Bool.and_eq_true, decide_eq_true_eq] at h
  omega

theorem lt_vsdbRead_iff {num : ℕ} (h3 : 3 ≤ len) :
    len < vsdbRead b data len num ↔ VsdbOverreads b data len num := by
  have hle := le_vicEnd b data len num
  have hvic := @vicEnd_le b data len num
  simp only [vsdbRead, VsdbOverreads]
  generalize flags3dOffset (b (data + 7)) = offset at *
  generalize vicEnd b data len num = v at *
  by_cases h3d : reads3d (edidFlagsMaskCheck (b (data + 7)) 0x20) (b (data + offset))
      (b (data + (offset + 1))) len v
  · have hlt := lt_of_reads3d h3d
    simp only [h3d, if_true, and_true]
    split_ifs <;> omega
  · simp only [h3d, Bool.false_eq_true, if_false, and_false, or_false]
    split_ifs <;> omega

theorem lt_hfvsRead_iff (h3 : 3 ≤ len) : len < hfvsRead len ↔ 8 ≤ len ∧ len ≤ 12 := by
  rw [hfvsRead]
  split_ifs <;> omega

end Vendor

theorem lt_capMapRead_iff {num : ℕ} (hlen : 0 < len) :
    len < capMapRead len num ↔ 2 ≤ len ∧ 8 * (len - 1) < min num HDMI_EDID_MAX_VIC_COUNT := by
  simp only [capMapRead]
  split_ifs <;> omega

theorem lt_vendorRead_iff {num : ℕ} : len < vendorRead b data len num ↔
    3 ≤ len ∧ IsIeee b data 0x03 0x0c 0x00 ∧ VsdbOverreads b data len num ∨
      IsIeee b data 0xd8 0x5d 0xc4 ∧ 8 ≤ len ∧ len ≤ 12 := by
  rw [vendorRead]
  by_cases h3 : len < 3
  · rw [if_pos h3]
    omega
  have hle : 3 ≤ len := not_lt.mp h3
  rw [if_neg h3]
  by_cases hV : IsIeee b data 0x03 0x0c 0x00
  · have hH : ¬ IsIeee b data 0xd8 0x5d 0xc4 := by
      intro hH
      exact absurd (hV.1.symm.trans hH.1) (by decide)
    rw [if_pos hV, lt_vsdbRead_iff hle]
    simp only [hle, hV, hH, true_and, false_and, or_false]
  · rw [if_neg hV]
    split
    · next hH =>
      rw [lt_hfvsRead_iff hle]
      simp only [hV, hH, true_and, false_and, and_false, false_or]
    · next hH =>
      simp only [hV, hH, false_and, and_false, or_false, iff_false]
      exact h3

/-- The data blocks that are read beyond their end. -/
def Overreads (b : ℕ → UInt8) (k : Known) (dbTag data len : ℕ) : Prop :=
  dbTag = 3 ∧ 3 ≤ len ∧ IsIeee b data 0x03 0x0c 0x00 ∧ VsdbOverreads b data len k.formats ∨
    dbTag = 3 ∧ IsIeee b data 0xd8 0x5d 0xc4 ∧ 8 ≤ len ∧ len ≤ 12 ∨
    dbTag = 7 ∧ len = 0 ∨
    dbTag = 7 ∧ b data = 0x00 ∧ len = 1 ∨
    dbTag = 7 ∧ b data = 0x0f ∧ 2 ≤ len ∧
      8 * (len - 1) < min k.formats HDMI_EDID_MAX_VIC_COUNT

theorem extRead_pos : 0 < extRead b k data len := by
  simp only [extRead, capMapRead]
  split_ifs <;> omega

theorem lt_extRead_iff : len < extRead b k data len ↔
    len = 0 ∨ b data = 0x00 ∧ len = 1 ∨
      b data = 0x0f ∧ 2 ≤ len ∧ 8 * (len - 1) < min k.formats HDMI_EDID_MAX_VIC_COUNT := by
  rcases Nat.eq_zero_or_pos len with rfl | hlen
  · exact iff_of_true extRead_pos (.inl rfl)
  rw [or_iff_right hlen.ne', extRead]
  by_cases h5 : b data = 0x05
  · rw [if_pos h5, h5]
    refine iff_of_false (by split <;> omega) ?_
    rintro (⟨h, -⟩ | ⟨h, -⟩) <;> exact absurd h (by decide)
  rw [if_neg h5]
  by_cases he : b data = 0x0e
  · have hformats := @formatsRead_le b (fun vic => ¬ y420VicInvalid vic) _ (len - 1) (data + 1)
      k.only420
    rw [if_pos he, he]
    refine iff_of_false (by omega) ?_
    rintro (⟨h, -⟩ | ⟨h, -⟩) <;> exact absurd h (by decide)
  rw [if_neg he]
  by_cases hf : b data = 0x0f
  · have hne : ¬ (0x0f : UInt8) = 0x00 := by decide
    rw [if_pos hf, lt_capMapRead_iff hlen, hf]
    simp only [hne, true_and, false_and, false_or]
  rw [if_neg hf]
  by_cases h0 : b data = 0x00
  · have hne : ¬ (0x00 : UInt8) = 0x0f := by decide
    rw [if_pos h0, h0]
    simp only [hne, true_and, false_and, or_false]
    split <;> omega
  · simp only [h0, hf, if_false, false_and, or_false, iff_false]
    omega

theorem lt_bytesRead_iff (dbTag : ℕ) :
    len < bytesRead b k dbTag data len ↔ Overreads b k dbTag data len := by
  rw [bytesRead, Overreads]
  by_cases h3 : dbTag = 3
  · rw [if_neg (by omega), if_neg (by omega), if_pos h3, lt_vendorRead_iff, h3]
    have hne : ¬ 3 = 7 := by decide
    simp only [hne, true_and, false_and, or_false]
  by_cases h7 : dbTag = 7
  · rw [if_neg (by omega), if_neg (by omega), if_neg h3, if_neg (by omega), if_pos h7,
      lt_extRead_iff, h7]
    have hne : ¬ 7 = 3 := by decide
    simp only [hne, true_and, false_and, false_or]
  simp only [h3, h7, if_false, false_and, or_false, iff_false, not_lt]
  split_ifs
  · exact audioRead_le.trans (Nat.mul_div_le len 3)
  · exact formatsRead_le
  · rw [speakerRead]
    split <;> omega
  · exact Nat.zero_le _

/-- What a data block tells to read is there if and only if it is not read beyond its
end, and its extension block ends after that. -/
theorem fits_bytesRead_iff (dbTag : ℕ) : Fits data len (bytesRead b k dbTag data len) ↔
    ¬ Overreads b k dbTag data len ∧
      data + bytesRead b k dbTag data len ≤ HDMI_EDID_BLOCK_SIZE := by
  rw [← lt_bytesRead_iff, not_lt]
  rfl

end OpiaiKernel.Hdmi
