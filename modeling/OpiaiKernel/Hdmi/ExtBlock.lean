import OpiaiKernel.Hdmi.DataBlocks

/-!
# The walk over an EDID extension block

The data blocks follow one another from offset 4 up to the offset of the detailed
timings, which the block gives.  The offset is counted in eight bits while the
pointer moves on its own, so the walk is defined with a bound on its steps.
-/

namespace OpiaiKernel.Hdmi

open EdidParser

def EDID_DTD_SIZE : ℕ := 18
def EDID_EXT_BLOCK_OFFSET : ℕ := 4

section DetailTiming

def edidDigitalSyncSignalDef (flags : UInt8) (t : HdmiEdidPreTiming) : HdmiEdidPreTiming :=
  match ((flags &&& 0x0e) >>> 1).toNat with
  | 0 | 1 | 4 => { t with ihs := false, ivs := false }
  | 5 => { t with ihs := true, ivs := false }
  | 6 => { t with ihs := false, ivs := true }
  | 7 => { t with ihs := true, ivs := true }
  | _ => t

/-- The bits of `high` that `mask` selects, shifted left, above those of `low`. -/
def joined (high mask : UInt8) (shift : UInt32) (low : UInt8) : UInt32 :=
  ((high &&& mask).toUInt32 <<< shift) ||| low.toUInt32

/-- The timing of a descriptor whose byte `i` is `d i`. -/
def edidTimingParam (d : ℕ → UInt8) (t : HdmiEdidPreTiming) : HdmiEdidPreTiming :=
  let vfb := joined (d 11) 0x0c 2 ((d 10 &&& 0xf0) >>> 4)
  let hfb := joined (d 11) 0xc0 2 (d 8)
  let t := { t with
    vfb := vfb
    vbb := joined (d 7) 0x0f 8 (d 6) - vfb
    vact := joined (d 7) 0xf0 4 (d 5)
    hfb := hfb
    hbb := joined (d 4) 0x0f 8 (d 3) - hfb
    hact := joined (d 4) 0xf0 4 (d 2)
    vpw := joined (d 11) 0x03 4 (d 10 &&& 0x0f)
    hpw := joined (d 11) 0x30 4 (d 9)
    imageWidth := joined (d 14) 0xf0 4 (d 12)
    imageHeight := joined (d 14) 0x0f 8 (d 13)
    interlace := edidFlagsMaskCheck (d 17) 0x80 }
  let t := if edidFlagsMaskCheck (d 17) 0x10 then edidDigitalSyncSignalDef (d 17) t else t
  { t with idv := false }

/-- `n` more bytes of the product name, from the `i`th on. -/
def copySinkName (b : ℕ → UInt8) (data len : ℕ) : ℕ → ℕ → EdidParser Unit
  | 0, _ => pure ()
  | n + 1, i => do
    let byte ← fetch b data len (5 + i)
    store .sinkName i fun c => { c with sinkName := Function.update c.sinkName i byte }
    copySinkName b data len n (i + 1)

def readBytes (b : ℕ → UInt8) (data len : ℕ) : List ℕ → EdidParser Unit
  | [] => pure ()
  | i :: rest => do
    let _ ← fetch b data len i
    readBytes b data len rest

def setTiming (num : ℕ) (f : HdmiEdidPreTiming → HdmiEdidPreTiming) (c : HdmiSinkCapability) :
    HdmiSinkCapability :=
  { c with perferTiming := Function.update c.perferTiming num (f (c.perferTiming num)) }

def edidDetailTiming (b : ℕ → UInt8) (data len : ℕ) : EdidParser Ret := do
  let cap ← getCap
  if HDMI_EDID_MAX_DETAIL_TIMING_COUNT ≤ cap.perferTimingNum ∨ len < EDID_DTD_SIZE then do
    warn .dtdOver
    pure .success
  else do
    readBytes b data len [0, 1, 2]
    if b data = 0 ∧ b (data + 1) = 0 ∧ b (data + 2) = 0 then do
      let tag ← fetch b data len 3
      Logged.when (tag = 0xfc) do
        copySinkName b data len (HDMI_EDID_MAX_SINKNAME_COUNT - 1) 0
        store .sinkName (HDMI_EDID_MAX_SINKNAME_COUNT - 1) fun c => { c with
          sinkName := Function.update c.sinkName (HDMI_EDID_MAX_SINKNAME_COUNT - 1) 0 }
      pure .success
    else do
      readBytes b data len [1, 0]
      let clk := joined (b (data + 1)) 0xff 8 (b data) * 10
      store .perferTiming cap.perferTimingNum
        (setTiming cap.perferTimingNum fun t => { t with pixelClk := clk })
      if 0 < clk then do
        setCap fun c => { c with perferTimingNum := c.perferTimingNum + 1 }
        readBytes b data len [11, 10, 7, 6, 5, 8, 4, 3, 2, 9, 14, 12, 13, 17]
        store .perferTiming cap.perferTimingNum
          (setTiming cap.perferTimingNum (edidTimingParam fun i => b (data + i)))
        pure .success
      else pure .success

end DetailTiming

/-- The loop over the detailed timings; `blkOffset` does not overflow. -/
def dtDs (b : ℕ → UInt8) (blkOffset tmp : ℕ) : EdidParser Unit :=
  if _h : EDID_DTD_SIZE + blkOffset ≤ HDMI_EDID_BLOCK_SIZE - 1 then do
    let ret ← edidDetailTiming b tmp EDID_DTD_SIZE
    if ret = .failure then pure ()
    else dtDs b (blkOffset + EDID_DTD_SIZE) (tmp + EDID_DTD_SIZE)
  else pure ()
termination_by HDMI_EDID_BLOCK_SIZE - 1 - blkOffset
decreasing_by simp only [EDID_DTD_SIZE, HDMI_EDID_BLOCK_SIZE] at *; omega

/-- The length and the tag code of a data block, from its first byte. -/
def dbLen (byte : UInt8) : ℕ := (byte &&& 0x1f).toNat
def dbTagCode (byte : UInt8) : ℕ := ((byte &&& 0xe0) >>> 5).toNat

/-- How the loop over the data blocks ends: a parser fails, or at an offset and a
pointer. -/
inductive LoopEnd
  | returned
  | done (blkOffset tmp : ℕ)

/-- The loop over the data blocks, for at most the given number of them. -/
def severalBlocks (b : ℕ → UInt8) (dtdOffset : ℕ) : ℕ → ℕ → ℕ → ℕ → EdidParser (Option LoopEnd)
  | 0, _, _, _ => pure none
  | fuel + 1, blkOffset, tmp, blkLen =>
    if blkOffset < dtdOffset then do
      let byte ← fetch b 0 HDMI_EDID_BLOCK_SIZE (tmp + blkLen)
      let ret ← edidDbParse b (dbTagCode byte) (tmp + blkLen + 1) (dbLen byte)
      if ret = .failure then pure (some .returned)
      else
        severalBlocks b dtdOffset fuel ((blkOffset + dbLen byte + 1) % 2 ^ 8)
          (tmp + blkLen + 1) (dbLen byte)
    else pure (some (.done blkOffset (tmp + blkLen)))

/-- For at most `fuel` data blocks; the result is whether the walk has ended. -/
def edidExtSeveralBlockParse (b : ℕ → UInt8) (fuel : ℕ) : EdidParser Bool := do
  let dtdOffset ← fetch b 0 HDMI_EDID_BLOCK_SIZE 2
  let r ← severalBlocks b dtdOffset.toNat fuel EDID_EXT_BLOCK_OFFSET EDID_EXT_BLOCK_OFFSET 0
  match r with
  | none => pure false
  | some .returned => pure true
  | some (.done blkOffset tmp) => do
    dtDs b blkOffset tmp
    pure true

/-- `edid_block_check_sum`; a block whose byte 32 is zero is accepted in any case. -/
def edidBlockCheckSum (b : ℕ → UInt8) : Bool :=
  ((List.range HDMI_EDID_BLOCK_SIZE).map fun i => (b i).toNat).sum % 256 = 0 || b 32 = 0

/-- The walk ends; what it and the parsers read lies inside the block and, for a
parser, in its own bytes; and each array is written below its size. -/
def StaysInside (b : ℕ → UInt8) (s : Sink) : Prop :=
  ∃ fuel, (edidExtSeveralBlockParse b fuel).value s = true ∧
    Logged.Every Access.Inside (edidExtSeveralBlockParse b fuel) s

end OpiaiKernel.Hdmi
