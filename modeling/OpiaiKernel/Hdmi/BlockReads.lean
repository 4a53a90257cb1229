import Mathlib.Tactic.Common
import OpiaiKernel.Hdmi.DataBlocks

/-!
# What the parser of a data block reads

The parsers read a block from its first byte on, so what one reads is given by a
number of bytes: by the tag, the length, the flags in the block and how much is
known of the sink already.
-/

namespace OpiaiKernel.Hdmi

open EdidParser Logged

/-- The first `k` bytes at `data` are among the `len` own ones and in the block. -/
def Fits (data len k : ℕ) : Prop := k ≤ len ∧ data + k ≤ HDMI_EDID_BLOCK_SIZE

/-- How many audio descriptors and formats of the sink are known. -/
structure Known where
  audio : ℕ
  formats : ℕ
  only420 : ℕ

def HdmiSinkCapability.known (c : HdmiSinkCapability) : Known :=
  ⟨c.audioInfoNum, c.supportVicNum, c.onlySupportY420VicNum⟩

section Counts

/-- How many of `n` bytes, from `addr` on, are read until `num` formats and those
among the bytes have filled the array. -/
def formatsRead (counts : UInt8 → Prop) [DecidablePred counts] (b : ℕ → UInt8) :
    ℕ → ℕ → ℕ → ℕ
  | 0, _, _ => 0
  | n + 1, addr, num =>
    if HDMI_EDID_MAX_VIC_COUNT ≤ num then 1
    else 1 + formatsRead counts b n (addr + 1) (if counts (b addr) then num + 1 else num)

/-- How many formats are known after them. -/
def formatsNum (counts : UInt8 → Prop) [DecidablePred counts] (b : ℕ → UInt8) :
    ℕ → ℕ → ℕ → ℕ
  | 0, _, num => num
  | n + 1, addr, num =>
    if HDMI_EDID_MAX_VIC_COUNT ≤ num then num
    else formatsNum counts b n (addr + 1) (if counts (b addr) then num + 1 else num)

/-- The same for `n` short audio descriptors; the one with an invalid format is the
last. -/
def audioRead (b : ℕ → UInt8) : ℕ → ℕ → ℕ → ℕ
  | 0, _, _ => 0
  | n + 1, addr, num =>
    if HDMI_EDID_MAX_AUDIO_CAP_COUNT ≤ num % 2 ^ 8 then 0
    else if audioFmtValid (frmCodeOf (b addr)) then
      3 + audioRead b n (addr + 3) ((num + 1) % 2 ^ 32)
    else 1

def audioNum (b : ℕ → UInt8) : ℕ → ℕ → ℕ → ℕ
  | 0, _, num => num
  | n + 1, addr, num =>
    if HDMI_EDID_MAX_AUDIO_CAP_COUNT ≤ num % 2 ^ 8 then num
    else if audioFmtValid (frmCodeOf (b addr)) then audioNum b n (addr + 3) ((num + 1) % 2 ^ 32)
    else num

/-- Where the 3D flags are: after the latency fields that byte 7 announces. -/
def flags3dOffset (byte7 : UInt8) : ℕ :=
  8 + (if edidFlagsMaskCheck byte7 0x80 then 2 else 0) +
    if edidFlagsMaskCheck byte7 0x40 then 2 else 0

/-- The end of the formats that the bytes after the 3D flags announce. -/
def vicEnd (b : ℕ → UInt8) (data len num : ℕ) : ℕ :=
  let offset := flags3dOffset (b (data + 7)) + 2
  let n := hdmiVicLen (b (data + (offset - 1)))
  if n + offset ≤ len then offset + formatsRead (· < 5) b n (data + offset) num else offset

def vsdbRead (b : ℕ → UInt8) (data len num : ℕ) : ℕ :=
  let offset := flags3dOffset (b (data + 7))
  if len < 5 then 3
  else if len < 9 then len
  else if len < 10 then offset + 1
  else if reads3d (edidFlagsMaskCheck (b (data + 7)) 0x20) (b (data + offset))
      (b (data + (offset + 1))) len (vicEnd b data len num) then vicEnd b data len num + 2
  else vicEnd b data len num

def hfvsRead (len : ℕ) : ℕ := if len < 7 then 3 else if len = 7 then 7 else 13

/-- The first three bytes are the given ones. -/
def IsIeee (b : ℕ → UInt8) (data : ℕ) (c0 c1 c2 : UInt8) : Prop :=
  b data = c0 ∧ b (data + 1) = c1 ∧ b (data + 2) = c2

instance (b : ℕ → UInt8) (data : ℕ) (c0 c1 c2 : UInt8) : Decidable (IsIeee b data c0 c1 c2) :=
  inferInstanceAs (Decidable (_ ∧ _))

def vendorRead (b : ℕ → UInt8) (data len num : ℕ) : ℕ :=
  if len < 3 then 0
  else if IsIeee b data 0x03 0x0c 0x00 then vsdbRead b data len num
  else if IsIeee b data 0xd8 0x5d 0xc4 then hfvsRead len
  else 3

def speakerRead (len : ℕ) : ℕ := if len < 2 then 0 else 2

/-- For `num` formats of which the bits are read. -/
def capMapRead (len num : ℕ) : ℕ :=
  let n := min (len * 8) (min num HDMI_EDID_MAX_VIC_COUNT)
  if len = 1 ∨ n = 0 then 1 else 2 + (n - 1) / 8

def extRead (b : ℕ → UInt8) (k : Known) (data len : ℕ) : ℕ :=
  if b data = 0x05 then if len < 3 then 1 else 3
  else if b data = 0x0e then
    1 + formatsRead (fun vic => ¬ y420VicInvalid vic) b (len - 1) (data + 1) k.only420
  else if b data = 0x0f then capMapRead len k.formats
  else if b data = 0x00 then if len = 0 then 1 else 2
  else 1

/-- The number of bytes that the parser of a data block reads of it. -/
def bytesRead (b : ℕ → UInt8) (k : Known) (dbTag data len : ℕ) : ℕ :=
  if dbTag = 1 then audioRead b (len / 3) data k.audio
  else if dbTag = 2 then formatsRead (· ≠ 0) b len data k.formats
  else if dbTag = 3 then vendorRead b data len k.formats
  else if dbTag = 4 then speakerRead len
  else if dbTag = 7 then extRead b k data len
  else 0

/-- The formats that a vendor block adds to. -/
def vendorNum (b : ℕ → UInt8) (data len num : ℕ) : ℕ :=
  let offset := flags3dOffset (b (data + 7)) + 2
  let n := hdmiVicLen (b (data + (offset - 1)))
  if 10 ≤ len ∧ IsIeee b data 0x03 0x0c 0x00 ∧ n + offset ≤ len then
    formatsNum (· < 5) b n (data + offset) num
  else num

/-- What is known after a data block. -/
def knownAfter (b : ℕ → UInt8) (k : Known) (dbTag data len : ℕ) : Known :=
  if dbTag = 1 then { k with audio := audioNum b (len / 3) data k.audio }
  else if dbTag = 2 then { k with formats := formatsNum (· ≠ 0) b len data k.formats }
  else if dbTag = 3 then { k with formats := vendorNum b data len k.formats }
  else if dbTag = 7 ∧ b data = 0x0e then { k with
    only420 := formatsNum (fun vic => ¬ y420VicInvalid vic) b (len - 1) (data + 1) k.only420 }
  else k

end Counts

section Steps

variable {b : ℕ → UInt8} {data len i : ℕ} {s : Sink} {array : CapArray} {α : Type}
  {f : HdmiSinkCapability → HdmiSinkCapability}

theorem inside_read : (Access.read data len (data + i)).Inside ↔ Fits data len (i + 1) := by
  change data ≤ data + i ∧ data + i < data + len ∧ data + i < HDMI_EDID_BLOCK_SIZE ↔
    i + 1 ≤ len ∧ data + (i + 1) ≤ HDMI_EDID_BLOCK_SIZE
  omega

theorem every_fetch (k : UInt8 → EdidParser α) :
    Every Access.Inside (fetch b data len i >>= k) s ↔
      Fits data len (i + 1) ∧ Every Access.Inside (k (b (data + i))) s := by
  rw [every_bind, fetch, every_log, inside_read]
  rfl

/-- A field of the capability is no array. -/
theorem inside_setCap : Every Access.Inside (setCap f) s := every_modify _

theorem every_setCap (k : Unit → EdidParser α) :
    Every Access.Inside (setCap f >>= k) s ↔ Every Access.Inside (k ()) (s.mapCap f) := by
  rw [every_bind]
  exact and_iff_right inside_setCap

theorem every_store : Every Access.Inside (store array i f) s ↔ i < array.size := by
  rw [store, every_bind, every_log]
  exact and_iff_left inside_setCap

theorem every_store_bind (k : Unit → EdidParser α) :
    Every Access.Inside (store array i f >>= k) s ↔
      i < array.size ∧ Every Access.Inside (k ()) (s.mapCap f) := by
  rw [every_bind, every_store]
  rfl

theorem every_warn (w : HdmiEdidParseWarn) : Every Access.Inside (warn w) s := every_modify _

/-- A warning leaves the capability as it is. -/
theorem every_warn_bind (w : HdmiEdidParseWarn) (k : Unit → EdidParser α) :
    Every Access.Inside (warn w >>= k) s ↔ Every Access.Inside (k ()) ((warn w).after s) := by
  rw [every_bind]
  exact and_iff_right (every_modify _)

theorem every_getCap (k : HdmiSinkCapability → EdidParser α) :
    Every Access.Inside (getCap >>= k) s ↔ Every Access.Inside (k s.cap) s := by
  rw [every_bind]
  exact and_iff_right (fun _ he => by cases he)

theorem every_when_bind (c : Prop) [Decidable c] (q : EdidParser Unit) (k : Unit → EdidParser α) :
    Every Access.Inside (Logged.when c q >>= k) s ↔
      (c → Every Access.Inside q s) ∧
        Every Access.Inside (k ()) (if c then q.after s else s) := by
  rw [every_bind, every_when, after_when]

theorem every_when_setCap (c : Prop) [Decidable c] (k : Unit → EdidParser α) :
    Every Access.Inside (Logged.when c (setCap f) >>= k) s ↔
      Every Access.Inside (k ()) (if c then s.mapCap f else s) := by
  rw [every_when_bind, and_iff_right fun _ => inside_setCap]
  rfl

section Keeps

variable {β : Type} {g : HdmiSinkCapability → β}

/-- What the parser changes of the capability is no part of the value of `g`. -/
def KeepsCap (g : HdmiSinkCapability → β) (p : EdidParser α) : Prop := Keeps (fun s => g s.cap) p

theorem keeps_fetch : KeepsCap g (fetch b data len i) := keeps_log _ _

theorem keeps_setCap (h : ∀ c, g (f c) = g c) : KeepsCap g (setCap f) :=
  keeps_modify fun s => h s.cap

theorem keeps_store (h : ∀ c, g (f c) = g c) : KeepsCap g (store array i f) :=
  keeps_bind (keeps_log _ _) fun _ => keeps_setCap h

theorem keeps_warn (w : HdmiEdidParseWarn) : KeepsCap g (warn w) := keeps_modify fun _ => rfl

theorem keeps_getCap : KeepsCap g getCap := keeps_bind keeps_get fun _ => keeps_pure _

end Keeps

theorem value_fetch (k : UInt8 → EdidParser α) :
    (fetch b data len i >>= k).value s = (k (b (data + i))).value s := rfl

theorem value_getCap (k : HdmiSinkCapability → EdidParser α) :
    (getCap >>= k).value s = (k s.cap).value s := rfl

theorem value_when_bind (c : Prop) [Decidable c] (q : EdidParser Unit) (k : Unit → EdidParser α) :
    (Logged.when c q >>= k).value s = (k ()).value (if c then q.after s else s) := by
  rw [value_bind, after_when]

theorem after_fetch (k : UInt8 → EdidParser α) :
    (fetch b data len i >>= k).after s = (k (b (data + i))).after s := rfl

theorem after_getCap (k : HdmiSinkCapability → EdidParser α) :
    (getCap >>= k).after s = (k s.cap).after s := rfl

theorem after_setCap (k : Unit → EdidParser α) :
    (setCap f >>= k).after s = (k ()).after (s.mapCap f) := rfl

theorem after_store (k : Unit → EdidParser α) :
    (store array i f >>= k).after s = (k ()).after (s.mapCap f) := rfl

theorem Fits.mono {k k' : ℕ} (h : Fits data len k) (hle : k' ≤ k) : Fits data len k' :=
  ⟨hle.trans h.1, (Nat.add_le_add_left hle _).trans h.2⟩

/-- A read that is followed by reads further on. -/
theorem fits_and_iff {m k : ℕ} {p : Prop} (hle : m ≤ k)
    (h : Fits data len m → (p ↔ Fits data len k)) : Fits data len m ∧ p ↔ Fits data len k :=
  ⟨fun hm => (h hm.1).mp hm.2, fun hk => ⟨hk.mono hle, (h (hk.mono hle)).mpr hk⟩⟩

theorem fits_zero (h : data ≤ HDMI_EDID_BLOCK_SIZE) : Fits data len 0 := ⟨Nat.zero_le _, h⟩

end Steps

end OpiaiKernel.Hdmi
