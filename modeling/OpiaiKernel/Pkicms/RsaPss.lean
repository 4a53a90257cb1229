import OpiaiKernel.Lib.Word
import Mathlib.Data.List.TakeDrop
import Mathlib.Tactic.Common

/-!
# The probabilistic padding of a signature

The block that RSA recovers from a signature is unmasked, and then it must hold a
hash of the message and of the salt.  The check of the length admits a block that
has no room for the byte before the salt, and the leading bit of the block is
cleared without being tested.

The functions are translated from `cmscbb.c`.
-/

namespace OpiaiKernel.Pkicms.RsaPss

abbrev RSA_PSS_TAIL_V : UInt8 := 0xBC

abbrev RSA_PSS_TAIL_LEN : ℕ := 1

abbrev RSA_PSS_4096_BYTES : ℕ := 512

abbrev DBMASK_DATA_LEN : ℕ := 518

abbrev RSA_PSS_CNT_LEN : ℕ := 4

abbrev RSA_PSS_HEAD_MASK : UInt8 := 0x7F

abbrev PSS_PADDING1 : UInt8 := 0x1

abbrev RSA_PSS_P1_LEN : ℕ := 8

abbrev PASS_SLEN_MASK : ℕ := 0x3FF

/-- `DIGEST_SIZE_SHA256`, the length of the message hash. -/
abbrev PSS_HASH_LEN : ℕ := 32

/-- `DIGEST_SIZE_SHA512` and `SHA512_BLEN`. -/
abbrev SHA512_BLEN : ℕ := 64

inductive CmscbbErrorCode
  | success
  | cryptoDigestFinal
  | cmsVerifyFailed
  deriving DecidableEq

/-! ## Arrays -/

/-- The `n` bytes of an array from `off` on. -/
def slice (a : List UInt8) (off n : ℕ) : Option (List UInt8) :=
  if off + n ≤ a.length then some ((a.drop off).take n) else none

/-- The bytes are written to an array from `off` on. -/
def overwrite (a : List UInt8) (off : ℕ) (src : List UInt8) : Option (List UInt8) :=
  if off + src.length ≤ a.length then some (a.take off ++ src ++ a.drop (off + src.length))
  else none

/-- `memcpy_s` to an array from `off` on; where the bytes do not fit, `destMax`
bytes are cleared. -/
def memcpyS (a : List UInt8) (off destMax : ℕ) (src : List UInt8) : Option (List UInt8) :=
  overwrite a off (if src.length ≤ destMax then src else List.replicate destMax 0)

/-! ## The check -/

/-- `crypto_mem_xor` on an array from `off` on. -/
def cryptoMemXor (scr : List UInt8) (scrLen : ℕ) (dst : List UInt8) (off dstLen : ℕ) :
    Option (List UInt8) := do
  if dstLen < scrLen then pure dst
  else
    let d ← slice dst off scrLen
    let s ← slice scr 0 scrLen
    overwrite dst off (List.zipWith (· ^^^ ·) d s)

/-- `word2byter` of one word. -/
def word2byter (w : ℕ) : List UInt8 :=
  [24, 16, 8, 0].map fun shift => UInt8.ofNat (w >>> shift)

/-- `rsa_pss_check_db`, with the offset in unsigned arithmetic. -/
def rsaPssCheckDb (emData : List UInt8) (hashLen saltLen blockLen : ℕ) :
    Option CmscbbErrorCode := do
  let i := Word.sub 32 (Word.sub 32 (Word.sub 32 (Word.sub 32 blockLen hashLen) RSA_PSS_TAIL_LEN)
    saltLen) RSA_PSS_TAIL_LEN
  let pad ← emData[i]?
  if pad ≠ PSS_PADDING1 then pure .cmsVerifyFailed
  else
    let zeros ← slice emData 0 i
    pure (if zeros.all (· == 0) then .success else .cmsVerifyFailed)

variable (sha256 : List UInt8 → Vector UInt8 32)

/-- `pkicms_sha256_string` to `hash_result`. -/
def hashResult (msg : List UInt8) : List UInt8 :=
  (sha256 msg).toList ++ List.replicate (SHA512_BLEN - 32) 0

/-- One hash of the seed that stands after the masked data, and of the counter. -/
def maskHash (emData : List UInt8) (maskedDbLen hashLen cnt : ℕ) : Option (List UInt8) := do
  let seed ← slice emData maskedDbLen hashLen
  let hashM ← memcpyS (List.replicate DBMASK_DATA_LEN 0) 0 DBMASK_DATA_LEN seed
  let hashM ← memcpyS hashM hashLen (DBMASK_DATA_LEN - hashLen) (word2byter cnt)
  let msg ← slice hashM 0 (hashLen + RSA_PSS_CNT_LEN)
  pure (hashResult sha256 msg)

/-- The loop of `rsa_pss_gen_maskeddb` and the part after it, with `offset` bytes
left to unmask. -/
def genMaskedDbLoop (maskedDbLen hashLen : ℕ) :
    (rounds offset cnt : ℕ) → List UInt8 → Option (List UInt8)
  | rounds, offset, cnt, emData =>
    if offset ≤ hashLen then do
      let hash ← maskHash sha256 emData maskedDbLen hashLen cnt
      let emData ← cryptoMemXor hash offset emData (maskedDbLen - offset) RSA_PSS_4096_BYTES
      let head ← emData[0]?
      overwrite emData 0 [head &&& RSA_PSS_HEAD_MASK]
    else match rounds with
      | 0 => none
      | rounds + 1 => do
        let hash ← maskHash sha256 emData maskedDbLen hashLen cnt
        let emData ← cryptoMemXor hash hashLen emData (maskedDbLen - offset) RSA_PSS_4096_BYTES
        genMaskedDbLoop maskedDbLen hashLen rounds (offset - hashLen) (cnt + 1) emData

/-- `rsa_pss_gen_maskeddb` for SHA-256. -/
def rsaPssGenMaskedDb (emData : List UInt8) (maskedDbLen hashLen : ℕ) : Option (List UInt8) :=
  genMaskedDbLoop sha256 maskedDbLen hashLen maskedDbLen maskedDbLen 0 emData

/-- `rsa_verify_pss` for SHA-256; there is no result when an array is left. -/
def rsaVerifyPss (szDec pbHash : List UInt8) (saltLen : ℕ) : Option CmscbbErrorCode :=
  let len := szDec.length
  let nHashLen := pbHash.length
  let maskedDbLen := Word.sub 32 (Word.sub 32 len nHashLen) RSA_PSS_TAIL_LEN
  let saltOffset := Word.sub 32 (Word.sub 32 (Word.sub 32 len RSA_PSS_TAIL_LEN) nHashLen) saltLen
  let mhashOffset := Word.sub 32 (Word.sub 32 len RSA_PSS_TAIL_LEN) nHashLen
  if SHA512_BLEN < nHashLen ∨ PASS_SLEN_MASK ≤ saltLen then some .cryptoDigestFinal
  else if len < RSA_PSS_TAIL_LEN + nHashLen + saltLen ∨
      RSA_PSS_4096_BYTES - 32 + RSA_PSS_TAIL_LEN + nHashLen < len then some .cryptoDigestFinal
  else if RSA_PSS_4096_BYTES < len then some .cryptoDigestFinal
  else do
    let emData ← overwrite (List.replicate RSA_PSS_4096_BYTES 0) 0 szDec
    let tail ← emData[Word.sub 32 len RSA_PSS_TAIL_LEN]?
    if tail ≠ RSA_PSS_TAIL_V then pure .cryptoDigestFinal
    else
      let emData ← rsaPssGenMaskedDb sha256 emData maskedDbLen nHashLen
      let ret ← rsaPssCheckDb emData nHashLen saltLen len
      if ret ≠ .success then pure .cryptoDigestFinal
      else
        let hashM ← memcpyS (List.replicate DBMASK_DATA_LEN 0) RSA_PSS_P1_LEN
          (DBMASK_DATA_LEN - RSA_PSS_P1_LEN) pbHash
        let salt ← slice emData saltOffset saltLen
        let hashM ← memcpyS hashM (RSA_PSS_P1_LEN + nHashLen)
          (DBMASK_DATA_LEN - RSA_PSS_P1_LEN - nHashLen) salt
        let msg ← slice hashM 0 (RSA_PSS_P1_LEN + nHashLen + saltLen)
        let mhash ← slice emData mhashOffset 32
        pure (if (sha256 msg).toList = mhash then .success else .cryptoDigestFinal)

/-! ## Encodings -/

def xorBytes (a m : List UInt8) : List UInt8 := List.zipWith (· ^^^ ·) a m

/-- The block with its leading bit cleared. -/
def clearLead : List UInt8 → List UInt8
  | [] => []
  | b :: bs => (b &&& RSA_PSS_HEAD_MASK) :: bs

/-- The mask of `n` bytes that is generated from the seed, from a counter on. -/
def mgf1 (seed : List UInt8) (cnt n : ℕ) : List UInt8 :=
  ((List.range' cnt ((n + 31) / 32)).flatMap fun c =>
    (sha256 (seed ++ word2byter c)).toList).take n

/-- The data block of a salt. -/
def dataBlock (len : ℕ) (salt : List UInt8) : List UInt8 :=
  List.replicate (len - salt.length - 34) 0 ++ PSS_PADDING1 :: salt

/-- The encoding of length `len` of a message hash with a salt. -/
def emsaPssEncode (len : ℕ) (hash salt : List UInt8) : List UInt8 :=
  let h := (sha256 (List.replicate 8 0 ++ hash ++ salt)).toList
  clearLead (xorBytes (dataBlock len salt) (mgf1 sha256 h 0 (len - 33))) ++ h ++ [RSA_PSS_TAIL_V]

/-- The block encodes the message hash with a salt of `saltLen` bytes. -/
def PssEncoding (hash : List UInt8) (saltLen : ℕ) (block : List UInt8) : Prop :=
  ∃ salt : List UInt8, salt.length = saltLen ∧ 32 + saltLen + 2 ≤ block.length ∧
    block = emsaPssEncode sha256 block.length hash salt

/-- The check stays inside its arrays and accepts the encodings of the hash
only. -/
structure PssExact (hash : List UInt8) (saltLen : ℕ) (block : List UInt8) : Prop where
  inside : rsaVerifyPss sha256 block hash saltLen ≠ none
  accepts : rsaVerifyPss sha256 block hash saltLen = some .success ↔
    PssEncoding sha256 hash saltLen block

variable {sha256} {a p m q seed src d hash salt block : List UInt8} {off n cnt destMax : ℕ}

/-! ## Arrays -/

theorem slice_append (ha : a = p ++ m ++ q) (hoff : off = p.length) (hn : n = m.length) :
    slice a off n = some m := by
  subst ha hoff hn
  rw [slice, if_pos (by simp), List.append_assoc, List.drop_left, List.take_left]

theorem overwrite_append (ha : a = p ++ m ++ q) (hoff : off = p.length)
    (hsrc : src.length = m.length) : overwrite a off src = some (p ++ src ++ q) := by
  subst ha hoff
  rw [overwrite, if_pos (by simp [hsrc])]
  simp [hsrc, List.drop_append]

theorem memcpyS_append (ha : a = p ++ m ++ q) (hoff : off = p.length)
    (hsrc : src.length = m.length) (hmax : src.length ≤ destMax) :
    memcpyS a off destMax src = some (p ++ src ++ q) := by
  rw [memcpyS, if_pos hmax, overwrite_append ha hoff hsrc]

theorem length_word2byter : (word2byter cnt).length = 4 := rfl

theorem length_hashResult {msg : List UInt8} : (hashResult sha256 msg).length = 64 := by
  simp [hashResult, SHA512_BLEN]

theorem take_hashResult {msg : List UInt8} (hn : n ≤ 32) :
    (hashResult sha256 msg).take n = (sha256 msg).toList.take n := by
  rw [hashResult, List.take_append_of_le_length (by simpa using hn)]

theorem replicate_split {k : ℕ} (hn : n ≤ k) :
    List.replicate k (0 : UInt8) = List.replicate n 0 ++ List.replicate (k - n) 0 := by
  rw [List.replicate_append_replicate, Nat.add_sub_cancel' hn]

/-- A copy to the zeros of an array, after the part `p`. -/
theorem memcpyS_zeros {k : ℕ} (hoff : off = p.length) (hk : src.length ≤ k)
    (hmax : src.length ≤ destMax) :
    memcpyS (p ++ List.replicate k 0) off destMax src =
      some (p ++ src ++ List.replicate (k - src.length) 0) :=
  memcpyS_append (m := List.replicate src.length 0)
    (by rw [replicate_split hk, List.append_assoc]) hoff (by simp) hmax

theorem maskHash_append (ha : a = p ++ seed ++ q) (hseed : seed.length = 32) :
    maskHash sha256 a p.length 32 cnt = some (hashResult sha256 (seed ++ word2byter cnt)) := by
  have hfirst : memcpyS ([] ++ List.replicate DBMASK_DATA_LEN 0) 0 DBMASK_DATA_LEN seed = _ :=
    memcpyS_zeros rfl (by simp [hseed, DBMASK_DATA_LEN]) (by simp [hseed, DBMASK_DATA_LEN])
  have hsecond : memcpyS (seed ++ List.replicate (DBMASK_DATA_LEN - 32) 0) 32
      (DBMASK_DATA_LEN - 32) (word2byter cnt) = _ := memcpyS_zeros hseed.symm
    (by simp [length_word2byter, DBMASK_DATA_LEN]) (by simp [length_word2byter, DBMASK_DATA_LEN])
  have hmsg : slice (seed ++ word2byter cnt ++ List.replicate
      (DBMASK_DATA_LEN - 32 - (word2byter cnt).length) 0) 0 (32 + RSA_PSS_CNT_LEN) =
        some (seed ++ word2byter cnt) :=
    slice_append (p := []) rfl rfl (by simp [hseed, length_word2byter, RSA_PSS_CNT_LEN])
  rw [List.nil_append, hseed, List.nil_append] at hfirst
  rw [maskHash, slice_append ha rfl hseed.symm]
  simp only [Option.bind_eq_bind, Option.bind_some, hfirst, hsecond, hmsg]
  rfl

/-- The message that is hashed for the comparison. -/
theorem pssMessage_append {saltLen : ℕ} (hhash : hash.length = 32) (hsalt : salt.length = saltLen)
    (hle : saltLen ≤ 478) :
    ∃ hashM hashM', memcpyS (List.replicate DBMASK_DATA_LEN 0) RSA_PSS_P1_LEN
        (DBMASK_DATA_LEN - RSA_PSS_P1_LEN) hash = some hashM ∧
      memcpyS hashM (RSA_PSS_P1_LEN + 32) (DBMASK_DATA_LEN - RSA_PSS_P1_LEN - 32) salt =
        some hashM' ∧
      slice hashM' 0 (RSA_PSS_P1_LEN + 32 + saltLen) =
        some (List.replicate RSA_PSS_P1_LEN 0 ++ hash ++ salt) := by
  have hfirst : memcpyS (List.replicate RSA_PSS_P1_LEN 0 ++
      List.replicate (DBMASK_DATA_LEN - RSA_PSS_P1_LEN) 0) RSA_PSS_P1_LEN
        (DBMASK_DATA_LEN - RSA_PSS_P1_LEN) hash = _ := memcpyS_zeros List.length_replicate.symm
    (by simp only [hhash, DBMASK_DATA_LEN, RSA_PSS_P1_LEN]; omega)
    (by simp only [hhash, DBMASK_DATA_LEN, RSA_PSS_P1_LEN]; omega)
  have hsecond : memcpyS (List.replicate RSA_PSS_P1_LEN 0 ++ hash ++
      List.replicate (DBMASK_DATA_LEN - RSA_PSS_P1_LEN - hash.length) 0) (RSA_PSS_P1_LEN + 32)
        (DBMASK_DATA_LEN - RSA_PSS_P1_LEN - 32) salt = _ := memcpyS_zeros
    (by rw [List.length_append, List.length_replicate, hhash])
    (by simp only [hhash, hsalt, DBMASK_DATA_LEN, RSA_PSS_P1_LEN]; omega)
    (by simp only [hsalt, DBMASK_DATA_LEN, RSA_PSS_P1_LEN]; omega)
  rw [replicate_split (n := RSA_PSS_P1_LEN) (k := DBMASK_DATA_LEN) (by decide)]
  refine ⟨_, _, hfirst, hsecond, slice_append (p := []) rfl rfl ?_⟩
  rw [List.length_append, List.length_append, List.length_replicate, hhash, hsalt]

theorem cryptoMemXor_append {scr : List UInt8} (ha : a = p ++ d ++ q) (hd : d.length ≤ 32)
    (hscr : scr.length = 64) :
    cryptoMemXor scr d.length a p.length RSA_PSS_4096_BYTES =
      some (p ++ xorBytes d (scr.take d.length) ++ q) := by
  have hread : slice scr 0 d.length = some (scr.take d.length) :=
    slice_append (p := []) (q := scr.drop d.length) (by simp) rfl (by simp [hscr]; omega)
  rw [cryptoMemXor, if_neg (by simp only [RSA_PSS_4096_BYTES]; omega), slice_append ha rfl rfl]
  simp only [Option.bind_eq_bind, Option.bind_some, hread]
  exact overwrite_append ha rfl (by simp [hscr]; omega)

/-! ## The mask -/

theorem mgf1_le (hn : n ≤ 32) :
    mgf1 sha256 seed cnt n = (sha256 (seed ++ word2byter cnt)).toList.take n := by
  rcases Nat.eq_zero_or_pos n with rfl | hpos
  · rfl
  · rw [mgf1, show (n + 31) / 32 = 1 by omega]
    simp

theorem mgf1_gt (hn : 32 < n) :
    mgf1 sha256 seed cnt n =
      (sha256 (seed ++ word2byter cnt)).toList ++ mgf1 sha256 seed (cnt + 1) (n - 32) := by
  rw [mgf1, show (n + 31) / 32 = (n - 32 + 31) / 32 + 1 by omega, List.range'_succ,
    List.flatMap_cons, List.take_append, List.take_of_length_le (by simp; omega)]
  simp [mgf1]

theorem length_mgf1 : (mgf1 sha256 seed cnt n).length = n := by
  have hlen : ((List.range' cnt ((n + 31) / 32)).flatMap fun c =>
      (sha256 (seed ++ word2byter c)).toList).length = (n + 31) / 32 * 32 := by
    simp only [List.length_flatMap, Vector.length_toList, List.map_const', List.sum_replicate_nat,
      List.length_range']
  rw [mgf1, List.length_take, hlen]
  omega

@[simp] theorem length_xorBytes (h : d.length = m.length) : (xorBytes d m).length = d.length := by
  simp [xorBytes, h]

theorem xorBytes_append {d' m' : List UInt8} (h : d.length = m.length) :
    xorBytes (d ++ d') (m ++ m') = xorBytes d m ++ xorBytes d' m' :=
  List.zipWith_append h

theorem clearLead_overwrite (ha : a ≠ []) :
    (do let head ← a[0]?
        overwrite a 0 [head &&& RSA_PSS_HEAD_MASK]) = some (clearLead a) := by
  cases a with
  | nil => exact absurd rfl ha
  | cons b bs =>
      have hwrite : overwrite (b :: bs) 0 [b &&& RSA_PSS_HEAD_MASK] =
          some (clearLead (b :: bs)) :=
        overwrite_append (p := []) (m := [b]) rfl rfl rfl
      exact hwrite

theorem maskHash_left (hseed : seed.length = 32) :
    maskHash sha256 (p ++ d ++ seed ++ q) (p.length + d.length) 32 cnt =
      some (hashResult sha256 (seed ++ word2byter cnt)) := by
  rw [← List.length_append]
  exact maskHash_append rfl hseed

theorem cryptoMemXor_mask (hd : d.length ≤ 32) :
    cryptoMemXor (hashResult sha256 (seed ++ word2byter cnt)) d.length (p ++ d ++ q) p.length
      RSA_PSS_4096_BYTES = some (p ++ xorBytes d (mgf1 sha256 seed cnt d.length) ++ q) := by
  rw [cryptoMemXor_append rfl hd length_hashResult, take_hashResult hd, mgf1_le hd]

theorem genMaskedDbLoop_last {rounds : ℕ} (hseed : seed.length = 32) (hd : d.length ≤ 32) :
    genMaskedDbLoop sha256 (p.length + d.length) 32 rounds d.length cnt (p ++ d ++ seed ++ q) =
      some (clearLead (p ++ xorBytes d (mgf1 sha256 seed cnt d.length) ++ seed ++ q)) := by
  have hne : p ++ xorBytes d (mgf1 sha256 seed cnt d.length) ++ (seed ++ q) ≠ [] := by
    simp [← List.length_eq_zero_iff, hseed]
  rw [genMaskedDbLoop.eq_def]
  dsimp only
  rw [if_pos hd, maskHash_left hseed, Nat.add_sub_cancel]
  simp only [Option.bind_eq_bind, Option.bind_some]
  rw [List.append_assoc (p ++ d), cryptoMemXor_mask hd, Option.bind_some,
    List.append_assoc (p ++ _)]
  exact clearLead_overwrite hne

/-- With `d` left to unmask, after the part `p` that has been unmasked. -/
theorem genMaskedDbLoop_append {rounds : ℕ} (hseed : seed.length = 32)
    (hrounds : d.length ≤ rounds) :
    genMaskedDbLoop sha256 (p.length + d.length) 32 rounds d.length cnt (p ++ d ++ seed ++ q) =
      some (clearLead (p ++ xorBytes d (mgf1 sha256 seed cnt d.length) ++ seed ++ q)) := by
  induction rounds generalizing p d cnt with
  | zero => exact genMaskedDbLoop_last hseed (by omega)
  | succ rounds ih =>
      by_cases hd : d.length ≤ 32
      · exact genMaskedDbLoop_last hseed hd
      -- one round unmasks the first 32 bytes of `d`
      · obtain ⟨x, y, rfl, hx⟩ : ∃ x y, d = x ++ y ∧ x.length = 32 :=
          ⟨d.take 32, d.drop 32, (List.take_append_drop 32 d).symm, by simp; omega⟩
        have hy : (x ++ y).length - 32 = y.length := by simp [hx]
        have hxor : cryptoMemXor (hashResult sha256 (seed ++ word2byter cnt)) 32
            (p ++ (x ++ y) ++ seed ++ q) p.length RSA_PSS_4096_BYTES =
              some (p ++ xorBytes x (mgf1 sha256 seed cnt 32) ++ y ++ seed ++ q) := by
          have h : cryptoMemXor (hashResult sha256 (seed ++ word2byter cnt)) x.length
              (p ++ x ++ (y ++ seed ++ q)) p.length RSA_PSS_4096_BYTES = _ :=
            cryptoMemXor_mask (by omega)
          rw [hx] at h
          simpa using h
        have hlen : (p ++ xorBytes x (mgf1 sha256 seed cnt 32)).length + y.length =
            p.length + (x ++ y).length := by
          simp [length_xorBytes, length_mgf1, hx, Nat.add_assoc]
        have hmask : xorBytes (x ++ y) (mgf1 sha256 seed cnt (x ++ y).length) =
            xorBytes x (mgf1 sha256 seed cnt 32) ++
              xorBytes y (mgf1 sha256 seed (cnt + 1) y.length) := by
          rw [mgf1_gt (by omega), hy, xorBytes_append (by simp [hx]), mgf1_le le_rfl,
            List.take_of_length_le (by simp)]
        rw [genMaskedDbLoop.eq_def]
        dsimp only
        rw [if_neg hd, maskHash_left hseed, Nat.add_sub_cancel]
        simp only [Option.bind_eq_bind, Option.bind_some]
        rw [hxor, Option.bind_some, hy, ← hlen, ih (by simp at hrounds; omega), hmask]
        simp

/-! ## The data block -/

theorem getElem?_middle {x : UInt8} (ha : a = p ++ x :: q) (hoff : off = p.length) :
    a[off]? = some x := by
  subst ha hoff
  simp

theorem clearLead_append (hp : p ≠ []) : clearLead (p ++ q) = clearLead p ++ q := by
  cases p with
  | nil => exact absurd rfl hp
  | cons b bs => rfl

@[simp] theorem length_clearLead : (clearLead a).length = a.length := by
  cases a <;> rfl

/-- With room for the byte before the salt, the zeros before it are all tested. -/
theorem rsaPssCheckDb_append {db : List UInt8} {i saltLen : ℕ}
    (hdb : db.length = i + 1 + saltLen) (hlen : i + saltLen + 34 ≤ 512) :
    rsaPssCheckDb (db ++ q) 32 saltLen (i + saltLen + 34) =
      some (if db.take (i + 1) = List.replicate i 0 ++ [PSS_PADDING1] then .success
        else .cmsVerifyFailed) := by
  have hoff : Word.sub 32 (Word.sub 32 (Word.sub 32 (Word.sub 32 (i + saltLen + 34) 32)
      RSA_PSS_TAIL_LEN) saltLen) RSA_PSS_TAIL_LEN = i := by
    simp (disch := omega) only [Word.sub_of_le, RSA_PSS_TAIL_LEN]
    omega
  obtain ⟨zeros, pad, rest, rfl, hzeros⟩ :
      ∃ zeros pad rest, db = zeros ++ pad :: rest ∧ zeros.length = i := by
    have hi : i < db.length := by omega
    refine ⟨db.take i, db[i], db.drop (i + 1), ?_, by simp; omega⟩
    rw [List.cons_getElem_drop_succ, List.take_append_drop]
  have htake : (zeros ++ pad :: rest).take (i + 1) = zeros ++ [pad] := by
    rw [← hzeros]
    simp [List.take_append]
  have hpad : (zeros ++ pad :: rest ++ q)[i]? = some pad :=
    getElem?_middle (q := rest ++ q) (by simp) hzeros.symm
  have hslice : slice (zeros ++ pad :: rest ++ q) 0 i = some zeros :=
    slice_append (p := []) (q := pad :: rest ++ q) (by simp) rfl hzeros.symm
  have hall : zeros.all (· == 0) = true ↔ zeros = List.replicate i 0 := by
    simp [List.eq_replicate_iff, hzeros]
  rw [rsaPssCheckDb, hoff, hpad, htake]
  simp only [Option.bind_eq_bind, Option.bind_some, hslice]
  have hiff : zeros ++ [pad] = List.replicate i 0 ++ [PSS_PADDING1] ↔
      zeros.all (· == 0) = true ∧ pad = PSS_PADDING1 := by
    rw [hall]
    constructor
    · intro heq
      obtain ⟨hz, hp⟩ := List.append_inj heq (by simpa using hzeros)
      exact ⟨hz, List.singleton_inj.mp hp⟩
    · rintro ⟨hz, hp⟩
      rw [hz, hp]
  by_cases hp : pad = PSS_PADDING1
  · rw [if_neg (not_not.mpr hp)]
    by_cases hz : zeros.all (· == 0) = true
    · rw [if_pos hz, if_pos (hiff.mpr ⟨hz, hp⟩)]
      rfl
    · rw [if_neg hz, if_neg fun heq => hz (hiff.mp heq).1]
      rfl
  · rw [if_pos hp, if_neg fun heq => hp (hiff.mp heq).2]
    rfl

/-- The outcome for a block with room for the byte before the salt. -/
theorem rsaVerifyPss_append (sha256 : List UInt8 → Vector UInt8 32) {db : List UInt8}
    {i saltLen : ℕ} (tail : UInt8)
    (hhash : hash.length = 32) (hseed : seed.length = 32) (hd : d.length = i + 1 + saltLen)
    (hn : n = i + saltLen + 34)
    (hle : n ≤ 512) (hunmasked : db = clearLead (xorBytes d (mgf1 sha256 seed 0 d.length))) :
    rsaVerifyPss sha256 (d ++ seed ++ [tail]) hash saltLen =
      some (if tail = RSA_PSS_TAIL_V ∧
          db.take (i + 1) = List.replicate i 0 ++ [PSS_PADDING1] ∧
          (sha256 (List.replicate RSA_PSS_P1_LEN 0 ++ hash ++ db.drop (i + 1))).toList = seed then
            .success
        else .cryptoDigestFinal) := by
  have hblock : (d ++ seed ++ [tail]).length = n := by
    simp [hd, hseed]
    omega
  have hmasked : Word.sub 32 (Word.sub 32 n 32) RSA_PSS_TAIL_LEN = d.length := by
    simp (disch := omega) only [Word.sub_of_le, RSA_PSS_TAIL_LEN]
    omega
  have hsalt : Word.sub 32 (Word.sub 32 (Word.sub 32 n RSA_PSS_TAIL_LEN) 32) saltLen = i + 1 := by
    simp (disch := omega) only [Word.sub_of_le, RSA_PSS_TAIL_LEN]
    omega
  have hmhash : Word.sub 32 (Word.sub 32 n RSA_PSS_TAIL_LEN) 32 = d.length := by
    simp (disch := omega) only [Word.sub_of_le, RSA_PSS_TAIL_LEN]
    omega
  have htail : Word.sub 32 n RSA_PSS_TAIL_LEN = (d ++ seed).length := by
    simp (disch := omega) only [Word.sub_of_le, RSA_PSS_TAIL_LEN, List.length_append]
    omega
  have hdb : db.length = i + 1 + saltLen := by
    simp [hunmasked, length_xorBytes, length_mgf1, hd]
  obtain ⟨zeros, hcopy⟩ : ∃ zeros, overwrite (List.replicate RSA_PSS_4096_BYTES 0) 0
      (d ++ seed ++ [tail]) = some (d ++ seed ++ [tail] ++ zeros) :=
    ⟨_, overwrite_append (p := []) (replicate_split (n := n) hle) rfl (by simpa using hblock)⟩
  have hget : (d ++ seed ++ [tail] ++ zeros)[(d ++ seed).length]? = some tail :=
    getElem?_middle (q := zeros) (by simp) rfl
  have hunmask : rsaPssGenMaskedDb sha256 (d ++ seed ++ [tail] ++ zeros) d.length 32 =
      some (db ++ seed ++ ([tail] ++ zeros)) := by
    have hloop : genMaskedDbLoop sha256 (([] : List UInt8).length + d.length) 32 d.length d.length
        0 ([] ++ d ++ seed ++ ([tail] ++ zeros)) = _ := genMaskedDbLoop_append hseed le_rfl
    have hne : xorBytes d (mgf1 sha256 seed 0 d.length) ≠ [] := by
      rw [← List.length_pos_iff, length_xorBytes length_mgf1.symm]
      omega
    simp only [List.nil_append, List.length_nil, Nat.zero_add, List.append_assoc,
      clearLead_append hne] at hloop
    simpa [rsaPssGenMaskedDb, hunmasked] using hloop
  have hcheck := rsaPssCheckDb_append (q := seed ++ ([tail] ++ zeros)) hdb (hn ▸ hle)
  rw [← List.append_assoc, ← hn] at hcheck
  have hreadSalt : slice (db ++ seed ++ ([tail] ++ zeros)) (i + 1) saltLen =
      some (db.drop (i + 1)) :=
    slice_append (p := db.take (i + 1)) (q := seed ++ ([tail] ++ zeros))
      (by rw [List.take_append_drop, List.append_assoc]) (by simp [hdb]) (by simp [hdb])
  have hreadHash : slice (db ++ seed ++ ([tail] ++ zeros)) d.length 32 = some seed :=
    slice_append rfl (by rw [hdb, hd]) hseed.symm
  obtain ⟨hashM, hashM', hfirst, hsecond, hmsg⟩ := pssMessage_append hhash
    (show (db.drop (i + 1)).length = saltLen by simp [hdb]) (by omega)
  rw [rsaVerifyPss, hblock, hhash, hmasked, hsalt, hmhash, htail]
  rw [if_neg (by simp only [SHA512_BLEN, PASS_SLEN_MASK]; omega),
    if_neg (by simp only [RSA_PSS_TAIL_LEN, RSA_PSS_4096_BYTES]; omega),
    if_neg (by simp only [RSA_PSS_4096_BYTES]; omega)]
  simp only [hcopy, Option.bind_eq_bind, Option.bind_some, hget, hunmask, hcheck, hfirst,
    hreadSalt, hsecond, hmsg, hreadHash]
  by_cases ht : tail = RSA_PSS_TAIL_V
  · by_cases hz : db.take (i + 1) = List.replicate i 0 ++ [PSS_PADDING1]
    · simp [ht, hz]
    · simp [ht, hz]
  · simp [ht]

/-! ## Encodings -/

theorem xor_eq_iff {x k y : UInt8} : x ^^^ k = y ↔ x = y ^^^ k := by
  constructor
  · rintro rfl
    rw [UInt8.xor_assoc, UInt8.xor_self, UInt8.xor_zero]
  · rintro rfl
    rw [UInt8.xor_assoc, UInt8.xor_self, UInt8.xor_zero]

theorem xor_and (x k c : UInt8) : (x ^^^ k) &&& c = (x &&& c) ^^^ (k &&& c) := by
  apply UInt8.toBitVec_inj.mp
  ext i hi
  simp [Bool.and_xor_distrib_right]

theorem xorBytes_eq_iff (hm : d.length = m.length) {y : List UInt8} (hy : d.length = y.length) :
    xorBytes d m = y ↔ d = xorBytes y m := by
  induction d generalizing m y with
  | nil =>
      cases m with
      | nil =>
          cases y with
          | nil => simp [xorBytes]
          | cons b bs => cases hy
      | cons b bs => cases hm
  | cons x xs ih =>
      cases m with
      | nil => cases hm
      | cons k ks =>
          cases y with
          | nil => cases hy
          | cons b bs =>
              have hrest := ih (m := ks) (y := bs) (Nat.succ.inj hm) (Nat.succ.inj hy)
              simp only [xorBytes] at hrest ⊢
              rw [List.zipWith_cons_cons, List.zipWith_cons_cons, List.cons.injEq,
                List.cons.injEq, xor_eq_iff, hrest]

/-- A data block without leading bit, masked and unmasked. -/
theorem clearLead_xorBytes_eq_iff (hm : d.length = m.length) {y : List UInt8}
    (hy : d.length = y.length) (hclear : clearLead y = y) :
    clearLead (xorBytes d m) = y ↔ clearLead d = clearLead (xorBytes y m) := by
  cases d with
  | nil =>
      obtain rfl : y = [] := by simpa using hy.symm
      simp [xorBytes, clearLead]
  | cons x xs =>
      cases m with
      | nil => cases hm
      | cons k ks =>
          cases y with
          | nil => cases hy
          | cons b bs =>
              have hrest := xorBytes_eq_iff (Nat.succ.inj hm) (y := bs) (Nat.succ.inj hy)
              have hb : b &&& RSA_PSS_HEAD_MASK = b := (List.cons.inj hclear).1
              simp only [xorBytes, List.zipWith_cons_cons, clearLead, List.cons.injEq] at hrest ⊢
              rw [hrest, xor_and, xor_and, hb, xor_eq_iff]

theorem clearLead_dataBlock {len : ℕ} : clearLead (dataBlock len salt) = dataBlock len salt := by
  rw [dataBlock]
  cases len - salt.length - 34 <;> rfl

theorem pssEncoding_append (sha256 : List UInt8 → Vector UInt8 32) (hash : List UInt8)
    {db : List UInt8} {i saltLen : ℕ} (tail : UInt8)
    (hseed : seed.length = 32) (hd : d.length = i + 1 + saltLen) (hn : n = i + saltLen + 34)
    (hunmasked : db = clearLead (xorBytes d (mgf1 sha256 seed 0 d.length))) :
    PssEncoding sha256 hash saltLen (clearLead (d ++ seed ++ [tail])) ↔
      tail = RSA_PSS_TAIL_V ∧ db.take (i + 1) = List.replicate i 0 ++ [PSS_PADDING1] ∧
        (sha256 (List.replicate RSA_PSS_P1_LEN 0 ++ hash ++ db.drop (i + 1))).toList = seed := by
  have hlen : (clearLead (d ++ seed ++ [tail])).length = n := by
    simp [hd, hseed]
    omega
  have hdata (salt : List UInt8) (hsalt : salt.length = saltLen) :
      dataBlock n salt = List.replicate i 0 ++ [PSS_PADDING1] ++ salt := by
    rw [dataBlock, hsalt, show n - saltLen - 34 = i by omega, List.append_assoc]
    rfl
  have hsplit : clearLead (d ++ seed ++ [tail]) = clearLead d ++ seed ++ [tail] := by
    rw [List.append_assoc, clearLead_append (by rw [← List.length_pos_iff]; omega),
      ← List.append_assoc]
  have hmasked (salt : List UInt8) (hsalt : salt.length = saltLen) :
      db = dataBlock n salt ↔
        clearLead d = clearLead (xorBytes (dataBlock n salt) (mgf1 sha256 seed 0 d.length)) := by
    rw [hunmasked]
    refine clearLead_xorBytes_eq_iff length_mgf1.symm ?_ clearLead_dataBlock
    rw [hdata salt hsalt]
    simp [hd, hsalt]
    omega
  have hdb : db.length = i + 1 + saltLen := by
    simp [hunmasked, length_xorBytes, length_mgf1, hd]
  have hn33 : n - 33 = d.length := by omega
  constructor
  · rintro ⟨salt, hsalt, -, heq⟩
    rw [hlen, hsplit, emsaPssEncode, hn33] at heq
    obtain ⟨hfront, htail⟩ := List.append_inj' heq rfl
    obtain ⟨hd', rfl⟩ := List.append_inj' hfront (by simp [hseed])
    have hblock := (hmasked salt hsalt).mpr hd'
    rw [hdata salt hsalt] at hblock
    have htake : (List.replicate i 0 ++ [PSS_PADDING1]).length = i + 1 := by simp
    refine ⟨List.singleton_inj.mp htail, ?_, ?_⟩
    · rw [hblock, ← htake, List.take_left]
    · rw [hblock, ← htake, List.drop_left]
  · rintro ⟨rfl, htake, hhash⟩
    have hsalt : (db.drop (i + 1)).length = saltLen := by simp [hdb]
    have hblock : db = dataBlock n (db.drop (i + 1)) := by
      rw [hdata _ hsalt, ← htake, List.take_append_drop]
    refine ⟨db.drop (i + 1), hsalt, by omega, ?_⟩
    rw [hlen, hsplit, emsaPssEncode, hn33, (hmasked _ hsalt).mp hblock]
    have hh : (sha256 (List.replicate 8 0 ++ hash ++ db.drop (i + 1))).toList = seed := hhash
    rw [hh]

/-! ## The check is exact -/

theorem split_block (hlen : 33 ≤ block.length) :
    ∃ d seed tail, block = d ++ seed ++ [tail] ∧ seed.length = 32 ∧
      d.length = block.length - 33 := by
  have hne : block ≠ [] := by
    rintro rfl
    simp at hlen
  obtain ⟨front, tail, rfl⟩ : ∃ front tail, block = front ++ [tail] :=
    ⟨block.dropLast, block.getLast hne, (List.dropLast_concat_getLast hne).symm⟩
  simp only [List.length_append, List.length_singleton] at hlen ⊢
  refine ⟨front.take (front.length - 32), front.drop (front.length - 32), tail, ?_, ?_, ?_⟩
  · rw [List.take_append_drop]
  · simp
    omega
  · simp

/-- A block without room for the byte before the salt: the offset of this byte
wraps around. -/
theorem rsaVerifyPss_short (sha256 : List UInt8 → Vector UInt8 32) {saltLen : ℕ} (tail : UInt8)
    (hhash : hash.length = 32)
    (hseed : seed.length = 32) (hd : d.length = saltLen) (hle : saltLen + 33 ≤ 512) :
    rsaVerifyPss sha256 (d ++ seed ++ [tail]) hash saltLen =
      if tail = RSA_PSS_TAIL_V then none else some .cryptoDigestFinal := by
  have hblock : (d ++ seed ++ [tail]).length = saltLen + 33 := by
    simp [hd, hseed]
  have hmasked : Word.sub 32 (Word.sub 32 (saltLen + 33) 32) RSA_PSS_TAIL_LEN = d.length := by
    simp (disch := omega) only [Word.sub_of_le, RSA_PSS_TAIL_LEN]
    omega
  have htail : Word.sub 32 (saltLen + 33) RSA_PSS_TAIL_LEN = (d ++ seed).length := by
    simp (disch := omega) only [Word.sub_of_le, RSA_PSS_TAIL_LEN, List.length_append]
    omega
  obtain ⟨zeros, hcopy, hzeros⟩ : ∃ zeros, overwrite (List.replicate RSA_PSS_4096_BYTES 0) 0
      (d ++ seed ++ [tail]) = some (d ++ seed ++ [tail] ++ zeros) ∧ zeros.length ≤ 512 :=
    ⟨_, overwrite_append (p := []) (replicate_split (n := saltLen + 33) hle) rfl
      (by simpa using hblock), by simp [RSA_PSS_4096_BYTES]; omega⟩
  have hget : (d ++ seed ++ [tail] ++ zeros)[(d ++ seed).length]? = some tail :=
    getElem?_middle (q := zeros) (by simp) rfl
  obtain ⟨em, hunmask, hem⟩ : ∃ em, rsaPssGenMaskedDb sha256 (d ++ seed ++ [tail] ++ zeros)
      d.length 32 = some em ∧ em.length ≤ 1024 := by
    have hloop : genMaskedDbLoop sha256 (([] : List UInt8).length + d.length) 32 d.length d.length
        0 ([] ++ d ++ seed ++ ([tail] ++ zeros)) = _ := genMaskedDbLoop_append hseed le_rfl
    refine ⟨_, by simpa [rsaPssGenMaskedDb] using hloop, ?_⟩
    simp [length_xorBytes, length_mgf1, hseed]
    omega
  have hcheck : rsaPssCheckDb em 32 saltLen (saltLen + 33) = none := by
    have hoff : Word.sub 32 (Word.sub 32 (Word.sub 32 (Word.sub 32 (saltLen + 33) 32)
        RSA_PSS_TAIL_LEN) saltLen) RSA_PSS_TAIL_LEN = 2 ^ 32 - 1 := by
      simp (disch := omega) only [Word.sub_of_le, RSA_PSS_TAIL_LEN]
      rw [show saltLen + 33 - 32 - 1 - saltLen = 0 by omega]
      decide
    rw [rsaPssCheckDb, hoff, List.getElem?_eq_none (by omega)]
    rfl
  rw [rsaVerifyPss, hblock, hhash, hmasked, htail]
  rw [if_neg (by simp only [SHA512_BLEN, PASS_SLEN_MASK]; omega),
    if_neg (by simp only [RSA_PSS_TAIL_LEN, RSA_PSS_4096_BYTES]; omega),
    if_neg (by simp only [RSA_PSS_4096_BYTES]; omega)]
  simp only [hcopy, Option.bind_eq_bind, Option.bind_some, hget, hunmask, hcheck]
  by_cases ht : tail = RSA_PSS_TAIL_V <;> simp [ht]

theorem PssEncoding.length_le {saltLen : ℕ} (h : PssEncoding sha256 hash saltLen block) :
    saltLen + 34 ≤ block.length := by
  obtain ⟨-, -, hlen, -⟩ := h
  omega

theorem PssEncoding.clearLead_eq {saltLen : ℕ} (h : PssEncoding sha256 hash saltLen block) :
    clearLead block = block := by
  obtain ⟨salt, hsalt, hlen, heq⟩ := h
  generalize block.length = n at hlen heq
  have hidem (a : List UInt8) : clearLead (clearLead a) = clearLead a := by
    cases a with
    | nil => rfl
    | cons b bs => simp [clearLead, UInt8.and_assoc]
  have hne : clearLead (xorBytes (dataBlock n salt) (mgf1 sha256
      (sha256 (List.replicate 8 0 ++ hash ++ salt)).toList 0 (n - 33))) ≠ [] := by
    have hdata : (dataBlock n salt).length = n - 33 := by
      simp [dataBlock]
      omega
    rw [← List.length_pos_iff, length_clearLead, length_xorBytes (by rw [hdata, length_mgf1]),
      hdata]
    omega
  rw [heq, emsaPssEncode, List.append_assoc, clearLead_append hne, hidem]

/-- The check is exact and stays inside its arrays unless the block ends in the
trailer but has no room for the byte before the salt, or its leading bit is set
and it is an encoding but for that. -/
theorem pssExact_iff (sha256 : List UInt8 → Vector UInt8 32) (hash : Vector UInt8 32)
    (saltLen : ℕ) (block : List UInt8) (hblock : block.length ≤ 512) :
    PssExact sha256 hash.toList saltLen block ↔
      ¬ (block.length = saltLen + 33 ∧ block.getLast? = some RSA_PSS_TAIL_V) ∧
        (clearLead block = block ∨
          ¬ PssEncoding sha256 hash.toList saltLen (clearLead block)) := by
  have hhash : hash.toList.length = 32 := by simp
  have hno (b : List UInt8) (hb : b.length = block.length) (hlt : block.length < saltLen + 34) :
      ¬ PssEncoding sha256 hash.toList saltLen b := fun henc => by
    have hle := henc.length_le
    omega
  rcases Nat.lt_or_ge block.length (saltLen + 33) with hlt | hge
  · have hfail : rsaVerifyPss sha256 block hash.toList saltLen = some .cryptoDigestFinal := by
      rw [rsaVerifyPss, hhash]
      split_ifs with h1 h2 h3
      · rfl
      · rfl
      · rfl
      · exact absurd (Or.inl (by simp only [RSA_PSS_TAIL_LEN]; omega)) h2
    refine iff_of_true ⟨hfail.trans_ne (Option.some_ne_none _), ?_⟩
      ⟨fun hlen => by omega, Or.inr ?_⟩
    · rw [hfail]
      exact iff_of_false (by simp) (hno block rfl (by omega))
    · exact hno _ length_clearLead (by omega)
  obtain ⟨d, seed, tail, rfl, hseed, hd⟩ := split_block (show 33 ≤ block.length by omega)
  rcases Nat.eq_or_lt_of_le hge with heq | hgt
  · have hshort := rsaVerifyPss_short sha256 tail hhash hseed
      (show d.length = saltLen by omega) (by omega)
    by_cases ht : tail = RSA_PSS_TAIL_V
    · refine iff_of_false (fun h => h.inside ?_) fun h => h.1 ⟨heq.symm, ?_⟩
      · rw [hshort, if_pos ht]
      · simp [ht]
    · rw [if_neg ht] at hshort
      refine iff_of_true ⟨hshort.trans_ne (Option.some_ne_none _), ?_⟩
        ⟨fun hlast => ht ?_, Or.inr ?_⟩
      · rw [hshort]
        exact iff_of_false (by simp) (hno _ rfl (by omega))
      · simpa using hlast.2
      · exact hno _ length_clearLead (by omega)
  · obtain ⟨i, hi⟩ : ∃ i, (d ++ seed ++ [tail]).length = i + saltLen + 34 :=
      ⟨(d ++ seed ++ [tail]).length - saltLen - 34, by omega⟩
    have hlen : d.length = i + 1 + saltLen := by omega
    have hres := rsaVerifyPss_append sha256 tail hhash hseed hlen rfl
      (by omega) rfl
    have henc := pssEncoding_append sha256 hash.toList tail hseed
      hlen rfl rfl
    have haccepts :
        rsaVerifyPss sha256 (d ++ seed ++ [tail]) hash.toList saltLen = some .success ↔
          PssEncoding sha256 hash.toList saltLen (clearLead (d ++ seed ++ [tail])) := by
      rw [hres, henc]
      split_ifs with h
      · exact iff_of_true rfl h
      · exact iff_of_false (by simp) h
    constructor
    · refine fun h => ⟨fun hlen => by omega, ?_⟩
      by_cases hclear : PssEncoding sha256 hash.toList saltLen (clearLead (d ++ seed ++ [tail]))
      · exact Or.inl (h.accepts.mp (haccepts.mpr hclear)).clearLead_eq
      · exact Or.inr hclear
    · rintro ⟨-, hlead⟩
      refine ⟨hres.trans_ne (Option.some_ne_none _), haccepts.trans ?_⟩
      rcases hlead with hlead | hnot
      · rw [hlead]
      · exact iff_of_false hnot fun h => hnot (h.clearLead_eq.symm ▸ h)

theorem pssExact_iff_encoding :
    PssExact (fun _ => Vector.replicate 32 0) (Vector.replicate 32 0).toList 0
      ([PSS_PADDING1] ++ List.replicate 32 0 ++ [RSA_PSS_TAIL_V]) :=
  (pssExact_iff _ _ 0 _ (by decide)).mpr ⟨by decide, Or.inl rfl⟩

/-- A block of 33 bytes for an empty salt, and an encoding whose leading bit has
been set. -/
theorem pss_not_exact :
    ¬ PssExact (fun _ => Vector.replicate 32 0) (Vector.replicate 32 0).toList 0
        (List.replicate 32 0 ++ [RSA_PSS_TAIL_V]) ∧
      ¬ PssExact (fun _ => Vector.replicate 32 0) (Vector.replicate 32 0).toList 0
        ([PSS_PADDING1 ||| 0x80] ++ List.replicate 32 0 ++ [RSA_PSS_TAIL_V]) := by
  constructor
  · intro h
    refine h.inside ?_
    decide +kernel
  · intro h
    have henc := h.accepts.mp (by decide +kernel)
    exact absurd henc.clearLead_eq (by decide)

end OpiaiKernel.Pkicms.RsaPss
