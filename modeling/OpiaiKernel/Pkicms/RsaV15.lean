import OpiaiKernel.Lib.Scan
import Mathlib.Data.Int.DivMod
import Mathlib.Tactic.Ring

/-!
# The padding of a signature

What RSA recovers from a signature is one byte 1, bytes 255, a byte 0, the header
of the digest algorithm and the hash.  The scan of the bytes 255 tests the end of
the buffer only after it has read the byte at its pointer.

The functions are translated from `cmscbb.c`.
-/

namespace OpiaiKernel.Pkicms.RsaV15

open Scan

abbrev CMSCBB_HASH_SHA256 : ℕ := 43

abbrev CMSCBB_HASH_SHA512 : ℕ := 45

abbrev DIGEST_SIZE_SHA256 : ℕ := 32

abbrev DIGEST_SIZE_SHA512 : ℕ := 64

def sha256FillHeader : List UInt8 :=
  [0x30, 0x31, 0x30, 0x0d, 0x06, 0x09, 0x60, 0x86, 0x48, 0x01, 0x65, 0x03, 0x04, 0x02, 0x01, 0x05,
    0x00, 0x04, 0x20]

def sha512FillHeader : List UInt8 :=
  [0x30, 0x51, 0x30, 0x0d, 0x06, 0x09, 0x60, 0x86, 0x48, 0x01, 0x65, 0x03, 0x04, 0x02, 0x03, 0x05,
    0x00, 0x04, 0x40]

/-- The check of the data after the padding, with the header and the digest size
of an algorithm. -/
def rsaVerifyV15DigestCheck (header : List UInt8) (size : ℕ) (nDec : ℤ) (nHashLen buff : ℕ)
    (pbHash : ℕ → UInt8) : Scan Unit := do
  check (nDec - header.length = size)
  check (nHashLen = size)
  let h ← read buff header.length
  check (h = header)
  let d ← read (buff + header.length) size
  check (d = bytes pbHash 0 size)

/-- `rsa_verify_v15_sha256_check` -/
def rsaVerifyV15Sha256Check : ℤ → ℕ → ℕ → (ℕ → UInt8) → Scan Unit :=
  rsaVerifyV15DigestCheck sha256FillHeader DIGEST_SIZE_SHA256

/-- `rsa_verify_v15_sha512_check` -/
def rsaVerifyV15Sha512Check : ℤ → ℕ → ℕ → (ℕ → UInt8) → Scan Unit :=
  rsaVerifyV15DigestCheck sha512FillHeader DIGEST_SIZE_SHA512

/-- The loop over the bytes 255, from `p` on with `left` bytes left. -/
def skipPadding : (left p : ℕ) → Scan ℕ
  | 0, p => do
      let v ← readByte p
      if v = 0xFF then fail else pure p
  | left + 1, p => do
      let v ← readByte p
      if v = 0xFF then skipPadding left (p + 1) else pure p

/-- `rsa_verify_v15`; `nDec` is a 32-bit integer. -/
def rsaVerifyV15 (len : UInt32) (hashAlgo : ℕ) (pbHash : ℕ → UInt8) (nHashLen : ℕ) :
    Scan Unit := do
  let flag ← readByte 0
  check (flag = 0x01)
  let p ← skipPadding (len.toNat - 1) 1
  check (¬ p ≤ 10)
  let zero ← readByte p
  check (zero = 0x00)
  let nDec := Int.bmod ((len.toNat : ℤ) - (p + 1 : ℕ)) (2 ^ 32)
  if hashAlgo = CMSCBB_HASH_SHA256 then rsaVerifyV15Sha256Check nDec nHashLen (p + 1) pbHash
  else if hashAlgo = CMSCBB_HASH_SHA512 then
    rsaVerifyV15Sha512Check nDec nHashLen (p + 1) pbHash
  else fail

/-! ## Encodings -/

/-- The header and the digest size of an algorithm. -/
def digestInfo (hashAlgo : ℕ) : Option (List UInt8 × ℕ) :=
  if hashAlgo = CMSCBB_HASH_SHA256 then some (sha256FillHeader, DIGEST_SIZE_SHA256)
  else if hashAlgo = CMSCBB_HASH_SHA512 then some (sha512FillHeader, DIGEST_SIZE_SHA512)
  else none

/-- The block is the encoding of the hash, with ten bytes 255 or more. -/
def V15Encoding (block header hash : List UInt8) : Prop :=
  ∃ n ≥ 10, block = 0x01 :: (List.replicate n 0xFF ++ 0x00 :: (header ++ hash))

/-- The check accepts the encodings of the hash only, and stays inside the
block. -/
structure V15Exact (len : UInt32) (hashAlgo : ℕ) (pbHash : ℕ → UInt8) (nHashLen : ℕ)
    (b : ℕ → UInt8) : Prop where
  accepts : (rsaVerifyV15 len hashAlgo pbHash nHashLen).result b = some () ↔
    ∃ header size, digestInfo hashAlgo = some (header, size) ∧ nHashLen = size ∧
      V15Encoding (bytes b 0 len.toNat) header (bytes pbHash 0 size)
  inside : Within len.toNat (rsaVerifyV15 len hashAlgo pbHash nHashLen) b

variable {b pbHash : ℕ → UInt8} {left p i n hashAlgo nHashLen size : ℕ} {header : List UInt8}
  {len : UInt32}

/-! ## The padding -/

/-- The loop ends at the first byte that is not 255. -/
theorem result_skipPadding :
    (skipPadding left p).result b = some i ↔
      (p ≤ i ∧ i ≤ p + left) ∧ b i ≠ 0xFF ∧ ∀ j, p ≤ j → j < i → b j = 0xFF := by
  induction left generalizing p with
  | zero =>
      by_cases hp : b p = 0xFF
      · simp only [skipPadding, result_bind, result_readByte, Option.some.injEq, exists_eq_left',
          if_pos hp, result_fail, reduceCtorEq, false_iff]
        rintro ⟨⟨hle, hge⟩, hne, -⟩
        obtain rfl : i = p := by omega
        exact hne hp
      · simp only [skipPadding, result_bind, result_readByte, Option.some.injEq, exists_eq_left',
          if_neg hp, result_pure]
        constructor
        · rintro rfl
          exact ⟨⟨le_rfl, by omega⟩, hp, fun j hle hlt => by omega⟩
        · rintro ⟨⟨hle, hge⟩, -, -⟩
          omega
  | succ left ih =>
      by_cases hp : b p = 0xFF
      · simp only [skipPadding, result_bind, result_readByte, Option.some.injEq, exists_eq_left',
          if_pos hp, ih]
        constructor
        · rintro ⟨⟨hle, hge⟩, hne, hall⟩
          refine ⟨⟨by omega, by omega⟩, hne, fun j hpj hji => ?_⟩
          rcases eq_or_lt_of_le hpj with rfl | hlt
          · exact hp
          · exact hall j hlt hji
        · rintro ⟨⟨hle, hge⟩, hne, hall⟩
          have hpi : p ≠ i := by
            rintro rfl
            exact hne hp
          exact ⟨⟨by omega, by omega⟩, hne, fun j hpj hji => hall j (by omega) hji⟩
      · simp only [skipPadding, result_bind, result_readByte, Option.some.injEq, exists_eq_left',
          if_neg hp, result_pure]
        constructor
        · rintro rfl
          exact ⟨⟨le_rfl, by omega⟩, hp, fun j hle hlt => by omega⟩
        · rintro ⟨⟨hle, hge⟩, -, hall⟩
          by_contra hne
          exact hp (hall p le_rfl (by omega))

/-- The loop reads every byte up to the one that it ends at. -/
theorem within_skipPadding :
    Within n (skipPadding left p) b ↔
      ∀ i, p ≤ i → i ≤ p + left → (∀ j, p ≤ j → j < i → b j = 0xFF) → i < n := by
  induction left generalizing p with
  | zero =>
      have hread : Within n (skipPadding 0 p) b ↔ p < n := by
        simp only [skipPadding, within_bind, within_readByte, result_readByte, Option.some.injEq,
          forall_eq', and_iff_left_iff_imp]
        intro _
        split_ifs
        · exact within_fail
        · exact within_pure
      rw [hread]
      constructor
      · intro hp i hle hge _
        omega
      · exact fun hall => hall p le_rfl (by omega) fun j hle hlt => by omega
  | succ left ih =>
      simp only [skipPadding, within_bind, within_readByte, result_readByte, Option.some.injEq,
        forall_eq']
      constructor
      · rintro ⟨hp, hrest⟩ i hle hge hall
        rcases eq_or_lt_of_le hle with rfl | hlt
        · exact hp
        · rw [if_pos (hall p le_rfl hlt), ih] at hrest
          exact hrest i hlt (by omega) fun j hpj hji => hall j (by omega) hji
      · refine fun hall => ⟨hall p le_rfl (by omega) fun j hle hlt => by omega, ?_⟩
        split_ifs with hp
        · refine ih.mpr fun i hle hge hpad => hall i (by omega) (by omega) fun j hpj hji => ?_
          rcases eq_or_lt_of_le hpj with rfl | hlt
          · exact hp
          · exact hpad j hlt hji
        · exact within_pure

/-! ## The digest -/

theorem result_digestCheck {nDec : ℤ} :
    (rsaVerifyV15DigestCheck header size nDec nHashLen p pbHash).result b = some () ↔
      nDec = (header.length + size : ℕ) ∧ nHashLen = size ∧
        bytes b p (header.length + size) = header ++ bytes pbHash 0 size := by
  simp only [rsaVerifyV15DigestCheck, result_bind, result_check, result_read, Option.some.injEq,
    exists_eq_left', exists_const]
  rw [bytes_add]
  constructor
  · rintro ⟨hdec, hlen, hheader, hhash⟩
    exact ⟨by push_cast; omega, hlen, by rw [hheader, hhash]⟩
  · rintro ⟨hdec, hlen, heq⟩
    obtain ⟨hheader, hhash⟩ := List.append_inj heq length_bytes
    exact ⟨by push_cast at hdec; omega, hlen, hheader, hhash⟩

/-- The data is compared only when it has the length of the header and the
digest. -/
theorem within_digestCheck {nDec : ℤ} (hn : nDec = (header.length + size : ℕ) →
    p + (header.length + size) ≤ n) :
    Within n (rsaVerifyV15DigestCheck header size nDec nHashLen p pbHash) b := by
  simp only [rsaVerifyV15DigestCheck, within_bind, within_check, within_read, result_check,
    result_read, Option.some.injEq, forall_eq', true_and, forall_const, and_true]
  intro hdec hlen
  have hle := hn (by push_cast; omega)
  exact ⟨by omega, fun _ => by omega⟩

/-- A length that is at least -1 is not changed by the conversion to 32 bits, as
far as the lengths of a digest go. -/
theorem nDec_eq {m : ℕ} (hp : p ≤ len.toNat) (hm : m < 2 ^ 31) :
    Int.bmod ((len.toNat : ℤ) - (p + 1 : ℕ)) (2 ^ 32) = (m : ℕ) ↔ len.toNat = p + 1 + m := by
  have hlen := len.toNat_lt
  rw [Int.bmod_def]
  split_ifs <;> omega

theorem exists_digestInfo {P : List UInt8 → ℕ → Prop}
    (hinfo : digestInfo hashAlgo = some (header, size)) :
    (∃ header size, digestInfo hashAlgo = some (header, size) ∧ P header size) ↔
      P header size := by
  constructor
  · rintro ⟨header', size', heq, h⟩
    cases hinfo.symm.trans heq
    exact h
  · exact fun h => ⟨header, size, hinfo, h⟩

/-! ## The block -/

/-- The data after the byte at `i` are the header and the hash. -/
def DigestData (len nHashLen : ℕ) (pbHash b : ℕ → UInt8) (i : ℕ) (header : List UInt8)
    (size : ℕ) : Prop :=
  nHashLen = size ∧ len = i + 1 + (header.length + size) ∧
    bytes b (i + 1) (header.length + size) = header ++ bytes pbHash 0 size

theorem result_digestSwitch (hi : i ≤ len.toNat) {nDec : ℤ}
    (hdec : nDec = Int.bmod ((len.toNat : ℤ) - (i + 1 : ℕ)) (2 ^ 32)) :
    (if hashAlgo = CMSCBB_HASH_SHA256 then rsaVerifyV15Sha256Check nDec nHashLen (i + 1) pbHash
      else if hashAlgo = CMSCBB_HASH_SHA512 then
        rsaVerifyV15Sha512Check nDec nHashLen (i + 1) pbHash
      else fail).result b = some () ↔
    ∃ header size, digestInfo hashAlgo = some (header, size) ∧
      DigestData len.toNat nHashLen pbHash b i header size := by
  have hcheck {header : List UInt8} {size : ℕ} (hsmall : header.length + size < 2 ^ 31) :
      (rsaVerifyV15DigestCheck header size nDec nHashLen (i + 1) pbHash).result b = some () ↔
        DigestData len.toNat nHashLen pbHash b i header size := by
    rw [result_digestCheck, hdec, nDec_eq hi hsmall]
    exact and_left_comm
  by_cases h256 : hashAlgo = CMSCBB_HASH_SHA256
  · rw [if_pos h256, rsaVerifyV15Sha256Check, hcheck (by decide)]
    exact (exists_digestInfo (if_pos h256)).symm
  · by_cases h512 : hashAlgo = CMSCBB_HASH_SHA512
    · rw [if_neg h256, if_pos h512, rsaVerifyV15Sha512Check, hcheck (by decide)]
      exact (exists_digestInfo ((if_neg h256).trans (if_pos h512))).symm
    · rw [if_neg h256, if_neg h512]
      simp [digestInfo, h256, h512]

/-- The first byte is 1, bytes 255 follow up to the one before `i`, which is 0,
and the data after `i` are checked. -/
theorem result_rsaVerifyV15 :
    (rsaVerifyV15 len hashAlgo pbHash nHashLen).result b = some () ↔
      b 0 = 0x01 ∧ ∃ i, (∀ j, 1 ≤ j → j < i → b j = 0xFF) ∧ 10 < i ∧ b i = 0x00 ∧
        ∃ header size, digestInfo hashAlgo = some (header, size) ∧
          DigestData len.toNat nHashLen pbHash b i header size := by
  simp only [rsaVerifyV15, result_bind, result_readByte, Option.some.injEq, exists_eq_left',
    result_check, exists_const, result_skipPadding]
  refine and_congr_right fun hflag => ⟨?_, ?_⟩
  · rintro ⟨i, ⟨⟨hle, hge⟩, -, hpad⟩, hten, hzero, hdigest⟩
    have hi : i ≤ len.toNat := by omega
    exact ⟨i, hpad, by omega, hzero, (result_digestSwitch hi rfl).mp hdigest⟩
  · rintro ⟨i, hpad, hten, hzero, hdigest⟩
    have hi : i ≤ len.toNat := by
      obtain ⟨header, size, -, -, hlen, -⟩ := hdigest
      omega
    refine ⟨i, ⟨⟨by omega, by omega⟩, ?_, hpad⟩, by omega, hzero,
      (result_digestSwitch hi rfl).mpr hdigest⟩
    rw [hzero]
    decide

theorem v15Encoding_iff {hash : List UInt8} (hhash : hash.length = size) :
    V15Encoding (bytes b 0 n) header hash ↔
      b 0 = 0x01 ∧ ∃ i, (∀ j, 1 ≤ j → j < i → b j = 0xFF) ∧ 10 < i ∧ b i = 0x00 ∧
        n = i + 1 + (header.length + size) ∧
        bytes b (i + 1) (header.length + size) = header ++ hash := by
  have hsplit (i m : ℕ) : bytes b 0 (i + 1 + 1 + m) =
      b 0 :: (bytes b 1 i ++ b (i + 1) :: bytes b (i + 1 + 1) m) := by
    rw [bytes_add, bytes_add, add_comm i 1, bytes_add]
    simp [bytes, add_comm]
  constructor
  · rintro ⟨k, hk, heq⟩
    have hn : n = k + 1 + 1 + (header.length + size) := by
      have hlen := congrArg List.length heq
      simp only [length_bytes, List.length_cons, List.length_append, List.length_replicate] at hlen
      omega
    rw [hn, hsplit, List.cons.injEq] at heq
    obtain ⟨hpad, hrest⟩ := List.append_inj heq.2 (by simp)
    obtain ⟨hzero, hdata⟩ := List.cons.injEq _ _ _ _ ▸ hrest
    refine ⟨heq.1, k + 1, fun j hle hlt => ?_, by omega, hzero, hn, hdata⟩
    exact bytes_eq_replicate.mp hpad j hle (by omega)
  · rintro ⟨hflag, i, hpad, hten, hzero, hn, hdata⟩
    obtain ⟨k, rfl⟩ : ∃ k, i = k + 1 := ⟨i - 1, by omega⟩
    refine ⟨k, by omega, ?_⟩
    rw [hn, hsplit, hflag, hzero, hdata,
      bytes_eq_replicate.mpr fun j hle hlt => hpad j hle (by omega)]

theorem accepts_rsaVerifyV15 :
    (rsaVerifyV15 len hashAlgo pbHash nHashLen).result b = some () ↔
      ∃ header size, digestInfo hashAlgo = some (header, size) ∧ nHashLen = size ∧
        V15Encoding (bytes b 0 len.toNat) header (bytes pbHash 0 size) := by
  rw [result_rsaVerifyV15]
  constructor
  · rintro ⟨hflag, i, hpad, hten, hzero, header, size, hinfo, hlen, hdata⟩
    exact ⟨header, size, hinfo, hlen,
      (v15Encoding_iff length_bytes).mpr ⟨hflag, i, hpad, hten, hzero, hdata⟩⟩
  · rintro ⟨header, size, hinfo, hlen, henc⟩
    obtain ⟨hflag, i, hpad, hten, hzero, hdata⟩ := (v15Encoding_iff length_bytes).mp henc
    exact ⟨hflag, i, hpad, hten, hzero, header, size, hinfo, hlen, hdata⟩

/-- The bytes after the first one are read up to the first that is not 255. -/
theorem within_rsaVerifyV15 :
    Within len.toNat (rsaVerifyV15 len hashAlgo pbHash nHashLen) b ↔
      0 < len.toNat ∧ (b 0 ≠ 0x01 ∨ ∃ i, 0 < i ∧ i < len.toNat ∧ b i ≠ 0xFF) := by
  simp only [rsaVerifyV15, within_bind, within_readByte, result_readByte, Option.some.injEq,
    forall_eq', within_check, true_and, result_check, forall_const, within_skipPadding,
    result_skipPadding]
  refine and_congr_right fun hlen => ?_
  constructor
  · rintro hall
    by_cases hflag : b 0 = 0x01
    · right
      by_contra hnone
      have hpad : ∀ j, 1 ≤ j → j < len.toNat → b j = 0xFF := fun j hle hlt => by
        by_contra hne
        exact hnone ⟨j, hle, hlt, hne⟩
      exact lt_irrefl _ ((hall hflag).1 len.toNat hlen (by omega) hpad)
    · exact Or.inl hflag
  · rintro hcond hflag
    obtain ⟨k, hk, hklt, hkne⟩ := hcond.resolve_left (not_not.mpr hflag)
    have hstop {i : ℕ} (hpad : ∀ j, 1 ≤ j → j < i → b j = 0xFF) : i < len.toNat := by
      by_contra hge
      exact hkne (hpad k hk (by omega))
    refine ⟨fun i _ _ hpad => hstop hpad, ?_⟩
    rintro i ⟨-, -, hpad⟩ -
    have hi := hstop hpad
    refine ⟨hi, fun _ => ?_⟩
    have hdata {header : List UInt8} {size : ℕ} (hsmall : header.length + size < 2 ^ 31) :
        Int.bmod ((len.toNat : ℤ) - (i + 1 : ℕ)) (2 ^ 32) = (header.length + size : ℕ) →
          i + 1 + (header.length + size) ≤ len.toNat :=
      fun hdec => ((nDec_eq hi.le hsmall).mp hdec).ge
    split_ifs
    · exact within_digestCheck (hdata (by decide))
    · exact within_digestCheck (hdata (by decide))
    · exact within_fail

/-- The check is exact and stays inside the block unless the block is empty or
holds nothing but bytes 255 after a byte 1. -/
theorem v15Exact_iff (len : UInt32) (hashAlgo : ℕ) (pbHash : ℕ → UInt8) (nHashLen : ℕ)
    (b : ℕ → UInt8) :
    V15Exact len hashAlgo pbHash nHashLen b ↔
      0 < len.toNat ∧ (b 0 ≠ 0x01 ∨ ∃ i, 0 < i ∧ i < len.toNat ∧ b i ≠ 0xFF) :=
  ⟨fun h => within_rsaVerifyV15.mp h.inside,
    fun h => ⟨accepts_rsaVerifyV15, within_rsaVerifyV15.mpr h⟩⟩

/-- A block of one byte 1. -/
theorem padding_overruns :
    ¬ V15Exact 1 CMSCBB_HASH_SHA256 (fun _ => 0) DIGEST_SIZE_SHA256 (fun _ => 1) := by
  intro h
  exact absurd h.inside (by decide)

end OpiaiKernel.Pkicms.RsaV15
