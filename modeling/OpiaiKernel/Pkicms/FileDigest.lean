import Mathlib.Algebra.Order.Ring.Int
import Mathlib.Data.List.TakeDrop
import Mathlib.Tactic.Common

/-!
# The digest of a part of a file

A part of a file is hashed in chunks.  A read that returns fewer bytes than it is
asked for counts as the end of the file, and the digest of what has been read so
far is returned as the digest of the part.

The functions are translated from `pkicms_common.c`.
-/

namespace OpiaiKernel.Pkicms

namespace FileDigest

def SEC_IMG_VERIFY_MAX_SIZE : ℕ := 0x400000

inductive DigestError
  | eio
  | einval
  | enomem
  | sha256
  deriving DecidableEq

/-- The file, and the answers of the kernel: the number of bytes that a read
returns at most, where it does not fail. -/
structure FileEnv where
  file : List UInt8
  size : file.length < 2 ^ 63
  sha256Init : Bool
  vmalloc : Bool
  opens : Bool
  seeks : Bool
  read : ℕ → Option ℕ
  sha256Update : ℕ → Bool
  sha256Final : Bool

variable (E : FileEnv)

/-- `read_mdc_package_content` for the `k`th read, which starts at `pos`. -/
def readMdcPackageContent (k pos len : ℕ) : Option ℕ :=
  (E.read k).map fun n => min n (min len (E.file.length - pos))

def fileBytes (pos n : ℕ) : List UInt8 := (E.file.drop pos).take n

/-- `content_offset + content_length` in unsigned arithmetic. -/
def contentEnd (contentOffset : ℤ) (contentLength : ℕ) : ℕ :=
  ((contentOffset + contentLength) % 2 ^ 64).toNat

/-- The length of the chunk at `offset`, a 32-bit integer. -/
def chunkLen (stop offset : ℕ) : ℤ :=
  if stop < offset + SEC_IMG_VERIFY_MAX_SIZE then Int.bmod (stop - offset) (2 ^ 32)
  else SEC_IMG_VERIFY_MAX_SIZE

/-- `pkicms_calc_hashcode`, with what has been hashed so far. -/
def pkicmsCalcHashcode (stop : ℕ) :
    (fuel k offset : ℕ) → List UInt8 → Option (Except DigestError (List UInt8))
  | 0, _, _, _ => none
  | fuel + 1, k, offset, msg =>
    let readLen := chunkLen stop offset
    if SEC_IMG_VERIFY_MAX_SIZE < readLen ∨ readLen < 0 then some (.error .eio)
    else
      match readMdcPackageContent E k offset readLen.toNat with
      | none => some (.error .eio)
      | some n =>
        if n = 0 then some (.error .eio)
        else if E.sha256Update k = false then some (.error .einval)
        else if n < readLen.toNat then some (.ok (msg ++ fileBytes E offset n))
        else if stop ≤ offset + n then some (.ok (msg ++ fileBytes E offset n))
        else pkicmsCalcHashcode stop fuel (k + 1) (offset + n) (msg ++ fileBytes E offset n)

/-- `lseek_local_file` to a place after the start of the file. -/
def lseekLocalFile (offset : ℤ) : Bool :=
  if (E.file.length : ℤ) < offset then false else E.seeks

/-- `pkicms_calc_file_hashcode`; a chunk that is not the last one has at least one
byte. -/
def pkicmsCalcFileHashcode (contentOffset : ℤ) (contentLength : ℕ) :
    Option (Except DigestError (List UInt8)) :=
  if E.vmalloc = false then some (.error .enomem)
  else if E.opens = false then some (.error .eio)
  else if 0 < contentOffset ∧ lseekLocalFile E contentOffset = false then some (.error .eio)
  else pkicmsCalcHashcode E (contentEnd contentOffset contentLength) (E.file.length + 1) 0
    contentOffset.toNat []

/-- `pkicms_calc_digest`; the digest is given by the message that it is the hash
of. -/
def pkicmsCalcDigest (contentOffset : ℤ) (contentLength : ℕ) :
    Option (Except DigestError (List UInt8)) :=
  if E.sha256Init = false then some (.error .sha256)
  else
    match pkicmsCalcFileHashcode E contentOffset contentLength with
    | none => none
    | some (.error e) => some (.error e)
    | some (.ok msg) => if E.sha256Final = false then some (.error .sha256) else some (.ok msg)

/-! ## Exact digests -/

/-- The bytes from `contentOffset` on are in the file. -/
def InFile (contentOffset : ℤ) (contentLength : ℕ) : Prop :=
  0 ≤ contentOffset ∧ contentOffset + contentLength ≤ E.file.length

/-- A digest that is returned is the one of the part that has been asked for, and
a part that the file does not have is an error. -/
structure DigestExact (contentOffset : ℤ) (contentLength : ℕ) : Prop where
  returns : pkicmsCalcDigest E contentOffset contentLength ≠ none
  digest : ∀ msg, pkicmsCalcDigest E contentOffset contentLength = some (.ok msg) →
    InFile E contentOffset contentLength ∧
      msg = fileBytes E contentOffset.toNat contentLength
  missing : ¬ InFile E contentOffset contentLength →
    ∃ e, pkicmsCalcDigest E contentOffset contentLength = some (.error e)

/-- The first chunks are read in full, up to the `k`th, and are not the last ones;
of the `k`th chunk `n` bytes are read, and it is the last one, or not read in
full. -/
structure LastChunk (stop start k n : ℕ) : Prop where
  full : ∀ j < k, start + (j + 1) * SEC_IMG_VERIFY_MAX_SIZE < stop ∧
    readMdcPackageContent E j (start + j * SEC_IMG_VERIFY_MAX_SIZE) SEC_IMG_VERIFY_MAX_SIZE =
      some SEC_IMG_VERIFY_MAX_SIZE
  update : ∀ j ≤ k, E.sha256Update j = true
  valid : chunkLen stop (start + k * SEC_IMG_VERIFY_MAX_SIZE) ≤ SEC_IMG_VERIFY_MAX_SIZE
  read : readMdcPackageContent E k (start + k * SEC_IMG_VERIFY_MAX_SIZE)
    (chunkLen stop (start + k * SEC_IMG_VERIFY_MAX_SIZE)).toNat = some n
  pos : 0 < n
  last : (n : ℤ) < chunkLen stop (start + k * SEC_IMG_VERIFY_MAX_SIZE) ∨
    stop ≤ start + k * SEC_IMG_VERIFY_MAX_SIZE + n

/-- The kernel lets the file be hashed. -/
structure Hashable (contentOffset : ℤ) : Prop where
  init : E.sha256Init = true
  alloc : E.vmalloc = true
  opens : E.opens = true
  seeks : 0 < contentOffset → lseekLocalFile E contentOffset = true
  final : E.sha256Final = true

variable {E} {stop start k n pos len fuel : ℕ} {msg m : List UInt8} {contentOffset : ℤ}
  {contentLength : ℕ}

/-! ## Reads -/

theorem le_of_read (h : readMdcPackageContent E k pos len = some n) :
    n ≤ len ∧ n ≤ E.file.length - pos := by
  obtain ⟨x, -, rfl⟩ := Option.map_eq_some_iff.mp h
  omega

theorem length_fileBytes : (fileBytes E pos n).length = min n (E.file.length - pos) := by
  simp [fileBytes]

theorem fileBytes_add :
    fileBytes E pos n ++ fileBytes E (pos + n) len = fileBytes E pos (n + len) := by
  simp [fileBytes, List.take_add, List.drop_drop]

theorem chunkLen_full (h : pos + SEC_IMG_VERIFY_MAX_SIZE ≤ stop) :
    chunkLen stop pos = SEC_IMG_VERIFY_MAX_SIZE :=
  if_neg (by omega)

/-- The last chunk of a part. -/
theorem chunkLen_last (hle : pos ≤ stop) (hlt : stop < pos + SEC_IMG_VERIFY_MAX_SIZE) :
    chunkLen stop pos = stop - pos := by
  simp only [SEC_IMG_VERIFY_MAX_SIZE] at hlt
  rw [chunkLen, if_pos (by simpa only [SEC_IMG_VERIFY_MAX_SIZE] using hlt), Int.bmod_def]
  split_ifs <;> omega

/-- Either the chunk is the last one, or it is read in full. -/
theorem LastChunk.cases {k' : ℕ} (h : LastChunk E stop start k' n) (hk : k ≤ k') :
    k' = k ∨ (chunkLen stop (start + k * SEC_IMG_VERIFY_MAX_SIZE) = SEC_IMG_VERIFY_MAX_SIZE ∧
      start + (k + 1) * SEC_IMG_VERIFY_MAX_SIZE < stop ∧
      readMdcPackageContent E k (start + k * SEC_IMG_VERIFY_MAX_SIZE) SEC_IMG_VERIFY_MAX_SIZE =
        some SEC_IMG_VERIFY_MAX_SIZE) := by
  rcases Nat.eq_or_lt_of_le hk with heq | hlt
  · exact Or.inl heq.symm
  · obtain ⟨hstop, hread⟩ := h.full k hlt
    exact Or.inr ⟨chunkLen_full (by rw [Nat.add_mul] at hstop; omega), hstop, hread⟩

/-- The outcomes of the loop from the `k`th chunk on. -/
def Outcomes (E : FileEnv) (stop start k pos : ℕ) (msg : List UInt8)
    (res : Option (Except DigestError (List UInt8))) : Prop :=
  res ≠ none ∧ ∀ m, res = some (.ok m) ↔
    ∃ k' n, k ≤ k' ∧ LastChunk E stop start k' n ∧
      m = msg ++ fileBytes E pos ((k' - k) * SEC_IMG_VERIFY_MAX_SIZE + n)

theorem outcomes_error {e : DigestError}
    (hno : ∀ k' n, k ≤ k' → ¬ LastChunk E stop start k' n) :
    Outcomes E stop start k pos msg (some (.error e)) := by
  refine ⟨Option.some_ne_none _, fun m => iff_of_false (by simp) ?_⟩
  rintro ⟨k', n, hk, hlast, -⟩
  exact hno k' n hk hlast

theorem outcomes_ok (hlast : LastChunk E stop start k n)
    (honly : ∀ k' n', k ≤ k' → LastChunk E stop start k' n' → k' = k ∧ n' = n) :
    Outcomes E stop start k pos msg (some (.ok (msg ++ fileBytes E pos n))) := by
  refine ⟨Option.some_ne_none _, fun m => ?_⟩
  simp only [Option.some.injEq, Except.ok.injEq]
  constructor
  · rintro rfl
    exact ⟨k, n, Nat.le_refl k, hlast, by simp⟩
  · rintro ⟨k', n', hk, hlast', rfl⟩
    obtain ⟨rfl, rfl⟩ := honly k' n' hk hlast'
    simp

/-- What the loop returns from the `k`th chunk on, when those before have been
read in full. -/
theorem pkicmsCalcHashcode_outcomes
    (hfull : ∀ j < k, start + (j + 1) * SEC_IMG_VERIFY_MAX_SIZE < stop ∧
      readMdcPackageContent E j (start + j * SEC_IMG_VERIFY_MAX_SIZE) SEC_IMG_VERIFY_MAX_SIZE =
        some SEC_IMG_VERIFY_MAX_SIZE)
    (hupdate : ∀ j < k, E.sha256Update j = true)
    (hpos : pos = start + k * SEC_IMG_VERIFY_MAX_SIZE) (hfuel : E.file.length < pos + fuel)
    (hend : pos ≤ E.file.length) :
    Outcomes E stop start k pos msg (pkicmsCalcHashcode E stop fuel k pos msg) := by
  induction fuel generalizing k pos msg with
  | zero => omega
  | succ fuel ih =>
      have hcases {k' n' : ℕ} (hk : k ≤ k') (h : LastChunk E stop start k' n') :
          k' = k ∨ (chunkLen stop pos = SEC_IMG_VERIFY_MAX_SIZE ∧
            pos + SEC_IMG_VERIFY_MAX_SIZE < stop ∧
            readMdcPackageContent E k pos SEC_IMG_VERIFY_MAX_SIZE =
              some SEC_IMG_VERIFY_MAX_SIZE) := by
        have h := h.cases hk
        rw [Nat.add_mul, ← Nat.add_assoc, ← hpos] at h
        simpa using h
      rw [pkicmsCalcHashcode]
      by_cases hvalid : (SEC_IMG_VERIFY_MAX_SIZE : ℤ) < chunkLen stop pos ∨ chunkLen stop pos < 0
      · rw [if_pos hvalid]
        refine outcomes_error fun k' n' hk h => ?_
        rcases hcases hk h with rfl | ⟨hmax, -, -⟩
        · have hle := h.valid
          have hread := le_of_read h.read
          have hn := h.pos
          rw [← hpos] at hle hread
          omega
        · omega
      · rw [if_neg hvalid]
        cases hread : readMdcPackageContent E k pos (chunkLen stop pos).toNat with
        | none =>
            refine outcomes_error fun k' n' hk h => ?_
            rcases hcases hk h with rfl | ⟨hmax, -, hfullk⟩
            · have hsome := h.read
              rw [← hpos, hread] at hsome
              cases hsome
            · rw [hmax, Int.toNat_natCast, hfullk] at hread
              cases hread
        | some n =>
            have hbound := le_of_read hread
            have hsame {k' n' : ℕ} (hk : k ≤ k') (h : LastChunk E stop start k' n') :
                k' = k ∧ n' = n ∨ (chunkLen stop pos = SEC_IMG_VERIFY_MAX_SIZE ∧
                  pos + SEC_IMG_VERIFY_MAX_SIZE < stop ∧ n = SEC_IMG_VERIFY_MAX_SIZE) := by
              rcases hcases hk h with rfl | ⟨hmax, hlt, hfullk⟩
              · have hsome := h.read
                rw [← hpos, hread] at hsome
                exact Or.inl ⟨rfl, (Option.some.inj hsome).symm⟩
              · rw [hmax, Int.toNat_natCast, hfullk] at hread
                exact Or.inr ⟨hmax, hlt, (Option.some.inj hread).symm⟩
            have hlast (hn : n ≠ 0) (hup : E.sha256Update k ≠ false)
                (hdone : (n : ℤ) < chunkLen stop pos ∨ stop ≤ pos + n) :
                LastChunk E stop start k n := by
              refine ⟨hfull, fun j hj => ?_, ?_, ?_, by omega, ?_⟩
              · rcases Nat.eq_or_lt_of_le hj with rfl | hlt
                · simpa using hup
                · exact hupdate j hlt
              · rw [← hpos]
                omega
              · rw [← hpos, hread]
              · rwa [← hpos]
            dsimp only
            split_ifs with hzero hup hshort hstop
            · refine outcomes_error fun k' n' hk h => ?_
              rcases hsame hk h with ⟨rfl, rfl⟩ | ⟨-, -, hn⟩
              · exact absurd hzero (Nat.pos_iff_ne_zero.mp h.pos)
              · exact absurd (hn.symm.trans hzero) (by decide)
            · refine outcomes_error fun k' n' hk h => ?_
              rw [h.update k hk] at hup
              cases hup
            · refine outcomes_ok (hlast hzero hup (Or.inl (by omega))) fun k' n' hk h => ?_
              rcases hsame hk h with heq | ⟨hmax, -, hn⟩
              · exact heq
              · omega
            · refine outcomes_ok (hlast hzero hup (Or.inr hstop)) fun k' n' hk h => ?_
              rcases hsame hk h with heq | ⟨hmax, hlt, hn⟩
              · exact heq
              · omega
            -- the chunk has been read in full and is not the last one
            · have hge : pos + SEC_IMG_VERIFY_MAX_SIZE ≤ stop := by
                by_contra hlt
                have hchunk : chunkLen stop pos = stop - pos := chunkLen_last (by omega) (by omega)
                omega
              have hmax := chunkLen_full hge
              obtain rfl : n = SEC_IMG_VERIFY_MAX_SIZE := by omega
              have hrest : Outcomes E stop start (k + 1) (pos + SEC_IMG_VERIFY_MAX_SIZE)
                  (msg ++ fileBytes E pos SEC_IMG_VERIFY_MAX_SIZE)
                  (pkicmsCalcHashcode E stop fuel (k + 1) (pos + SEC_IMG_VERIFY_MAX_SIZE)
                    (msg ++ fileBytes E pos SEC_IMG_VERIFY_MAX_SIZE)) :=
                ih (fun j hj => ?_) (fun j hj => ?_) (by rw [hpos, Nat.add_mul]; omega)
                  (by omega) (by omega)
              · refine ⟨hrest.1, fun m => (hrest.2 m).trans ?_⟩
                constructor
                · rintro ⟨k', n', hk, hlast', rfl⟩
                  refine ⟨k', n', by omega, hlast', ?_⟩
                  rw [List.append_assoc, fileBytes_add,
                    show k' - k = k' - (k + 1) + 1 by omega, Nat.add_mul]
                  congr 2
                  omega
                · rintro ⟨k', n', hk, hlast', rfl⟩
                  have hne : k' ≠ k := by
                    rintro rfl
                    have hread' := hlast'.read
                    have hend' := hlast'.last
                    rw [← hpos, hread, Option.some.injEq] at hread'
                    rw [← hpos] at hend'
                    omega
                  refine ⟨k', n', by omega, hlast', ?_⟩
                  rw [List.append_assoc, fileBytes_add,
                    show k' - k = k' - (k + 1) + 1 by omega, Nat.add_mul]
                  congr 2
                  omega
              · rcases Nat.lt_succ_iff_lt_or_eq.mp hj with hlt | rfl
                · exact hfull j hlt
                · rw [hmax, Int.toNat_natCast] at hread
                  rw [Nat.add_mul, ← Nat.add_assoc, ← hpos, Nat.one_mul]
                  exact ⟨by omega, hread⟩
              · rcases Nat.lt_succ_iff_lt_or_eq.mp hj with hlt | rfl
                · exact hupdate j hlt
                · simpa using hup

/-! ## The digest -/

theorem hashcode_outcomes (stop : ℕ)
    (hseek : ¬ (0 < contentOffset ∧ lseekLocalFile E contentOffset = false)) :
    Outcomes E stop contentOffset.toNat 0 contentOffset.toNat []
      (pkicmsCalcHashcode E stop (E.file.length + 1) 0 contentOffset.toNat []) := by
  have hstart : contentOffset.toNat ≤ E.file.length := by
    rcases Int.lt_or_le 0 contentOffset with hpos | hneg
    · have hok : lseekLocalFile E contentOffset ≠ false := fun hfail => hseek ⟨hpos, hfail⟩
      rw [lseekLocalFile] at hok
      split_ifs at hok
      · exact absurd rfl hok
      · omega
    · omega
  exact pkicmsCalcHashcode_outcomes (fun j hj => absurd hj (Nat.not_lt_zero j))
    (fun j hj => absurd hj (Nat.not_lt_zero j)) (by omega) (by omega) hstart

theorem hashable_iff :
    Hashable E contentOffset ↔ E.sha256Init ≠ false ∧ E.vmalloc ≠ false ∧ E.opens ≠ false ∧
      ¬ (0 < contentOffset ∧ lseekLocalFile E contentOffset = false) ∧ E.sha256Final ≠ false := by
  constructor
  · rintro ⟨hinit, halloc, hopen, hseek, hfinal⟩
    refine ⟨by simp [hinit], by simp [halloc], by simp [hopen], ?_, by simp [hfinal]⟩
    rintro ⟨hpos, hfail⟩
    rw [hseek hpos] at hfail
    cases hfail
  · rintro ⟨hinit, halloc, hopen, hseek, hfinal⟩
    refine ⟨by simpa using hinit, by simpa using halloc, by simpa using hopen, fun hpos => ?_,
      by simpa using hfinal⟩
    by_contra hfail
    exact hseek ⟨hpos, by simpa using hfail⟩

/-- A digest is returned after the last chunk. -/
theorem pkicmsCalcDigest_outcomes (E : FileEnv) (contentOffset : ℤ) (contentLength : ℕ) :
    pkicmsCalcDigest E contentOffset contentLength ≠ none ∧
      ∀ m, pkicmsCalcDigest E contentOffset contentLength = some (.ok m) ↔
        Hashable E contentOffset ∧ ∃ k n,
          LastChunk E (contentEnd contentOffset contentLength) contentOffset.toNat k n ∧
            m = fileBytes E contentOffset.toNat (k * SEC_IMG_VERIFY_MAX_SIZE + n) := by
  have hfails {e : DigestError} (hno : ¬ Hashable E contentOffset)
      (hres : pkicmsCalcDigest E contentOffset contentLength = some (.error e)) :
      pkicmsCalcDigest E contentOffset contentLength ≠ none ∧
        ∀ m, pkicmsCalcDigest E contentOffset contentLength = some (.ok m) ↔
          Hashable E contentOffset ∧ ∃ k n,
            LastChunk E (contentEnd contentOffset contentLength) contentOffset.toNat k n ∧
              m = fileBytes E contentOffset.toNat (k * SEC_IMG_VERIFY_MAX_SIZE + n) := by
    rw [hres]
    exact ⟨Option.some_ne_none _, fun m => iff_of_false (by simp) fun h => hno h.1⟩
  by_cases hinit : E.sha256Init = false
  · exact hfails (fun h => (hashable_iff.mp h).1 hinit) (if_pos hinit)
  by_cases halloc : E.vmalloc = false
  · refine hfails (e := .enomem) (fun h => (hashable_iff.mp h).2.1 halloc) ?_
    rw [pkicmsCalcDigest, if_neg hinit, pkicmsCalcFileHashcode, if_pos halloc]
  by_cases hopen : E.opens = false
  · refine hfails (e := .eio) (fun h => (hashable_iff.mp h).2.2.1 hopen) ?_
    rw [pkicmsCalcDigest, if_neg hinit, pkicmsCalcFileHashcode, if_neg halloc, if_pos hopen]
  by_cases hseek : 0 < contentOffset ∧ lseekLocalFile E contentOffset = false
  · refine hfails (e := .eio) (fun h => (hashable_iff.mp h).2.2.2.1 hseek) ?_
    rw [pkicmsCalcDigest, if_neg hinit, pkicmsCalcFileHashcode, if_neg halloc, if_neg hopen,
      if_pos hseek]
  obtain ⟨hreturns, hout⟩ := hashcode_outcomes (contentEnd contentOffset contentLength) hseek
  have hfile : pkicmsCalcFileHashcode E contentOffset contentLength =
      pkicmsCalcHashcode E (contentEnd contentOffset contentLength) (E.file.length + 1) 0
        contentOffset.toNat [] := by
    rw [pkicmsCalcFileHashcode, if_neg halloc, if_neg hopen, if_neg hseek]
  have hhash : Hashable E contentOffset ↔ E.sha256Final ≠ false := by
    rw [hashable_iff]
    exact ⟨fun h => h.2.2.2.2, fun h => ⟨hinit, halloc, hopen, hseek, h⟩⟩
  rw [← hfile] at hreturns hout
  rcases hloop : pkicmsCalcFileHashcode E contentOffset contentLength with _ | e | msg
  · exact absurd hloop hreturns
  · have hres : pkicmsCalcDigest E contentOffset contentLength = some (.error e) := by
      rw [pkicmsCalcDigest, if_neg hinit, hloop]
    rw [hres]
    refine ⟨Option.some_ne_none _, fun m => iff_of_false (by simp) ?_⟩
    rintro ⟨-, k, n, hlast, -⟩
    have hok := (hout _).mpr ⟨k, n, Nat.zero_le k, hlast, rfl⟩
    cases hloop.symm.trans hok
  · by_cases hfinal : E.sha256Final = false
    · refine hfails (e := .sha256) (fun h => hhash.mp h hfinal) ?_
      rw [pkicmsCalcDigest, if_neg hinit, hloop]
      exact if_pos hfinal
    · have hres : pkicmsCalcDigest E contentOffset contentLength = some (.ok msg) := by
        rw [pkicmsCalcDigest, if_neg hinit, hloop]
        exact if_neg hfinal
      rw [hres, ← hloop]
      refine ⟨hreturns, fun m => (hout m).trans ?_⟩
      constructor
      · rintro ⟨k, n, -, hlast, hm⟩
        rw [List.nil_append, Nat.sub_zero] at hm
        exact ⟨hhash.mpr hfinal, k, n, hlast, hm⟩
      · rintro ⟨-, k, n, hlast, hm⟩
        refine ⟨k, n, Nat.zero_le k, hlast, ?_⟩
        rw [List.nil_append, Nat.sub_zero]
        exact hm

/-- The part starts and ends where an unsigned offset can say. -/
def InRange (contentOffset : ℤ) (contentLength : ℕ) : Prop :=
  0 ≤ contentOffset ∧ contentOffset + contentLength < 2 ^ 64

theorem LastChunk.pos_le (h : LastChunk E stop start k n) (hle : start ≤ stop) :
    start + k * SEC_IMG_VERIFY_MAX_SIZE ≤ stop := by
  cases k with
  | zero => omega
  | succ k =>
      have hlt := (h.full k (Nat.lt_succ_self k)).1
      omega

/-- The last chunk is read in full exactly if it ends where the part ends. -/
theorem LastChunk.full_iff (h : LastChunk E stop start k n) (hle : start ≤ stop) :
    (n : ℤ) = chunkLen stop (start + k * SEC_IMG_VERIFY_MAX_SIZE) ↔
      start + k * SEC_IMG_VERIFY_MAX_SIZE + n = stop := by
  have hpos := h.pos_le hle
  have hn := (le_of_read h.read).1
  have hlast := h.last
  generalize start + k * SEC_IMG_VERIFY_MAX_SIZE = pos at hpos hn hlast ⊢
  rcases Nat.lt_or_ge stop (pos + SEC_IMG_VERIFY_MAX_SIZE) with hlt | hge
  · rw [chunkLen_last hpos hlt] at hn hlast ⊢
    omega
  · rw [chunkLen_full hge] at hn hlast ⊢
    omega

theorem contentEnd_of_inRange (h : InRange contentOffset contentLength) :
    contentEnd contentOffset contentLength = contentOffset.toNat + contentLength := by
  obtain ⟨hpos, hlt⟩ := h
  rw [contentEnd, Int.emod_eq_of_lt (by omega) hlt]
  omega

/-- Digests are exact unless a read returns some of the bytes that it is asked
for, but not all, or the part is out of range and the last read succeeds. -/
theorem digestExact_iff (E : FileEnv) (contentOffset : ℤ) (contentLength : ℕ) :
    DigestExact E contentOffset contentLength ↔
      (Hashable E contentOffset → ∀ k n,
        LastChunk E (contentEnd contentOffset contentLength) contentOffset.toNat k n →
          InRange contentOffset contentLength ∧
            (n : ℤ) = chunkLen (contentEnd contentOffset contentLength)
              (contentOffset.toNat + k * SEC_IMG_VERIFY_MAX_SIZE)) := by
  obtain ⟨hreturns, hout⟩ := pkicmsCalcDigest_outcomes E contentOffset contentLength
  constructor
  · intro h hhash k n hlast
    obtain ⟨hin, heq⟩ := h.digest _ ((hout _).mpr ⟨hhash, k, n, hlast, rfl⟩)
    have hrange : InRange contentOffset contentLength := by
      have hsize := E.size
      exact ⟨hin.1, by have hle := hin.2; omega⟩
    refine ⟨hrange, ?_⟩
    have hstop := contentEnd_of_inRange hrange
    refine (hlast.full_iff (by omega)).mpr ?_
    have hlen := congrArg List.length heq
    rw [length_fileBytes, length_fileBytes] at hlen
    have hread := (le_of_read hlast.read).2
    have hn := hlast.pos
    have hle := hin.2
    have hnonneg := hin.1
    omega
  · intro hcond
    have hdigest : ∀ msg, pkicmsCalcDigest E contentOffset contentLength = some (.ok msg) →
        InFile E contentOffset contentLength ∧
          msg = fileBytes E contentOffset.toNat contentLength := by
      intro msg hmsg
      obtain ⟨hhash, k, n, hlast, rfl⟩ := (hout msg).mp hmsg
      obtain ⟨hrange, hfull⟩ := hcond hhash k n hlast
      have hstop := contentEnd_of_inRange hrange
      have hend := (hlast.full_iff (by omega)).mp hfull
      have hread := (le_of_read hlast.read).2
      have hn := hlast.pos
      have hnonneg := hrange.1
      refine ⟨⟨hnonneg, by omega⟩, ?_⟩
      rw [show k * SEC_IMG_VERIFY_MAX_SIZE + n = contentLength by omega]
    refine ⟨hreturns, hdigest, fun hno => ?_⟩
    rcases hres : pkicmsCalcDigest E contentOffset contentLength with _ | e | msg
    · exact absurd hres hreturns
    · exact ⟨e, rfl⟩
    · exact absurd (hdigest msg hres).1 hno

/-- A file of two bytes, of which the first read returns one. -/
def shortRead : FileEnv where
  file := [1, 2]
  size := by decide
  sha256Init := true
  vmalloc := true
  opens := true
  seeks := true
  read := fun k => if k = 0 then some 1 else some 2
  sha256Update := fun _ => true
  sha256Final := true

theorem short_read_hashed : ¬ DigestExact shortRead 0 2 := by
  intro h
  have hres : pkicmsCalcDigest shortRead 0 2 = some (.ok [1]) := by decide +kernel
  have hdigest := (h.digest _ hres).2
  exact absurd hdigest (by decide)

end FileDigest

end OpiaiKernel.Pkicms
