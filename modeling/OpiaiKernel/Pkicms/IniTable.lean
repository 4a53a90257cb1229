import OpiaiKernel.Lib.Padded
import OpiaiKernel.Lib.Scan
import OpiaiKernel.Lib.Word
import OpiaiKernel.Pkicms.IniGrammar
import Mathlib.Data.List.Monad

/-!
# The table of a parsed file

The scan of a file counts tags and digests, and finds a digest backwards from its
semicolon.

The functions are translated from `pkicms.c`.
-/

namespace OpiaiKernel.Pkicms.Ini

open Scan Padded

abbrev STR_LEN_NUM : ℕ := 2

structure IniTable where
  tag : List UInt8
  hash : List UInt8
  deriving DecidableEq, Repr

def ch2hex (c : UInt8) : UInt8 :=
  if 0x30 ≤ c ∧ c ≤ 0x39 then c - 0x30 + 0
  else if 0x61 ≤ c ∧ c ≤ 0x66 then c - 0x61 + 10
  else if 0x41 ≤ c ∧ c ≤ 0x46 then c - 0x41 + 10
  else 0

/-- The loop of `str2hex`. -/
def hexPairs : List UInt8 → List UInt8
  | a :: c :: str => (((ch2hex a <<< 4) &&& 0xF0) + ch2hex c) :: hexPairs str
  | _ => []

def str2hex (str : List UInt8) (hexLen : ℕ) : Option (List UInt8) :=
  if str.length = 0 then none
  else if str.length % STR_LEN_NUM ≠ 0 then none
  else if hexLen < str.length >>> 1 then none
  else some (hexPairs str)

/-- `tagStart` is a position in the buffer. -/
def pkicmsParseIniTag (tagIndex endIndex tagStart : ℕ) (table : List IniTable) :
    Scan (List IniTable) := do
  check (¬ tagIndex ≥ IMAGE_NUMS)
  let tagSize := Word.sub 32 endIndex tagStart
  check (¬ (tagSize > TAG_MAX_SIZE ∨ tagSize = 0))
  let tag ← read tagStart tagSize
  pure (table.modify tagIndex fun t => { t with tag := tag ++ t.tag.drop tagSize })

/-- The buffer does not lie in the first bytes of the address space, so that the
difference of the pointers does not wrap. -/
def pkicmsParseIniHashcode (endIndex imgIdx : ℕ) (table : List IniTable) :
    Scan (List IniTable) := do
  check (¬ imgIdx ≥ IMAGE_NUMS)
  check (¬ endIndex ≤ SHA256_LEN * 2)
  let str ← read (endIndex - SHA256_LEN * 2) (SHA256_LEN * 2)
  let hash ← answer (str2hex str SHA256_LEN)
  pure (table.modify imgIdx fun t => { t with hash })

structure ParseState where
  strIndex : ℕ
  tagIndex : ℕ
  tagStart : ℕ
  table : List IniTable
  deriving DecidableEq, Repr

def commaStep (i : ℕ) (s : ParseState) : Scan ParseState := do
  let table ← pkicmsParseIniTag s.tagIndex i s.tagStart s.table
  check (¬ s.tagIndex + 1 ≠ s.strIndex + 1)
  pure { s with tagIndex := s.tagIndex + 1, table }

def semicolonStep (i : ℕ) (s : ParseState) : Scan ParseState := do
  let table ← pkicmsParseIniHashcode i s.strIndex s.table
  check (¬ s.tagIndex ≠ s.strIndex + 1)
  pure { s with strIndex := s.strIndex + 1, tagStart := i + STR_LEN_NUM, table }

/-- The loop from byte `i` on, with `left` bytes left. -/
def parseLoop : (left i : ℕ) → ParseState → Scan (List IniTable)
  | 0, _, s => pure s.table
  | left + 1, i, s => do
      let c ← readByte i
      let s ← if c = comma then commaStep i s else pure s
      let c ← readByte i
      let s ← if c = semicolon then semicolonStep i s else pure s
      parseLoop left (i + 1) s

def pkicmsParseBootupIni (len : UInt32) (table : List IniTable) : Scan (List IniTable) :=
  parseLoop len.toNat 0 ⟨0, 0, 0, table⟩

def zeroEntry : IniTable := ⟨List.replicate TAG_MAX_SIZE 0, List.replicate SHA256_LEN 0⟩

/-- The table that `pkicms_get_hashcode_by_src` has cleared. -/
def zeroTable : List IniTable := List.replicate IMAGE_NUMS zeroEntry

/-! ## What a file says -/

def lowerDigits : List UInt8 :=
  [0x30, 0x31, 0x32, 0x33, 0x34, 0x35, 0x36, 0x37, 0x38, 0x39, 0x61, 0x62, 0x63, 0x64, 0x65, 0x66]

def upperDigits : List UInt8 :=
  [0x30, 0x31, 0x32, 0x33, 0x34, 0x35, 0x36, 0x37, 0x38, 0x39, 0x41, 0x42, 0x43, 0x44, 0x45, 0x46]

/-- The value of a hexadecimal digit. -/
def hexValue (c : UInt8) : Option ℕ := (lowerDigits.idxOf? c).or (upperDigits.idxOf? c)

/-- The bytes that a string of hexadecimal digits encodes. -/
def hexBytes : List UInt8 → Option (List UInt8)
  | [] => some []
  | [_] => none
  | a :: c :: str =>
      (hexValue a).bind fun x => (hexValue c).bind fun y =>
        (hexBytes str).map (UInt8.ofNat (16 * x + y) :: ·)

/-- The tag of an entry, and the digest that the last digits of its field encode. -/
def IniEntry.key (e : IniEntry) : Option (List UInt8 × List UInt8) :=
  if SHA256_LEN * 2 ≤ e.field.length then
    (hexBytes (e.field.drop (e.field.length - SHA256_LEN * 2))).map (e.tag, ·)
  else none

/-- A file of at most four entries, with these tags and digests. -/
def IniKeys (b : List UInt8) (ks : List (List UInt8 × List UInt8)) : Prop :=
  ∃ es, IniFile es b ∧ es.length ≤ IMAGE_NUMS ∧ es.map IniEntry.key = ks.map some

def keyEntry (k : List UInt8 × List UInt8) : IniTable := ⟨pad 0 TAG_MAX_SIZE k.1, k.2⟩

def tableOf (ks : List (List UInt8 × List UInt8)) : List IniTable :=
  pad zeroEntry IMAGE_NUMS (ks.map keyEntry)

variable {b : ℕ → UInt8} {i left k n : ℕ} {s : ParseState} {table : List IniTable}
  {str acc tag : List UInt8} {done : List IniTable} {phase : Phase} {es : List IniEntry}
  {o : Option (List UInt8)} {e : IniEntry}

/-! ## Digits -/

/-- `ch2hex` gives the value of a digit. -/
theorem ch2hex_of_digit : ∀ (c : Fin 256) (x : Fin 16),
    hexValue (UInt8.ofNat c.val) = some x.val → ch2hex (UInt8.ofNat c.val) = UInt8.ofNat x.val := by
  decide +kernel

theorem hexValue_lt : ∀ c : Fin 256, ∀ x ∈ hexValue (UInt8.ofNat c.val), x < 16 := by
  decide +kernel

theorem hexPair_eq : ∀ x y : Fin 16, ((UInt8.ofNat x.val <<< 4) &&& 0xF0) + UInt8.ofNat y.val =
    UInt8.ofNat (16 * x.val + y.val) := by
  decide +kernel

theorem ch2hex_eq {c : UInt8} {x : ℕ} (h : hexValue c = some x) :
    ch2hex c = UInt8.ofNat x ∧ x < 16 := by
  have hc : UInt8.ofNat c.toNat = c := UInt8.ofNat_toNat
  have hlt := hexValue_lt ⟨c.toNat, c.toNat_lt⟩ x (by rw [hc]; exact h)
  have hval := ch2hex_of_digit ⟨c.toNat, c.toNat_lt⟩ ⟨x, hlt⟩ (by rw [hc]; exact h)
  rw [hc] at hval
  exact ⟨hval, hlt⟩

theorem hexPairs_of_hexBytes {d : List UInt8} (h : hexBytes str = some d) : hexPairs str = d := by
  induction str using hexBytes.induct generalizing d with
  | case1 =>
      cases h
      rfl
  | case2 c => cases h
  | case3 a c str ih =>
      rw [hexBytes] at h
      obtain ⟨x, hx, h⟩ := Option.bind_eq_some_iff.mp h
      obtain ⟨y, hy, h⟩ := Option.bind_eq_some_iff.mp h
      obtain ⟨d, hd, rfl⟩ := Option.map_eq_some_iff.mp h
      obtain ⟨ha, hxlt⟩ := ch2hex_eq hx
      obtain ⟨hc, hylt⟩ := ch2hex_eq hy
      rw [hexPairs, ha, hc, ih hd, hexPair_eq ⟨x, hxlt⟩ ⟨y, hylt⟩]

theorem str2hex_eq (h : str.length = SHA256_LEN * 2) :
    str2hex str SHA256_LEN = some (hexPairs str) := by
  rw [str2hex, h]
  rfl

/-! ## The steps of the scan -/

/-- The scan has stored the entries `done`. -/
structure Stored (done : List IniTable) (s : ParseState) : Prop where
  strIndex : s.strIndex = done.length
  le_nums : done.length ≤ IMAGE_NUMS

/-- The state of the scan at byte `i`, where the reader is in the given phase. -/
def AtPhase (b : ℕ → UInt8) (i : ℕ) (done : List IniTable) (s : ParseState) : Phase → Prop
  | .sep => s.tagIndex = done.length ∧ s.tagStart = i + 1 ∧ s.table = pad zeroEntry IMAGE_NUMS done
  | .tag acc => s.tagIndex = done.length ∧ s.tagStart + acc.length = i ∧
      bytes b s.tagStart acc.length = acc ∧ s.table = pad zeroEntry IMAGE_NUMS done
  | .field tag acc => s.tagIndex = done.length + 1 ∧ done.length < IMAGE_NUMS ∧ acc.length ≤ i ∧
      bytes b (i - acc.length) acc.length = acc ∧ s.table = pad zeroEntry IMAGE_NUMS
        (done ++ [⟨pad 0 TAG_MAX_SIZE tag, List.replicate SHA256_LEN 0⟩])

theorem modify_length {α : Type*} {f : α → α} (xs : List α) (y : α) (ys : List α) :
    (xs ++ y :: ys).modify xs.length f = xs ++ f y :: ys := by
  induction xs with
  | nil => rfl
  | cons x xs ih =>
      rw [List.cons_append, List.length_cons, List.modify_succ_cons, ih]
      rfl

/-- The entry behind the last one is changed. -/
theorem modify_pad {f : IniTable → IniTable} (h : done.length < IMAGE_NUMS) :
    (pad zeroEntry IMAGE_NUMS done).modify done.length f =
      pad zeroEntry IMAGE_NUMS (done ++ [f zeroEntry]) := by
  obtain ⟨m, hm⟩ := Nat.exists_eq_succ_of_ne_zero (Nat.sub_ne_zero_of_lt h)
  have hrest : IMAGE_NUMS - (done ++ [f zeroEntry]).length = m := by
    rw [List.length_append, List.length_singleton]
    omega
  rw [pad, hm, List.replicate_succ, modify_length, pad, hrest, List.append_assoc]
  rfl

theorem modify_pad_last {f : IniTable → IniTable} {t : IniTable} :
    (pad zeroEntry IMAGE_NUMS (done ++ [t])).modify done.length f =
      pad zeroEntry IMAGE_NUMS (done ++ [f t]) := by
  rw [pad, pad, List.append_assoc, List.append_assoc, List.length_append, List.length_append,
    List.length_singleton, List.length_singleton]
  exact modify_length _ _ _

theorem bytes_succ : bytes b i (left + 1) = b i :: bytes b (i + 1) left := by
  rw [Nat.add_comm left 1, bytes_add]
  rfl

theorem bytes_concat (h : bytes b k acc.length = acc) :
    bytes b k (acc ++ [b (k + acc.length)]).length = acc ++ [b (k + acc.length)] := by
  rw [List.length_append, List.length_singleton, bytes_add, h]
  rfl

theorem result_parseLoop_plain (h : Plain (b i)) :
    (parseLoop (left + 1) i s).result b = (parseLoop left (i + 1) s).result b := by
  rw [parseLoop]
  simp only [result_bind_eq, result_readByte, Option.bind_some, if_neg h.1, if_neg h.2,
    result_pure]

theorem result_parseLoop_comma (h : b i = comma) :
    (parseLoop (left + 1) i s).result b =
      ((commaStep i s).result b).bind fun s => (parseLoop left (i + 1) s).result b := by
  have hne : ¬ b i = semicolon := by
    rw [h]
    decide
  rw [parseLoop]
  simp only [result_bind_eq, result_readByte, Option.bind_some, if_pos h, if_neg hne,
    result_pure]

theorem result_parseLoop_semicolon (h : b i = semicolon) :
    (parseLoop (left + 1) i s).result b =
      ((semicolonStep i s).result b).bind fun s => (parseLoop left (i + 1) s).result b := by
  have hne : ¬ b i = comma := by
    rw [h]
    decide
  rw [parseLoop]
  simp only [result_bind_eq, result_readByte, Option.bind_some, if_neg hne, if_pos h,
    result_pure]

/-- What a comma does behind the tag of a new entry. -/
theorem result_commaStep :
    (commaStep i s).result b =
      if s.tagIndex < IMAGE_NUMS ∧ Word.sub 32 i s.tagStart ≤ TAG_MAX_SIZE ∧
          Word.sub 32 i s.tagStart ≠ 0 ∧ s.tagIndex = s.strIndex then
        some { s with
          tagIndex := s.tagIndex + 1
          table := s.table.modify s.tagIndex fun t =>
            { t with tag := bytes b s.tagStart (Word.sub 32 i s.tagStart) ++
                t.tag.drop (Word.sub 32 i s.tagStart) } }
      else none := by
  generalize hsize : Word.sub 32 i s.tagStart = tagSize
  rw [commaStep, pkicmsParseIniTag]
  simp only [result_bind_eq, result_check_eq, result_read, result_pure, Option.bind_some, hsize]
  by_cases h1 : s.tagIndex < IMAGE_NUMS
  · rw [if_pos (show ¬ s.tagIndex ≥ IMAGE_NUMS by omega)]
    by_cases h2 : tagSize ≤ TAG_MAX_SIZE ∧ tagSize ≠ 0
    · rw [if_pos (show ¬ (tagSize > TAG_MAX_SIZE ∨ tagSize = 0) by omega)]
      by_cases h3 : s.tagIndex = s.strIndex
      · rw [if_pos (show ¬ s.tagIndex + 1 ≠ s.strIndex + 1 by omega), if_pos ⟨h1, h2.1, h2.2, h3⟩]
        rfl
      · rw [if_neg (show ¬¬ s.tagIndex + 1 ≠ s.strIndex + 1 by omega),
          if_neg (show ¬ (_ ∧ _ ∧ _ ∧ _) from fun h => h3 h.2.2.2)]
        rfl
    · rw [if_neg (show ¬¬ (tagSize > TAG_MAX_SIZE ∨ tagSize = 0) by omega),
        if_neg (show ¬ (_ ∧ _ ∧ _ ∧ _) from fun h => h2 ⟨h.2.1, h.2.2.1⟩)]
      rfl
  · rw [if_neg (show ¬¬ s.tagIndex ≥ IMAGE_NUMS by omega),
      if_neg (show ¬ (_ ∧ _ ∧ _ ∧ _) from fun h => h1 h.1)]
    rfl

theorem result_semicolonStep :
    (semicolonStep i s).result b =
      if s.strIndex < IMAGE_NUMS ∧ SHA256_LEN * 2 < i ∧ s.tagIndex = s.strIndex + 1 then
        some { s with
          strIndex := s.strIndex + 1
          tagStart := i + STR_LEN_NUM
          table := s.table.modify s.strIndex fun t =>
            { t with hash := hexPairs (bytes b (i - SHA256_LEN * 2) (SHA256_LEN * 2)) } }
      else none := by
  have hhex : str2hex (bytes b (i - SHA256_LEN * 2) (SHA256_LEN * 2)) SHA256_LEN = some _ :=
    str2hex_eq length_bytes
  rw [semicolonStep, pkicmsParseIniHashcode]
  simp only [result_bind_eq, result_check_eq, result_read, result_pure, result_answer,
    Option.bind_some, hhex]
  by_cases h1 : s.strIndex < IMAGE_NUMS
  · rw [if_pos (show ¬ s.strIndex ≥ IMAGE_NUMS by omega)]
    by_cases h2 : SHA256_LEN * 2 < i
    · rw [if_pos (show ¬ i ≤ SHA256_LEN * 2 by omega)]
      by_cases h3 : s.tagIndex = s.strIndex + 1
      · rw [if_pos (show ¬ s.tagIndex ≠ s.strIndex + 1 by omega), if_pos ⟨h1, h2, h3⟩]
        rfl
      · rw [if_neg (show ¬¬ s.tagIndex ≠ s.strIndex + 1 by omega),
          if_neg (show ¬ (_ ∧ _ ∧ _) from fun h => h3 h.2.2)]
        rfl
    · rw [if_neg (show ¬¬ i ≤ SHA256_LEN * 2 by omega),
        if_neg (show ¬ (_ ∧ _ ∧ _) from fun h => h2 h.2.1)]
      rfl
  · rw [if_neg (show ¬¬ s.strIndex ≥ IMAGE_NUMS by omega),
      if_neg (show ¬ (_ ∧ _ ∧ _) from fun h => h1 h.1)]
    rfl

/-! ## The scan and the reader -/

/-- The entry that the scan stores. -/
def codeEntry (e : IniEntry) : IniTable :=
  ⟨pad 0 TAG_MAX_SIZE e.tag, hexPairs (e.field.drop (e.field.length - SHA256_LEN * 2))⟩

/-- There is room for the tags, and no semicolon lies before the end of a digest. -/
def Fits (b : ℕ → UInt8) (i left : ℕ) (done : List IniTable) (es : List IniEntry)
    (o : Option (List UInt8)) : Prop :=
  done.length + es.length + o.toList.length ≤ IMAGE_NUMS ∧
    ∀ j, i ≤ j → j < i + left → b j = semicolon → SHA256_LEN * 2 < j

/-- What the scan answers when the reader finds `p`. -/
def Outcome (b : ℕ → UInt8) (i left : ℕ) (done : List IniTable)
    (p : Option (List IniEntry × Option (List UInt8))) (r : Option (List IniTable)) : Prop :=
  match p with
  | none => r = none
  | some (es, o) => (¬ Fits b i left done es o → r = none) ∧ (Fits b i left done es o →
      ∃ t, r = some t ∧ (o = none → (∀ e ∈ es, SHA256_LEN * 2 ≤ e.field.length) →
        t = pad zeroEntry IMAGE_NUMS (done ++ es.map codeEntry)))

theorem fits_succ (h : b i = semicolon → SHA256_LEN * 2 < i) :
    Fits b i (left + 1) done es o ↔ Fits b (i + 1) left done es o := by
  refine and_congr_right fun _ => ⟨fun hall j hle hlt => hall j (by omega) (by omega), ?_⟩
  intro hall j hle hlt hj
  rcases Nat.eq_or_lt_of_le hle with rfl | hlt'
  · exact h hj
  · exact hall j hlt' (by omega) hj

theorem Outcome.step {p : Option (List IniEntry × Option (List UInt8))}
    {r : Option (List IniTable)} (hne : b i ≠ semicolon) (h : Outcome b (i + 1) left done p r) :
    Outcome b i (left + 1) done p r := by
  cases p with
  | none => exact h
  | some q =>
      obtain ⟨es, o⟩ := q
      have hiff : Fits b i (left + 1) done es o ↔ Fits b (i + 1) left done es o :=
        fits_succ fun heq => absurd heq hne
      exact ⟨fun hfits => h.1 fun hfits' => hfits (hiff.mpr hfits'),
        fun hfits => h.2 (hiff.mp hfits)⟩

theorem Outcome.of_none {p : Option (List IniEntry × Option (List UInt8))}
    (h : ∀ es o, p = some (es, o) → ¬ Fits b i left done es o) : Outcome b i left done p none := by
  cases p with
  | none => rfl
  | some q => exact ⟨fun _ => rfl, fun hfits => absurd hfits (h q.1 q.2 rfl)⟩

theorem parseLoop_zero (hat : Stored done s) (hphase : AtPhase b i done s phase) :
    Outcome b i 0 done (iniParse phase []) ((parseLoop 0 i s).result b) := by
  have hle := hat.le_nums
  cases phase with
  | sep =>
      obtain ⟨-, -, htable⟩ := hphase
      refine ⟨fun hfits => absurd ⟨hle, fun j _ _ => by omega⟩ hfits, fun _ => ⟨_, rfl, ?_⟩⟩
      intro _ _
      rw [htable, List.map_nil, List.append_nil]
  | tag acc =>
      obtain ⟨-, -, -, htable⟩ := hphase
      refine ⟨fun hfits => absurd ⟨hle, fun j _ _ => by omega⟩ hfits, fun _ => ⟨_, rfl, ?_⟩⟩
      intro _ _
      rw [htable, List.map_nil, List.append_nil]
  | field tag acc =>
      obtain ⟨-, hlt, -⟩ := hphase
      refine ⟨fun hfits => absurd ⟨hlt, fun j _ _ => by omega⟩ hfits, fun _ => ⟨_, rfl, ?_⟩⟩
      intro ho
      cases ho

/-- A plain byte: the phase that follows is that of the reader. -/
theorem AtPhase.plain (hphase : AtPhase b i done s phase) (hplain : Plain (b i)) :
    ∃ next, AtPhase b (i + 1) done s next ∧
      ∀ rest, iniParse phase (b i :: rest) = iniParse next rest := by
  cases phase with
  | sep =>
      obtain ⟨htag, hstart, htable⟩ := hphase
      refine ⟨.tag [], ⟨htag, hstart, rfl, htable⟩, fun rest => ?_⟩
      rw [iniParse_sep_cons, if_pos hplain]
  | tag acc =>
      obtain ⟨htag, hstart, hbytes, htable⟩ := hphase
      have hconcat := bytes_concat hbytes
      rw [hstart] at hconcat
      refine ⟨.tag (acc ++ [b i]), ⟨htag, ?_, hconcat, htable⟩, fun rest =>
        iniParse_tag_plain hplain⟩
      rw [List.length_append, List.length_singleton]
      omega
  | field tag acc =>
      obtain ⟨htag, hlt, hle, hbytes, htable⟩ := hphase
      have hconcat := bytes_concat hbytes
      rw [Nat.sub_add_cancel hle] at hconcat
      have hlen : i + 1 - (acc ++ [b i]).length = i - acc.length := by
        rw [List.length_append, List.length_singleton]
        omega
      refine ⟨.field tag (acc ++ [b i]), ⟨htag, hlt, ?_, ?_, htable⟩, fun rest =>
        iniParse_field_plain hplain⟩
      · rw [List.length_append, List.length_singleton]
        omega
      · rw [hlen]
        exact hconcat

theorem not_plain_comma : ¬ Plain comma := fun h => h.1 rfl

theorem not_plain_semicolon : ¬ Plain semicolon := fun h => h.2 rfl

/-- A comma ends the tag of a new entry; everywhere else the scan and the reader fail. -/
theorem outcome_comma (hlt : i < 2 ^ 32) (hat : Stored done s) (hphase : AtPhase b i done s phase)
    (hc : b i = comma) (ih : ∀ s' phase', Stored done s' → AtPhase b (i + 1) done s' phase' →
      Outcome b (i + 1) left done (iniParse phase' (bytes b (i + 1) left))
        ((parseLoop left (i + 1) s').result b)) :
    Outcome b i (left + 1) done (iniParse phase (b i :: bytes b (i + 1) left))
      ((parseLoop (left + 1) i s).result b) := by
  have hne : b i ≠ semicolon := by
    rw [hc]
    decide
  have hstr := hat.strIndex
  have hnums := hat.le_nums
  rw [result_parseLoop_comma hc, result_commaStep]
  cases phase with
  | sep =>
      obtain ⟨-, hstart, -⟩ := hphase
      have hsize : Word.sub 32 i s.tagStart = 2 ^ 32 - 1 := by
        rw [Word.sub, hstart]
        omega
      rw [if_neg (show ¬ (_ ∧ _ ∧ _ ∧ _) from fun h => by
        have := h.2.1
        rw [hsize] at this
        exact absurd this (by decide)), iniParse, hc, if_neg not_plain_comma]
      rfl
  | tag acc =>
      obtain ⟨htag, hstart, hbytes, htable⟩ := hphase
      have hsize : Word.sub 32 i s.tagStart = acc.length := by
        rw [Word.sub_of_le (by omega) hlt]
        omega
      rw [hsize, hbytes, hc]
      by_cases hok : TagSize acc
      · rw [iniParse_tag_comma hok]
        by_cases hroom : done.length < IMAGE_NUMS
        · rw [if_pos ⟨by omega, hok.2, by have := hok.1; omega, by omega⟩, Option.bind_some]
          refine Outcome.step hne (ih _ (.field acc []) ⟨hstr, hnums⟩
            ⟨by rw [htag], hroom, Nat.zero_le _, rfl, ?_⟩)
          change s.table.modify s.tagIndex _ = _
          rw [htable, htag, modify_pad hroom, zeroEntry, List.drop_replicate]
          rfl
        · rw [if_neg (show ¬ (_ ∧ _ ∧ _ ∧ _) from fun h => hroom (htag ▸ h.1))]
          refine Outcome.of_none fun es o hp hfits => ?_
          have hcount := count_pos_of_iniParse hp
          have := hfits.1
          omega
      · rw [if_neg (show ¬ (_ ∧ _ ∧ _ ∧ _) from fun h =>
          hok ⟨Nat.one_le_iff_ne_zero.mpr h.2.2.1, h.2.1⟩), iniParse, if_pos rfl, if_neg hok]
        rfl
  | field tag acc =>
      obtain ⟨htag, -⟩ := hphase
      rw [if_neg (show ¬ (_ ∧ _ ∧ _ ∧ _) from fun h => by
        have := h.2.2.2
        omega), iniParse, if_neg hne, if_pos hc]
      rfl

/-- A semicolon ends an entry; everywhere else the scan and the reader fail. -/
theorem outcome_semicolon (hat : Stored done s) (hphase : AtPhase b i done s phase)
    (hc : b i = semicolon) (ih : ∀ done' s' phase', Stored done' s' →
      AtPhase b (i + 1) done' s' phase' →
      Outcome b (i + 1) left done' (iniParse phase' (bytes b (i + 1) left))
        ((parseLoop left (i + 1) s').result b)) :
    Outcome b i (left + 1) done (iniParse phase (b i :: bytes b (i + 1) left))
      ((parseLoop (left + 1) i s).result b) := by
  have hstr := hat.strIndex
  rw [result_parseLoop_semicolon hc, result_semicolonStep]
  cases phase with
  | sep =>
      obtain ⟨htag, -⟩ := hphase
      rw [if_neg (show ¬ (_ ∧ _ ∧ _) from fun h => by
        have := h.2.2
        omega), iniParse, hc, if_neg not_plain_semicolon]
      rfl
  | tag acc =>
      obtain ⟨htag, -⟩ := hphase
      rw [if_neg (show ¬ (_ ∧ _ ∧ _) from fun h => by
        have := h.2.2
        omega), iniParse, hc, if_neg (by decide), if_pos rfl]
      rfl
  | field tag acc =>
      obtain ⟨htag, hroom, hle, hbytes, htable⟩ := hphase
      by_cases hi : SHA256_LEN * 2 < i
      · have hdone : ∀ t : IniTable, (done ++ [t]).length = done.length + 1 := fun t => by
          rw [List.length_append, List.length_singleton]
        rw [if_pos ⟨by omega, hi, by omega⟩, Option.bind_some, hc, iniParse_field_semicolon]
        -- the digest lies before the semicolon
        have hnext := ih (done ++ [⟨pad 0 TAG_MAX_SIZE tag,
          hexPairs (bytes b (i - SHA256_LEN * 2) (SHA256_LEN * 2))⟩])
          { s with
            strIndex := s.strIndex + 1
            tagStart := i + STR_LEN_NUM
            table := s.table.modify s.strIndex fun t =>
              { t with hash := hexPairs (bytes b (i - SHA256_LEN * 2) (SHA256_LEN * 2)) } } .sep
          ⟨by rw [hdone]; exact congrArg (· + 1) hstr, by rw [hdone]; exact hroom⟩
          ⟨by rw [hdone]; exact htag, rfl, by
            change s.table.modify s.strIndex _ = _
            rw [htable, hstr, modify_pad_last]⟩
        revert hnext
        generalize (parseLoop left (i + 1) _).result b = r
        cases hp : iniParse .sep (bytes b (i + 1) left) with
        | none => exact id
        | some q =>
            obtain ⟨es, o⟩ := q
            rintro ⟨hbad, hgood⟩
            have hiff : Fits b i (left + 1) done (⟨tag, acc⟩ :: es) o ↔
                Fits b (i + 1) left (done ++ [⟨pad 0 TAG_MAX_SIZE tag,
                  hexPairs (bytes b (i - SHA256_LEN * 2) (SHA256_LEN * 2))⟩]) es o := by
              rw [fits_succ fun _ => hi, Fits, Fits, hdone, List.length_cons]
              refine and_congr_left fun _ => ?_
              rw [Nat.add_assoc done.length 1, Nat.add_comm 1]
            refine ⟨fun hfits => hbad fun hfits' => hfits (hiff.mpr hfits'), fun hfits => ?_⟩
            obtain ⟨t, ht, htable⟩ := hgood (hiff.mp hfits)
            refine ⟨t, ht, fun ho hlong => ?_⟩
            have hacc : SHA256_LEN * 2 ≤ acc.length := hlong ⟨tag, acc⟩ List.mem_cons_self
            have hdigest : bytes b (i - SHA256_LEN * 2) (SHA256_LEN * 2) =
                acc.drop (acc.length - SHA256_LEN * 2) := by
              have hsplit : bytes b (i - acc.length)
                  (acc.length - SHA256_LEN * 2 + SHA256_LEN * 2) = acc := by
                rw [Nat.sub_add_cancel hacc]
                exact hbytes
              rw [bytes_add] at hsplit
              rw [← hsplit, List.drop_left' (by rw [hsplit, length_bytes])]
              congr 1
              omega
            rw [htable ho fun e he => hlong e (List.mem_cons_of_mem _ he), List.append_assoc,
              hdigest]
            rfl
      · rw [if_neg (show ¬ (_ ∧ _ ∧ _) from fun h => hi h.2.1)]
        exact Outcome.of_none fun es o _ hfits => hi (hfits.2 i (le_refl i) (by omega) hc)

/-- The scan answers what the reader finds. -/
theorem parseLoop_outcome (hlt : i + left < 2 ^ 32) (hat : Stored done s)
    (hphase : AtPhase b i done s phase) :
    Outcome b i left done (iniParse phase (bytes b i left)) ((parseLoop left i s).result b) := by
  induction left generalizing i s done phase with
  | zero => exact parseLoop_zero hat hphase
  | succ left ih =>
      rw [bytes_succ]
      by_cases hcomma : b i = comma
      · exact outcome_comma (by omega) hat hphase hcomma fun s' phase' hat' hphase' =>
          ih (by omega) hat' hphase'
      · by_cases hsemi : b i = semicolon
        · exact outcome_semicolon hat hphase hsemi fun done' s' phase' hat' hphase' =>
            ih (by omega) hat' hphase'
        · obtain ⟨next, hnext, heq⟩ := AtPhase.plain hphase ⟨hcomma, hsemi⟩
          rw [result_parseLoop_plain ⟨hcomma, hsemi⟩, heq]
          exact Outcome.step hsemi (ih (by omega) hat hnext)

/-! ## The reads of the scan -/

theorem within_commaStep (hlt : i < 2 ^ 32) (hi : i < n) (hs : s.tagStart ≤ i + 1) :
    Within n (commaStep i s) b := by
  rw [commaStep, pkicmsParseIniTag]
  simp only [within_bind, within_check, within_read, within_pure, result_check, true_and,
    implies_true, and_true]
  intro _ _ _ hsize
  rcases Nat.eq_or_lt_of_le hs with heq | hle
  · have hmax : TAG_MAX_SIZE = 32 := rfl
    rw [Word.sub, heq] at hsize
    omega
  · rw [Word.sub_of_le (Nat.le_of_lt_succ hle) hlt]
    omega

theorem within_semicolonStep (hi : i < n) : Within n (semicolonStep i s) b := by
  rw [semicolonStep, pkicmsParseIniHashcode]
  simp only [within_bind, within_check, within_read, within_pure, within_answer, result_check,
    true_and, implies_true, and_true]
  intro _ _ _ hlong
  omega

theorem tagStart_commaStep {s' : ParseState} (h : (commaStep i s).result b = some s') :
    s'.tagStart = s.tagStart := by
  rw [result_commaStep] at h
  split at h
  · cases h
    rfl
  · cases h

theorem tagStart_semicolonStep {s' : ParseState} (h : (semicolonStep i s).result b = some s') :
    s'.tagStart = i + STR_LEN_NUM := by
  rw [result_semicolonStep] at h
  split at h
  · cases h
    rfl
  · cases h

theorem within_parseLoop (hlt : i + left < 2 ^ 32) (hn : i + left ≤ n)
    (hs : s.tagStart ≤ i + 1) : Within n (parseLoop left i s) b := by
  induction left generalizing i s with
  | zero =>
      rw [parseLoop]
      exact within_pure
  | succ left ih =>
      rw [parseLoop]
      by_cases hcomma : b i = comma
      · have hne : ¬ b i = semicolon := by
          rw [hcomma]
          decide
        simp only [within_bind, within_readByte, result_readByte, Option.some.injEq, forall_eq',
          if_pos hcomma, if_neg hne, within_pure, result_pure, true_and]
        refine ⟨by omega, within_commaStep (by omega) (by omega) hs, fun s' hs' => ⟨by omega, ?_⟩⟩
        have hstart := tagStart_commaStep hs'
        exact ih (by omega) (by omega) (by omega)
      · by_cases hsemi : b i = semicolon
        · simp only [within_bind, within_readByte, result_readByte, Option.some.injEq, forall_eq',
            if_neg hcomma, if_pos hsemi, within_pure, result_pure, true_and]
          refine ⟨by omega, by omega, within_semicolonStep (by omega), fun s' hs' => ?_⟩
          have hstart := tagStart_semicolonStep hs'
          have htwo : STR_LEN_NUM = 2 := rfl
          exact ih (by omega) (by omega) (by omega)
        · simp only [within_bind, within_readByte, result_readByte, Option.some.injEq, forall_eq',
            if_neg hcomma, if_neg hsemi, within_pure, result_pure, true_and]
          exact ⟨by omega, by omega, ih (by omega) (by omega) (by omega)⟩

/-! ## Exactness -/

variable {b' : ℕ → UInt8} {len len' : UInt32} {ks ks' : List (List UInt8 × List UInt8)}

/-- The scan accepts the files of the grammar only, gives the table of a file, and stays
inside the buffer. -/
structure IniExact (b : ℕ → UInt8) (len : UInt32) : Prop where
  accepts : (∃ t, (pkicmsParseBootupIni len zeroTable).result b = some t) ↔
    ∃ ks, IniKeys (bytes b 0 len.toNat) ks
  table : ∀ t ks, (pkicmsParseBootupIni len zeroTable).result b = some t →
    IniKeys (bytes b 0 len.toNat) ks → t = tableOf ks
  inside : Within len.toNat (pkicmsParseBootupIni len zeroTable) b

/-- If commas and semicolons alternate, with tags of a valid size, at most four of them, and
no semicolon in the first 65 bytes, then the last tag has its semicolon too and every field
ends in the digits of a digest. -/
def IniComplete (b : ℕ → UInt8) (len : UInt32) : Prop :=
  ∀ es o, iniParse (.tag []) (bytes b 0 len.toNat) = some (es, o) →
    Fits b 0 len.toNat [] es o → o = none ∧ ∀ e ∈ es, e.key.isSome

theorem parse_outcome (b : ℕ → UInt8) (len : UInt32) : Outcome b 0 len.toNat [] (iniParse (.tag []) (bytes b 0 len.toNat))
    ((pkicmsParseBootupIni len zeroTable).result b) :=
  parseLoop_outcome (by have := len.toNat_lt; omega) ⟨rfl, Nat.zero_le _⟩
    ⟨rfl, rfl, rfl, rfl⟩

theorem codeEntry_of_key {k : List UInt8 × List UInt8} (h : e.key = some k) :
    SHA256_LEN * 2 ≤ e.field.length ∧ codeEntry e = keyEntry k ∧ k.1 = e.tag := by
  rw [IniEntry.key] at h
  by_cases hlong : SHA256_LEN * 2 ≤ e.field.length
  · rw [if_pos hlong] at h
    obtain ⟨d, hd, rfl⟩ := Option.map_eq_some_iff.mp h
    refine ⟨hlong, ?_, rfl⟩
    rw [codeEntry, hexPairs_of_hexBytes hd, keyEntry]
  · rw [if_neg hlong] at h
    cases h

theorem exists_keys (h : ∀ e ∈ es, e.key.isSome) :
    ∃ ks : List (List UInt8 × List UInt8), es.map IniEntry.key = ks.map some := by
  induction es with
  | nil => exact ⟨[], rfl⟩
  | cons e es ih =>
      obtain ⟨k, hk⟩ := Option.isSome_iff_exists.mp (h e List.mem_cons_self)
      obtain ⟨ks, hks⟩ := ih fun x hx => h x (List.mem_cons_of_mem e hx)
      exact ⟨k :: ks, by rw [List.map_cons, hk, hks, List.map_cons]⟩

theorem key_of_keys (h : es.map IniEntry.key = ks.map some) (he : e ∈ es) :
    ∃ k ∈ ks, e.key = some k := by
  have hmem : e.key ∈ ks.map some := h ▸ List.mem_map_of_mem he
  obtain ⟨k, hk, heq⟩ := List.mem_map.mp hmem
  exact ⟨k, hk, heq.symm⟩

theorem map_codeEntry (h : es.map IniEntry.key = ks.map some) :
    es.map codeEntry = ks.map keyEntry := by
  induction es generalizing ks with
  | nil =>
      obtain rfl := List.map_eq_nil_iff.mp h.symm
      rfl
  | cons e es ih =>
      obtain ⟨k, ks, rfl, hk, hks⟩ := List.map_eq_cons_iff.mp h.symm
      rw [List.map_cons, List.map_cons, ih hks.symm, (codeEntry_of_key hk.symm).2.1]

/-- A file has no semicolon before the end of its first digest. -/
theorem semicolon_late {bs : List UInt8} (h : IniFile es bs) (hkeys : ∀ e ∈ es, e.key.isSome)
    {j : ℕ} (hj : bs[j]? = some semicolon) : SHA256_LEN * 2 < j := by
  have hentry : ∀ (e : IniEntry) (rest : List UInt8), e.Valid → e.key.isSome →
      (e.text ++ rest)[j]? = some semicolon → SHA256_LEN * 2 < j := by
    intro e rest he hkey hj
    obtain ⟨k, hk⟩ := Option.isSome_iff_exists.mp hkey
    have hlong := (codeEntry_of_key hk).1
    have hsize := he.size.1
    by_contra hle
    have hlen : (e.tag ++ comma :: e.field).length = e.tag.length + (e.field.length + 1) := by
      rw [List.length_append, List.length_cons]
    have htext : e.text ++ rest = (e.tag ++ comma :: e.field) ++ semicolon :: rest := by
      rw [IniEntry.text, List.append_assoc, List.append_assoc, List.cons_append, List.cons_append,
        List.append_assoc]
      rfl
    rw [htext, List.getElem?_append_left (by omega)] at hj
    have hmem := List.mem_of_getElem? hj
    rcases List.mem_append.mp hmem with hmem | hmem
    · exact (he.tag _ hmem).2 rfl
    · rcases List.mem_cons.mp hmem with heq | hmem
      · exact absurd heq (by decide)
      · exact (he.field _ hmem).2 rfl
  cases h with
  | rest hb => exact absurd rfl (hb _ (List.mem_of_getElem? hj)).2
  | @last e he =>
      refine hentry e [] he (hkeys e List.mem_cons_self) ?_
      rw [List.append_nil]
      exact hj
  | @entry e sep es b he hsep h => exact hentry e _ he (hkeys e List.mem_cons_self) hj

theorem getElem?_bytes {j : ℕ} (h : j < n) : (bytes b 0 n)[j]? = some (b j) := by
  rw [bytes, List.getElem?_map, List.getElem?_range h, Option.map_some, Nat.zero_add]

theorem isSome_of_keys (h : es.map IniEntry.key = ks.map some) : ∀ e ∈ es, e.key.isSome := by
  intro e he
  obtain ⟨k, -, hk⟩ := key_of_keys h he
  rw [hk]
  rfl

/-- The scan accepts a file and gives its table. -/
theorem result_of_keys (h : IniKeys (bytes b 0 len.toNat) ks) :
    (pkicmsParseBootupIni len zeroTable).result b = some (tableOf ks) := by
  obtain ⟨es, hfile, hnums, hkeys⟩ := h
  have hsome := isSome_of_keys hkeys
  have houtcome := parse_outcome b len
  rw [iniParse_of_iniFile hfile] at houtcome
  have hfits : Fits b 0 len.toNat [] es none := by
    refine ⟨by rw [List.length_nil, Nat.zero_add]; exact hnums, fun j _ hlt hj => ?_⟩
    rw [Nat.zero_add] at hlt
    exact semicolon_late hfile hsome (by rw [getElem?_bytes hlt, hj])
  obtain ⟨t, ht, htable⟩ := houtcome.2 hfits
  rw [ht, htable rfl fun e he => ?_, List.nil_append, map_codeEntry hkeys]
  · rfl
  · obtain ⟨k, -, hk⟩ := key_of_keys hkeys he
    exact (codeEntry_of_key hk).1

theorem keys_unique {bs : List UInt8} (h : IniKeys bs ks) (h' : IniKeys bs ks') : ks = ks' := by
  obtain ⟨es, hfile, -, hkeys⟩ := h
  obtain ⟨es', hfile', -, hkeys'⟩ := h'
  have heq := (iniParse_of_iniFile hfile).symm.trans (iniParse_of_iniFile hfile')
  cases heq
  exact List.map_injective_iff.mpr (Option.some_injective _) (hkeys.symm.trans hkeys')

theorem iniExact_iff : IniExact b len ↔ IniComplete b len := by
  have houtcome := parse_outcome b len
  constructor
  · intro hexact es o hp hfits
    rw [hp] at houtcome
    obtain ⟨t, ht, -⟩ := houtcome.2 hfits
    obtain ⟨ks, es', hfile, -, hkeys⟩ := hexact.accepts.mp ⟨t, ht⟩
    cases hp.symm.trans (iniParse_of_iniFile hfile)
    exact ⟨rfl, isSome_of_keys hkeys⟩
  · intro hcomplete
    refine ⟨⟨?_, fun ⟨ks, h⟩ => ⟨_, result_of_keys h⟩⟩, fun t ks ht h => ?_, ?_⟩
    · rintro ⟨t, ht⟩
      cases hp : iniParse (.tag []) (bytes b 0 len.toNat) with
      | none =>
          rw [hp] at houtcome
          exact absurd (ht.symm.trans houtcome) (by simp)
      | some q =>
          obtain ⟨es, o⟩ := q
          rw [hp] at houtcome
          by_cases hfits : Fits b 0 len.toNat [] es o
          · obtain ⟨rfl, hkeys⟩ := hcomplete es o hp hfits
            obtain ⟨ks, hks⟩ := exists_keys hkeys
            have hnums := hfits.1
            rw [List.length_nil] at hnums
            exact ⟨ks, es, iniParse_eq_some_iff.mp hp, by omega, hks⟩
          · exact absurd (ht.symm.trans (houtcome.1 hfits)) (by simp)
    · exact Option.some.inj (ht.symm.trans (result_of_keys h))
    · have hlt := len.toNat_lt
      exact within_parseLoop (by omega) (by omega) (Nat.zero_le _)

/-! ## Two files -/

/-- A tag without the zero bytes at its end, and a digest. -/
def shortKey (k : List UInt8 × List UInt8) : List UInt8 × List UInt8 := (strip 0 k.1, k.2)

def zeroKey : List UInt8 × List UInt8 := ([], List.replicate SHA256_LEN 0)

/-- Two files whose tags or digests differ in nothing but zero bytes at the ends of tags, and
entries of zeros at their ends. -/
def ZeroTwins (bs bs' : List UInt8) : Prop :=
  ∃ ks ks', IniKeys bs ks ∧ IniKeys bs' ks' ∧ ks ≠ ks' ∧
    strip zeroKey (ks.map shortKey) = strip zeroKey (ks'.map shortKey)

theorem tag_le_of_keys {bs : List UInt8} (h : IniKeys bs ks) :
    ks.length ≤ IMAGE_NUMS ∧ ∀ k ∈ ks, k.1.length ≤ TAG_MAX_SIZE := by
  obtain ⟨es, hfile, hnums, hkeys⟩ := h
  have hlength : es.length = ks.length := by
    have := congrArg List.length hkeys
    rwa [List.length_map, List.length_map] at this
  refine ⟨hlength ▸ hnums, fun k hk => ?_⟩
  have hmem : some k ∈ es.map IniEntry.key := hkeys ▸ List.mem_map_of_mem hk
  obtain ⟨e, he, heq⟩ := List.mem_map.mp hmem
  rw [(codeEntry_of_key heq).2.2]
  clear hkeys hmem hnums hlength heq
  induction hfile with
  | rest hb => cases he
  | last hvalid =>
      rw [List.mem_singleton.mp he]
      exact hvalid.size.2
  | entry hvalid _ _ ih =>
      rcases List.mem_cons.mp he with rfl | he
      · exact hvalid.size.2
      · exact ih he

/-- The key that an entry of a table shows. -/
def tableKey (t : IniTable) : List UInt8 × List UInt8 := (strip 0 t.tag, t.hash)

theorem tableOf_keys : (tableOf ks).map tableKey = pad zeroKey IMAGE_NUMS (ks.map shortKey) := by
  have hzero : tableKey zeroEntry = zeroKey := rfl
  rw [tableOf, map_pad, hzero, List.map_map]
  congr 1
  refine List.map_congr_left fun k _ => ?_
  rw [Function.comp_apply, tableKey, keyEntry, strip_pad]
  rfl

theorem tableOf_eq (h : ∀ k ∈ ks, k.1.length ≤ TAG_MAX_SIZE) :
    tableOf ks = (pad zeroKey IMAGE_NUMS (ks.map shortKey)).map keyEntry := by
  have hzero : keyEntry zeroKey = zeroEntry := rfl
  rw [tableOf, map_pad, hzero, List.map_map]
  congr 1
  refine List.map_congr_left fun k hk => ?_
  rw [Function.comp_apply, keyEntry, keyEntry, shortKey, pad_strip (h k hk)]

/-- Two tables are equal exactly when their keys agree up to zeros. -/
theorem tableOf_eq_iff {bs bs' : List UInt8} (h : IniKeys bs ks) (h' : IniKeys bs' ks') :
    tableOf ks = tableOf ks' ↔
      strip zeroKey (ks.map shortKey) = strip zeroKey (ks'.map shortKey) := by
  obtain ⟨hlen, htag⟩ := tag_le_of_keys h
  obtain ⟨hlen', htag'⟩ := tag_le_of_keys h'
  have hpad := pad_eq_pad_iff (z := zeroKey) (n := IMAGE_NUMS)
    ((List.length_map shortKey).trans_le hlen) ((List.length_map shortKey).trans_le hlen')
  constructor
  · intro heq
    have hkeys := congrArg (List.map tableKey) heq
    rw [tableOf_keys, tableOf_keys] at hkeys
    exact hpad.mp hkeys
  · intro heq
    rw [tableOf_eq htag, tableOf_eq htag', hpad.mpr heq]

/-- Both files are scanned exactly, and they have one table only if they have the same tags
and digests. -/
structure IniTablesExact (b b' : ℕ → UInt8) (len len' : UInt32) : Prop where
  first : IniExact b len
  second : IniExact b' len'
  differ : ∀ ks ks' t t', IniKeys (bytes b 0 len.toNat) ks → IniKeys (bytes b' 0 len'.toNat) ks' →
    (pkicmsParseBootupIni len zeroTable).result b = some t →
    (pkicmsParseBootupIni len' zeroTable).result b' = some t' → ks ≠ ks' → t ≠ t'

theorem iniTablesExact_iff (b b' : ℕ → UInt8) (len len' : UInt32) :
    IniTablesExact b b' len len' ↔ IniComplete b len ∧ IniComplete b' len' ∧
      ¬ ZeroTwins (bytes b 0 len.toNat) (bytes b' 0 len'.toNat) := by
  constructor
  · intro h
    refine ⟨iniExact_iff.mp h.first, iniExact_iff.mp h.second, ?_⟩
    rintro ⟨ks, ks', hks, hks', hne, hstrip⟩
    exact h.differ ks ks' _ _ hks hks' (result_of_keys hks) (result_of_keys hks') hne
      ((tableOf_eq_iff hks hks').mpr hstrip)
  · rintro ⟨h, h', htwins⟩
    refine ⟨iniExact_iff.mpr h, iniExact_iff.mpr h', ?_⟩
    intro ks ks' t t' hks hks' ht ht' hne heq
    obtain rfl := Option.some.inj (ht.symm.trans (result_of_keys hks))
    obtain rfl := Option.some.inj (ht'.symm.trans (result_of_keys hks'))
    exact htwins ⟨ks, ks', hks, hks', hne, (tableOf_eq_iff hks hks').mp heq⟩

/-- A tag, a comma and 64 bytes that are no digits, then a semicolon. -/
def noDigits (i : ℕ) : UInt8 :=
  if i = 0 then 0x61 else if i = 1 then comma else if i < 66 then 0x7A else semicolon

theorem noDigits_accepted : ¬ IniTablesExact noDigits noDigits 67 67 := by
  intro h
  have hparse : iniParse (.tag []) (bytes noDigits 0 (67 : UInt32).toNat) =
      some ([⟨[0x61], List.replicate 64 0x7A⟩], none) := by decide +kernel
  have hfits : Fits noDigits 0 (67 : UInt32).toNat [] [⟨[0x61], List.replicate 64 0x7A⟩] none := by
    refine ⟨by decide, fun j _ hlt hj => ?_⟩
    by_contra hle
    have hall : ∀ j < 65, noDigits j ≠ semicolon := by decide +kernel
    have hlen : SHA256_LEN = 32 := rfl
    exact hall j (by omega) hj
  have hkey := (iniExact_iff.mp h.first _ _ hparse hfits).2 _ List.mem_cons_self
  exact absurd hkey (by decide +kernel)

end OpiaiKernel.Pkicms.Ini
