import Mathlib.Data.List.Basic
import Mathlib.Data.UInt

/-!
# Hash tables as text

A file holds entries of a tag, a comma, a field that ends in the digits of a digest, and a
semicolon.  A reader that goes over the bytes once finds the entries of a file, and the tag
whose semicolon is missing.
-/

namespace OpiaiKernel.Pkicms.Ini

abbrev comma : UInt8 := 0x2C

abbrev semicolon : UInt8 := 0x3B

abbrev IMAGE_NUMS : ℕ := 4

abbrev TAG_MAX_SIZE : ℕ := 32

abbrev SHA256_LEN : ℕ := 32

structure IniEntry where
  tag : List UInt8
  field : List UInt8
  deriving DecidableEq, Repr

/-- Neither a comma nor a semicolon. -/
def Plain (c : UInt8) : Prop := c ≠ comma ∧ c ≠ semicolon

def TagSize (tag : List UInt8) : Prop := 1 ≤ tag.length ∧ tag.length ≤ TAG_MAX_SIZE

instance (c : UInt8) : Decidable (Plain c) := inferInstanceAs (Decidable (_ ∧ _))

instance (tag : List UInt8) : Decidable (TagSize tag) := inferInstanceAs (Decidable (_ ∧ _))

structure IniEntry.Valid (e : IniEntry) : Prop where
  size : TagSize e.tag
  tag : ∀ c ∈ e.tag, Plain c
  field : ∀ c ∈ e.field, Plain c

def IniEntry.text (e : IniEntry) : List UInt8 := e.tag ++ comma :: (e.field ++ [semicolon])

/-- The bytes of a file with the given entries.  One byte separates an entry from what
follows. -/
inductive IniFile : List IniEntry → List UInt8 → Prop
  | rest {b : List UInt8} (hb : ∀ c ∈ b, Plain c) : IniFile [] b
  | last {e : IniEntry} (he : e.Valid) : IniFile [e] e.text
  | entry {e : IniEntry} {sep : UInt8} {es : List IniEntry} {b : List UInt8} (he : e.Valid)
      (hsep : Plain sep) (h : IniFile es b) : IniFile (e :: es) (e.text ++ sep :: b)

/-! ## A reader -/

/-- Where a reader is: at a separator, in a tag or in the field of a tag. -/
inductive Phase
  | sep
  | tag (acc : List UInt8)
  | field (tag acc : List UInt8)
  deriving DecidableEq, Repr

/-- The entries of a file and the tag that has no semicolon. -/
def iniParse : Phase → List UInt8 → Option (List IniEntry × Option (List UInt8))
  | .sep, [] => some ([], none)
  | .sep, c :: b => if Plain c then iniParse (.tag []) b else none
  | .tag _, [] => some ([], none)
  | .tag acc, c :: b =>
      if c = comma then if TagSize acc then iniParse (.field acc []) b else none
      else if c = semicolon then none
      else iniParse (.tag (acc ++ [c])) b
  | .field tag _, [] => some ([], some tag)
  | .field tag acc, c :: b =>
      if c = semicolon then (iniParse .sep b).map fun (es, o) => (⟨tag, acc⟩ :: es, o)
      else if c = comma then none
      else iniParse (.field tag (acc ++ [c])) b

variable {acc tag b : List UInt8} {c : UInt8} {es : List IniEntry} {o : Option (List UInt8)}
  {e : IniEntry} {phase : Phase}

theorem iniParse_sep_cons :
    iniParse .sep (c :: b) = if Plain c then iniParse (.tag []) b else none := rfl

theorem iniParse_tag_cons : iniParse (.tag acc) (c :: b) =
    if c = comma then if TagSize acc then iniParse (.field acc []) b else none
    else if c = semicolon then none
    else iniParse (.tag (acc ++ [c])) b := rfl

theorem iniParse_field_cons : iniParse (.field tag acc) (c :: b) =
    if c = semicolon then (iniParse .sep b).map fun (es, o) => (⟨tag, acc⟩ :: es, o)
    else if c = comma then none
    else iniParse (.field tag (acc ++ [c])) b := rfl

theorem iniParse_tag_comma (h : TagSize acc) :
    iniParse (.tag acc) (comma :: b) = iniParse (.field acc []) b := by
  rw [iniParse_tag_cons, if_pos rfl, if_pos h]

theorem iniParse_tag_plain (h : Plain c) :
    iniParse (.tag acc) (c :: b) = iniParse (.tag (acc ++ [c])) b := by
  rw [iniParse_tag_cons, if_neg h.1, if_neg h.2]

theorem iniParse_field_plain (h : Plain c) :
    iniParse (.field tag acc) (c :: b) = iniParse (.field tag (acc ++ [c])) b := by
  rw [iniParse_field_cons, if_neg h.2, if_neg h.1]

theorem iniParse_field_semicolon : iniParse (.field tag acc) (semicolon :: b) =
    (iniParse .sep b).map fun (es, o) => (⟨tag, acc⟩ :: es, o) := by
  rw [iniParse_field_cons, if_pos rfl]

theorem iniParse_tag_append {t : List UInt8} (h : ∀ c ∈ t, Plain c) :
    iniParse (.tag acc) (t ++ b) = iniParse (.tag (acc ++ t)) b := by
  induction t generalizing acc with
  | nil => rw [List.nil_append, List.append_nil]
  | cons c t ih =>
      rw [List.cons_append, iniParse_tag_plain (h c List.mem_cons_self),
        ih fun x hx => h x (List.mem_cons_of_mem c hx), List.append_assoc]
      rfl

theorem iniParse_field_append {t : List UInt8} (h : ∀ c ∈ t, Plain c) :
    iniParse (.field tag acc) (t ++ b) = iniParse (.field tag (acc ++ t)) b := by
  induction t generalizing acc with
  | nil => rw [List.nil_append, List.append_nil]
  | cons c t ih =>
      rw [List.cons_append, iniParse_field_plain (h c List.mem_cons_self),
        ih fun x hx => h x (List.mem_cons_of_mem c hx), List.append_assoc]
      rfl

/-- The reader takes an entry and goes on behind it. -/
theorem iniParse_text (he : e.Valid) : iniParse (.tag []) (e.text ++ b) =
    (iniParse .sep b).map fun (es, o) => (e :: es, o) := by
  rw [IniEntry.text, List.append_assoc, iniParse_tag_append he.tag, List.nil_append,
    List.cons_append, iniParse_tag_comma he.size, List.append_assoc,
    iniParse_field_append he.field, List.nil_append, List.cons_append, List.nil_append,
    iniParse_field_semicolon]

/-- An open field is an entry, or its tag has no semicolon. -/
theorem count_pos_of_iniParse (h : iniParse (.field tag acc) b = some (es, o)) :
    1 ≤ es.length + o.toList.length := by
  induction b generalizing acc with
  | nil =>
      cases h
      exact le_refl 1
  | cons c b ih =>
      by_cases hsemi : c = semicolon
      · subst hsemi
        rw [iniParse_field_semicolon] at h
        obtain ⟨⟨es, o⟩, -, heq⟩ := Option.map_eq_some_iff.mp h
        obtain ⟨rfl, rfl⟩ := Prod.mk.inj heq
        rw [List.length_cons]
        omega
      · by_cases hcomma : c = comma
        · rw [iniParse_field_cons, if_neg hsemi, if_pos hcomma] at h
          cases h
        · rw [iniParse_field_plain ⟨hcomma, hsemi⟩] at h
          exact ih h

theorem iniParse_of_iniFile (h : IniFile es b) : iniParse (.tag []) b = some (es, none) := by
  induction h with
  | @rest b hb =>
      have happ : iniParse (.tag []) (b ++ []) = iniParse (.tag b) [] := iniParse_tag_append hb
      rw [← List.append_nil b, happ]
      rfl
  | last he =>
      have htext := iniParse_text (b := []) he
      rw [List.append_nil] at htext
      rw [htext]
      rfl
  | entry he hsep _ ih =>
      rw [iniParse_text he, iniParse_sep_cons, if_pos hsep, ih]
      rfl

/-! ## The reader is sound -/

/-- What the reader has gone over since the last entry. -/
def Phase.Reads : Phase → List IniEntry → List UInt8 → Prop
  | .sep, es, b => (b = [] ∧ es = []) ∨ ∃ sep b', b = sep :: b' ∧ Plain sep ∧ IniFile es b'
  | .tag acc, es, b => IniFile es (acc ++ b)
  | .field tag acc, es, b => IniFile es (tag ++ comma :: (acc ++ b))

def Phase.Valid : Phase → Prop
  | .sep => True
  | .tag acc => ∀ c ∈ acc, Plain c
  | .field tag acc => TagSize tag ∧ (∀ c ∈ tag, Plain c) ∧ ∀ c ∈ acc, Plain c

theorem plain_append (hacc : ∀ x ∈ acc, Plain x) (hc : Plain c) : ∀ x ∈ acc ++ [c], Plain x := by
  intro x hx
  rcases List.mem_append.mp hx with hx | hx
  · exact hacc x hx
  · rw [List.mem_singleton.mp hx]
    exact hc

theorem reads_of_iniParse (phase : Phase) (hvalid : phase.Valid)
    (h : iniParse phase b = some (es, none)) :
    phase.Reads es b := by
  induction b generalizing phase es with
  | nil =>
      cases phase with
      | sep =>
          cases h
          exact .inl ⟨rfl, rfl⟩
      | tag acc =>
          cases h
          rw [Phase.Reads, List.append_nil]
          exact .rest hvalid
      | field tag acc => cases h
  | cons c b ih =>
      cases phase with
      | sep =>
          by_cases hc : Plain c
          · rw [iniParse_sep_cons, if_pos hc] at h
            have hfile := ih (.tag []) (fun x hx => by cases hx) h
            exact .inr ⟨c, b, rfl, hc, hfile⟩
          · rw [iniParse_sep_cons, if_neg hc] at h
            cases h
      | tag acc =>
          by_cases hcomma : c = comma
          · subst hcomma
            by_cases hsize : TagSize acc
            · rw [iniParse_tag_comma hsize] at h
              exact ih (.field acc []) ⟨hsize, hvalid, fun x hx => by cases hx⟩ h
            · rw [iniParse_tag_cons, if_pos rfl, if_neg hsize] at h
              cases h
          · by_cases hsemi : c = semicolon
            · rw [iniParse_tag_cons, if_neg hcomma, if_pos hsemi] at h
              cases h
            · rw [iniParse_tag_plain ⟨hcomma, hsemi⟩] at h
              have hfile := ih (.tag (acc ++ [c]))
                (plain_append hvalid ⟨hcomma, hsemi⟩) h
              rwa [Phase.Reads, List.append_assoc] at hfile
      | field tag acc =>
          obtain ⟨hsize, htag, hacc⟩ := hvalid
          by_cases hsemi : c = semicolon
          · subst hsemi
            rw [iniParse_field_semicolon] at h
            obtain ⟨⟨es, o⟩, hsep, heq⟩ := Option.map_eq_some_iff.mp h
            obtain ⟨rfl, rfl⟩ := Prod.mk.inj heq
            have hentry : (⟨tag, acc⟩ : IniEntry).Valid := ⟨hsize, htag, hacc⟩
            rw [Phase.Reads]
            rcases ih .sep trivial hsep with ⟨rfl, rfl⟩ | ⟨sep, b, rfl, hplain, hfile⟩
            · exact .last hentry
            · have hmore := IniFile.entry hentry hplain hfile
              rw [IniEntry.text, List.append_assoc, List.cons_append, List.append_assoc] at hmore
              exact hmore
          · by_cases hcomma : c = comma
            · rw [iniParse_field_cons, if_neg hsemi, if_pos hcomma] at h
              cases h
            · rw [iniParse_field_plain ⟨hcomma, hsemi⟩] at h
              have hfile := ih (.field tag (acc ++ [c]))
                ⟨hsize, htag, plain_append hacc ⟨hcomma, hsemi⟩⟩ h
              rwa [Phase.Reads, List.append_assoc] at hfile

/-- The reader finds the entries of a file. -/
theorem iniParse_eq_some_iff : iniParse (.tag []) b = some (es, none) ↔ IniFile es b :=
  ⟨fun h => reads_of_iniParse (.tag []) (fun x hx => by cases hx) h,
    iniParse_of_iniFile⟩

end OpiaiKernel.Pkicms.Ini
