import Mathlib.Data.Int.Notation
import Mathlib.Data.List.Count
import Mathlib.Data.List.Nodup
import Mathlib.Data.List.Perm.Basic
import Mathlib.Logic.Function.Basic

/-!
# Counted references

Objects with a counter each, the references to them that are held, and the
objects that were counted down to nothing.  Whoever drops the last reference to
an object disposes of it, once.
-/

/-- `refs` are the references held to the objects that are `known`, and `gone`
the objects of which none is left. -/
structure RefCounted {ι : Type*} [DecidableEq ι] (cnt : ι → ℤ) (refs gone : List ι)
    (known : ι → Prop) : Prop where
  count : ∀ c, cnt c = refs.count c
  inside : ∀ c ∈ refs, known c
  nodup : gone.Nodup
  gone_iff : ∀ c, c ∈ gone ↔ known c ∧ c ∉ refs

namespace RefCounted

variable {ι : Type*} [DecidableEq ι] {cnt cnt' : ι → ℤ} {refs refs' gone gone' : List ι}
  {known known' : ι → Prop} {c : ι}

theorem congr (h : RefCounted cnt refs gone known) (hcnt : ∀ c, cnt' c = cnt c)
    (hrefs : refs'.Perm refs) (hgone : gone'.Perm gone) (hknown : ∀ c, known' c ↔ known c) :
    RefCounted cnt' refs' gone' known' where
  count c := by rw [hcnt, h.count, hrefs.count_eq]
  inside c hc := (hknown c).mpr (h.inside c (hrefs.mem_iff.mp hc))
  nodup := hgone.nodup_iff.mpr h.nodup
  gone_iff c := by rw [hgone.mem_iff, h.gone_iff, hknown, hrefs.mem_iff]

theorem pos (h : RefCounted cnt refs gone known) (hc : c ∈ refs) : 0 < cnt c := by
  rw [h.count]
  exact_mod_cast List.count_pos_iff.mpr hc

theorem notMem_gone (h : RefCounted cnt refs gone known) (hc : c ∈ refs) : c ∉ gone :=
  fun hgone => ((h.gone_iff c).mp hgone).2 hc

theorem count_cons (h : RefCounted cnt refs gone known) (c d : ι) :
    Function.update cnt c (cnt c + 1) d = (c :: refs).count d := by
  rcases eq_or_ne d c with rfl | hne
  · rw [Function.update_self, List.count_cons_self, h.count]
    push_cast
    rfl
  · rw [Function.update_of_ne hne, List.count_cons_of_ne hne.symm, h.count]

/-- A reference to an object is taken from one that is held. -/
theorem get (h : RefCounted cnt refs gone known) (hc : c ∈ refs) :
    RefCounted (Function.update cnt c (cnt c + 1)) (c :: refs) gone known where
  count := h.count_cons c
  inside d hd := (List.mem_cons.mp hd).elim (fun heq => heq ▸ h.inside c hc) (h.inside d)
  nodup := h.nodup
  gone_iff d := by
    rw [h.gone_iff, List.mem_cons]
    exact and_congr_right fun _ => not_congr ⟨.inr, fun hd => hd.elim (fun heq => heq ▸ hc) id⟩

/-- The first reference to an object makes it known. -/
theorem publish (h : RefCounted cnt refs gone known) (hc : ¬ known c) :
    RefCounted (Function.update cnt c (cnt c + 1)) (c :: refs) gone
      (fun d => d = c ∨ known d) where
  count := h.count_cons c
  inside d hd := (List.mem_cons.mp hd).imp_right (h.inside d)
  nodup := h.nodup
  gone_iff d := by
    rw [h.gone_iff, List.mem_cons]
    constructor
    · rintro ⟨hd, hnot⟩
      exact ⟨.inr hd, fun hor => hor.elim (fun heq => hc (heq ▸ hd)) hnot⟩
    · rintro ⟨heq | hd, hnot⟩
      · exact absurd (.inl heq) hnot
      · exact ⟨hd, fun hin => hnot (.inr hin)⟩

theorem count_erase (h : RefCounted cnt refs gone known) (c d : ι) (hc : c ∈ refs) :
    Function.update cnt c (cnt c - 1) d = (refs.erase c).count d := by
  rcases eq_or_ne d c with rfl | hne
  · have hpos := List.count_pos_iff.mpr hc
    rw [Function.update_self, List.count_erase_self, h.count]
    omega
  · rw [Function.update_of_ne hne, List.count_erase_of_ne hne, h.count]

/-- A reference is put back and is not the last one. -/
theorem put (h : RefCounted cnt refs gone known) (hc : c ∈ refs) (hpos : 0 < cnt c - 1) :
    RefCounted (Function.update cnt c (cnt c - 1)) (refs.erase c) gone known where
  count d := h.count_erase c d hc
  inside d hd := h.inside d (List.mem_of_mem_erase hd)
  nodup := h.nodup
  gone_iff d := by
    rw [h.gone_iff]
    refine and_congr_right fun _ => not_congr ⟨fun hd => ?_, List.mem_of_mem_erase⟩
    rcases eq_or_ne d c with rfl | hne
    · have hcount := h.count_erase d d hc
      rw [Function.update_self] at hcount
      exact List.count_pos_iff.mp (by omega)
    · exact (List.mem_erase_of_ne hne).mpr hd

/-- The last reference is put back, and the object goes. -/
theorem putLast (h : RefCounted cnt refs gone known) (hc : c ∈ refs) (hlast : ¬ 0 < cnt c - 1) :
    RefCounted (Function.update cnt c (cnt c - 1)) (refs.erase c) (c :: gone) known where
  count d := h.count_erase c d hc
  inside d hd := h.inside d (List.mem_of_mem_erase hd)
  nodup := List.nodup_cons.mpr ⟨h.notMem_gone hc, h.nodup⟩
  gone_iff d := by
    rw [List.mem_cons, h.gone_iff]
    rcases eq_or_ne d c with rfl | hne
    · have hcount := h.count_erase d d hc
      rw [Function.update_self] at hcount
      have hnot : d ∉ refs.erase d := List.count_eq_zero.mp (by omega)
      exact ⟨fun _ => ⟨h.inside d hc, hnot⟩, fun _ => .inl rfl⟩
    · rw [List.mem_erase_of_ne hne]
      exact ⟨fun hor => hor.resolve_left hne, .inr⟩

end RefCounted
