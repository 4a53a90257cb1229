import Mathlib.Data.List.Basic
import Mathlib.Order.Interval.Finset.Nat
import Mathlib.Data.Set.Basic
import Mathlib.Algebra.BigOperators.Group.List.Basic
import Mathlib.Tactic.TypeStar
import Mathlib.Algebra.Ring.Nat

/-!
# Spans and maximally coalesced free lists

A span is a half-open range of addresses.  A free list in increasing address
order with no two adjacent spans is coalesced.  The two operations of a
first-fit allocator on such a list are to carve a span from the front of a free
one and to release a span between its neighbours, gluing it to those it
touches.  Both keep the free list and the list of spans handed out a tiling of
the whole range.
-/

/-- The addresses from `start` up to `start + size`. -/
structure Span where
  start : ℕ
  size : ℕ
  deriving DecidableEq, Repr

namespace Span

def stop (s : Span) : ℕ := s.start + s.size

/-- The addresses in one of the spans. -/
def cover (xs : List Span) : Set ℕ := {n | ∃ s ∈ xs, s.start ≤ n ∧ n < s.stop}

def total (xs : List Span) : ℕ := (xs.map size).sum

/-- Increasing, disjoint and with a gap between any two spans. -/
def Coalesced (xs : List Span) : Prop := xs.Pairwise fun s t => s.stop < t.start

def Apart (s t : Span) : Prop := s.stop ≤ t.start ∨ t.stop ≤ s.start

/-- A nonempty span of whole pages inside the first `T` addresses. -/
structure Cell (P T : ℕ) (s : Span) : Prop where
  pos : 0 < s.size
  start_dvd : P ∣ s.start
  size_dvd : P ∣ s.size
  stop_le : s.stop ≤ T

/-- The free and the live spans tile the first `T` addresses. -/
structure Tiling (P T : ℕ) (free live : List Span) : Prop where
  coalesced : Coalesced free
  apart : live.Pairwise Apart
  free_cell : ∀ s ∈ free, Cell P T s
  live_cell : ∀ s ∈ live, Cell P T s
  compl : ∀ n < T, n ∈ cover free ↔ n ∉ cover live
  total_eq : total free + total live = T

@[simp] theorem mem_cover_nil (n : ℕ) : n ∉ cover [] := by simp [cover]

@[simp] theorem mem_cover_cons (n : ℕ) (s : Span) (xs : List Span) :
    n ∈ cover (s :: xs) ↔ (s.start ≤ n ∧ n < s.stop) ∨ n ∈ cover xs := by
  simp [cover]

@[simp] theorem mem_cover_append (n : ℕ) (xs ys : List Span) :
    n ∈ cover (xs ++ ys) ↔ n ∈ cover xs ∨ n ∈ cover ys := by
  simp [cover, or_and_right, exists_or]

@[simp] theorem total_nil : total [] = 0 := rfl

@[simp] theorem total_cons (s : Span) (xs : List Span) :
    total (s :: xs) = s.size + total xs := by
  simp [total]

@[simp] theorem total_append (xs ys : List Span) :
    total (xs ++ ys) = total xs + total ys := by
  simp [total]

theorem size_le_total {s : Span} {xs : List Span} (h : s ∈ xs) : s.size ≤ total xs := by
  induction xs with
  | nil => simp at h
  | cons t xs ih =>
      rw [total_cons]
      rcases List.mem_cons.mp h with rfl | h
      · omega
      · have := ih h
        omega

theorem Apart.symm {s t : Span} (h : Apart s t) : Apart t s := Or.symm h

/-! ## Carving -/

/-- What is left of a free span after `n` addresses are taken from its front. -/
def carve (s : Span) (n : ℕ) : List Span :=
  if s.size = n then [] else [⟨s.start + n, s.size - n⟩]

theorem mem_cover_carve {s : Span} {n : ℕ} (hn : n ≤ s.size) (k : ℕ) :
    k ∈ cover (carve s n) ↔ s.start + n ≤ k ∧ k < s.stop := by
  unfold carve stop
  split
  · simp only [mem_cover_nil, false_iff]
    omega
  · simp only [mem_cover_cons, mem_cover_nil, or_false, stop]
    omega

theorem total_carve {s : Span} {n : ℕ} (hn : n ≤ s.size) :
    total (carve s n) + n = s.size := by
  unfold carve
  split <;> simp <;> omega

theorem Coalesced.carve {xs ys : List Span} {s : Span} {n : ℕ} (hn : n ≤ s.size)
    (h : Coalesced (xs ++ s :: ys)) : Coalesced (xs ++ (s.carve n ++ ys)) := by
  obtain ⟨hxs, hsys, hcross⟩ := List.pairwise_append.mp h
  obtain ⟨hs, hys⟩ := List.pairwise_cons.mp hsys
  unfold Span.carve
  split
  · exact List.pairwise_append.mpr
      ⟨hxs, hys, fun a ha b hb => hcross a ha b (List.mem_cons_of_mem s hb)⟩
  · refine List.pairwise_append.mpr ⟨hxs, List.pairwise_cons.mpr ⟨?_, hys⟩, ?_⟩
    · intro t ht
      have := hs t ht
      simp only [stop] at this ⊢
      omega
    · intro a ha b hb
      rcases List.mem_cons.mp hb with rfl | hb
      · have := hcross a ha s (by simp)
        simp only at this ⊢
        omega
      · exact hcross a ha b (List.mem_cons_of_mem s hb)

/-- Two spans of a tiling, one free and one live, do not meet. -/
theorem Tiling.free_live_apart {P T : ℕ} {free live : List Span} (h : Tiling P T free live)
    {s t : Span} (hs : s ∈ free) (ht : t ∈ live) : Apart s t := by
  have hsc := h.free_cell s hs
  have htc := h.live_cell t ht
  have hspos := hsc.pos
  have htpos := htc.pos
  have hsT := hsc.stop_le
  have htT := htc.stop_le
  by_contra hmeet
  simp only [Apart, not_or, not_le, stop] at hmeet hsT htT
  have hmax : max s.start t.start < T := by omega
  have hfree : max s.start t.start ∈ cover free := ⟨s, hs, by omega, by simp only [stop]; omega⟩
  have hlive : max s.start t.start ∈ cover live := ⟨t, ht, by omega, by simp only [stop]; omega⟩
  exact (h.compl _ hmax).mp hfree hlive

theorem Tiling.carve {P T n : ℕ} {xs ys live : List Span} {s : Span}
    (h : Tiling P T (xs ++ s :: ys) live) (hpos : 0 < n) (hdvd : P ∣ n) (hn : n ≤ s.size) :
    Tiling P T (xs ++ (s.carve n ++ ys)) (⟨s.start, n⟩ :: live) := by
  have hs := h.free_cell s (by simp)
  have hstop := hs.stop_le
  have hsub : ∀ t ∈ xs ++ ys, t ∈ xs ++ s :: ys := by
    intro t ht
    rcases List.mem_append.mp ht with ht | ht <;> simp [ht]
  constructor
  · exact h.coalesced.carve hn
  · refine List.pairwise_cons.mpr ⟨?_, h.apart⟩
    intro t ht
    rcases h.free_live_apart (s := s) (by simp) ht with hst | hst
    · exact .inl (by simp only [stop] at hst ⊢; omega)
    · exact .inr hst
  · intro t ht
    rcases List.mem_append.mp ht with ht | ht
    · exact h.free_cell t (by simp [ht])
    · rcases List.mem_append.mp ht with ht | ht
      · unfold Span.carve at ht
        split at ht
        · simp at ht
        · next hne =>
            rw [List.mem_singleton.mp ht]
            exact ⟨by simp only; omega, Nat.dvd_add hs.start_dvd hdvd,
              Nat.dvd_sub hs.size_dvd hdvd, by simp only [stop] at hstop ⊢; omega⟩
      · exact h.free_cell t (by simp [ht])
  · intro t ht
    rcases List.mem_cons.mp ht with rfl | ht
    · exact ⟨hpos, hs.start_dvd, hdvd, by simp only [stop] at hstop ⊢; omega⟩
    · exact h.live_cell t ht
  · intro k hk
    have hcompl := h.compl k hk
    have hother : k ∈ cover xs ∨ k ∈ cover ys → ¬ (s.start ≤ k ∧ k < s.stop) := by
      obtain ⟨-, hsys, hcross⟩ := List.pairwise_append.mp h.coalesced
      have hys := (List.pairwise_cons.mp hsys).1
      rintro (⟨t, ht, hkt⟩ | ⟨t, ht, hkt⟩)
      · have := hcross t ht s (by simp)
        omega
      · have := hys t ht
        omega
    simp only [mem_cover_append, mem_cover_cons, mem_cover_carve hn, stop] at hcompl hother ⊢
    by_cases hin : s.start ≤ k ∧ k < s.start + n
    · have hnot : ¬ (k ∈ cover xs ∨ k ∈ cover ys) := fun hxy => hother hxy (by omega)
      simp only [not_or] at hnot
      simp only [hin, hnot.1, hnot.2, and_self, true_or, not_true, iff_false, false_or, or_false]
      omega
    · simp only [hin, false_or]
      rw [← hcompl]
      have : (s.start + n ≤ k ∧ k < s.start + s.size) ↔
          (s.start ≤ k ∧ k < s.start + s.size) := by omega
      rw [this]
  · have htotal := h.total_eq
    have hcarve := total_carve hn
    simp only [total_append, total_cons] at htotal ⊢
    omega

/-! ## Releasing -/

/-- Put a span before a list, gluing it to the first span it touches. -/
def glueRight (s : Span) : List Span → List Span
  | [] => [s]
  | t :: ys => if s.stop = t.start then ⟨s.start, s.size + t.size⟩ :: ys else s :: t :: ys

@[simp] theorem glueRight_nil (s : Span) : glueRight s [] = [s] := rfl

theorem glueRight_cons (s t : Span) (ys : List Span) :
    glueRight s (t :: ys) =
      if s.stop = t.start then ⟨s.start, s.size + t.size⟩ :: ys else s :: t :: ys := rfl

/-- Put a span between two lists, gluing it to the neighbours it touches. -/
def release (xs : List Span) (s : Span) (ys : List Span) : List Span :=
  match xs.getLast? with
  | none => glueRight s ys
  | some p =>
      if p.stop = s.start then xs.dropLast ++ glueRight ⟨p.start, p.size + s.size⟩ ys
      else xs ++ glueRight s ys

@[simp] theorem release_nil (s : Span) (ys : List Span) : release [] s ys = glueRight s ys := rfl

theorem release_concat (xs : List Span) (p s : Span) (ys : List Span) :
    release (xs ++ [p]) s ys =
      if p.stop = s.start then xs ++ glueRight ⟨p.start, p.size + s.size⟩ ys
      else xs ++ p :: glueRight s ys := by
  simp [release]

theorem total_glueRight (s : Span) (ys : List Span) :
    total (glueRight s ys) = s.size + total ys := by
  rcases ys with _ | ⟨t, ys⟩
  · rfl
  · rw [glueRight_cons]
    split
    · simp only [total_cons]
      omega
    · rfl

theorem mem_cover_glueRight (s : Span) (ys : List Span) (n : ℕ) :
    n ∈ cover (glueRight s ys) ↔ (s.start ≤ n ∧ n < s.stop) ∨ n ∈ cover ys := by
  rcases ys with _ | ⟨t, ys⟩
  · simp [glueRight]
  · rw [glueRight_cons]
    split
    · next h =>
        simp only [mem_cover_cons, stop] at h ⊢
        rw [← or_assoc]
        refine or_congr ?_ Iff.rfl
        omega
    · simp

/-- Every span after a gluing starts at the glued span or was there before. -/
theorem mem_glueRight_start {s t : Span} {ys : List Span} (h : t ∈ glueRight s ys) :
    t.start = s.start ∨ t ∈ ys := by
  rcases ys with _ | ⟨u, ys⟩
  · simp only [glueRight, List.mem_singleton] at h
    exact .inl (h ▸ rfl)
  · rw [glueRight_cons] at h
    split at h <;> rcases List.mem_cons.mp h with rfl | h
    · exact .inl rfl
    · exact .inr (List.mem_cons_of_mem u h)
    · exact .inl rfl
    · exact .inr h

theorem coalesced_glueRight {s : Span} {ys : List Span} (hys : Coalesced ys)
    (hs : ∀ t ∈ ys, s.stop ≤ t.start) : Coalesced (glueRight s ys) := by
  rcases ys with _ | ⟨t, ys⟩
  · simp [glueRight, Coalesced]
  · obtain ⟨ht, hrest⟩ := List.pairwise_cons.mp hys
    have hst := hs t (by simp)
    rw [glueRight_cons]
    split
    · next heq =>
        refine List.pairwise_cons.mpr ⟨?_, hrest⟩
        intro u hu
        have := ht u hu
        simp only [stop] at heq this ⊢
        omega
    · next hne =>
        refine List.pairwise_cons.mpr ⟨?_, hys⟩
        intro u hu
        rcases List.mem_cons.mp hu with rfl | hu
        · omega
        · have := ht u hu
          simp only [stop] at this hst hne ⊢
          omega

theorem cell_glueRight {P T : ℕ} {s : Span} {ys : List Span} (hs : Cell P T s)
    (hys : ∀ t ∈ ys, Cell P T t) : ∀ t ∈ glueRight s ys, Cell P T t := by
  rcases ys with _ | ⟨t, ys⟩
  · simpa [glueRight] using hs
  · have ht := hys t (by simp)
    rw [glueRight_cons]
    split
    · next heq =>
        intro u hu
        rcases List.mem_cons.mp hu with rfl | hu
        · have hpos := hs.pos
          have hstop := ht.stop_le
          exact ⟨by simp only; omega, hs.start_dvd, Nat.dvd_add hs.size_dvd ht.size_dvd,
            by simp only [stop] at heq hstop ⊢; omega⟩
        · exact hys u (List.mem_cons_of_mem t hu)
    · intro u hu
      rcases List.mem_cons.mp hu with rfl | hu
      · exact hs
      · exact hys u hu

theorem total_release (xs : List Span) (s : Span) (ys : List Span) :
    total (release xs s ys) = total xs + s.size + total ys := by
  rcases List.eq_nil_or_concat xs with rfl | ⟨xs, p, rfl⟩
  · simp [total_glueRight]
  · rw [List.concat_eq_append, release_concat]
    split <;> simp [total_glueRight] <;> omega

theorem mem_cover_release (xs : List Span) (s : Span) (ys : List Span) (n : ℕ) :
    n ∈ cover (release xs s ys) ↔
      (s.start ≤ n ∧ n < s.stop) ∨ n ∈ cover xs ∨ n ∈ cover ys := by
  rcases List.eq_nil_or_concat xs with rfl | ⟨xs, p, rfl⟩
  · simp [mem_cover_glueRight]
  · rw [List.concat_eq_append, release_concat]
    split
    · next h =>
        simp only [mem_cover_append, mem_cover_glueRight, mem_cover_cons, mem_cover_nil,
          or_false, stop] at h ⊢
        have hjoin : (p.start ≤ n ∧ n < p.start + (p.size + s.size)) ↔
            (s.start ≤ n ∧ n < s.start + s.size) ∨ (p.start ≤ n ∧ n < p.start + p.size) := by
          omega
        rw [hjoin]
        tauto
    · simp only [mem_cover_append, mem_cover_cons, mem_cover_glueRight, mem_cover_nil, or_false]
      tauto

theorem coalesced_release {xs ys : List Span} {s : Span} (h : Coalesced (xs ++ ys))
    (hxs : ∀ t ∈ xs, t.stop ≤ s.start) (hys : ∀ t ∈ ys, s.stop ≤ t.start) :
    Coalesced (release xs s ys) := by
  obtain ⟨hcx, hcy, hcross⟩ := List.pairwise_append.mp h
  rcases List.eq_nil_or_concat xs with rfl | ⟨xs, p, rfl⟩
  · exact coalesced_glueRight hcy hys
  · rw [List.concat_eq_append] at hcx hcross hxs ⊢
    obtain ⟨hcxs, -, hxp⟩ := List.pairwise_append.mp hcx
    have hp := hxs p (by simp)
    rw [release_concat]
    split
    · next heq =>
        have hglued : ∀ t ∈ ys, (⟨p.start, p.size + s.size⟩ : Span).stop ≤ t.start := by
          intro t ht
          have := hys t ht
          simp only [stop] at heq this ⊢
          omega
        refine List.pairwise_append.mpr ⟨hcxs, coalesced_glueRight hcy hglued, ?_⟩
        intro a ha b hb
        rcases mem_glueRight_start hb with hb | hb
        · rw [hb]
          exact hxp a ha p (by simp)
        · exact hcross a (by simp [ha]) b hb
    · next hne =>
        rw [List.append_cons]
        refine List.pairwise_append.mpr ⟨hcx, coalesced_glueRight hcy hys, ?_⟩
        intro a ha b hb
        rcases mem_glueRight_start hb with hb' | hb'
        · rw [hb']
          rcases List.mem_append.mp ha with ha | ha
          · have hap := hxp a ha p (by simp)
            simp only [stop] at hap hp ⊢
            omega
          · rw [List.mem_singleton.mp ha]
            omega
        · exact hcross a ha b hb'

theorem cell_release {P T : ℕ} {xs ys : List Span} {s : Span} (hs : Cell P T s)
    (hxy : ∀ t ∈ xs ++ ys, Cell P T t) : ∀ t ∈ release xs s ys, Cell P T t := by
  have hys : ∀ t ∈ ys, Cell P T t := fun t ht => hxy t (by simp [ht])
  rcases List.eq_nil_or_concat xs with rfl | ⟨xs, p, rfl⟩
  · exact cell_glueRight hs hys
  · rw [List.concat_eq_append] at hxy ⊢
    have hp := hxy p (by simp)
    rw [release_concat]
    split
    · next heq =>
        have hpos := hp.pos
        have hstop := hs.stop_le
        have hglued : Cell P T ⟨p.start, p.size + s.size⟩ :=
          ⟨by simp only; omega, hp.start_dvd, Nat.dvd_add hp.size_dvd hs.size_dvd,
            by simp only [stop] at heq hstop ⊢; omega⟩
        intro t ht
        rcases List.mem_append.mp ht with ht | ht
        · exact hxy t (by simp [ht])
        · exact cell_glueRight hglued hys t ht
    · intro t ht
      rcases List.mem_append.mp ht with ht | ht
      · exact hxy t (by simp [ht])
      · rcases List.mem_cons.mp ht with rfl | ht
        · exact hp
        · exact cell_glueRight hs hys t ht

/-- Giving back a live span, at its place in the free list, keeps the tiling. -/
theorem Tiling.release {P T : ℕ} {xs ys live : List Span} {s : Span}
    (h : Tiling P T (xs ++ ys) (s :: live)) (hxs : ∀ t ∈ xs, t.stop ≤ s.start)
    (hys : ∀ t ∈ ys, s.stop ≤ t.start) : Tiling P T (release xs s ys) live := by
  have hs := h.live_cell s (by simp)
  obtain ⟨hsl, hlive⟩ := List.pairwise_cons.mp h.apart
  constructor
  · exact coalesced_release h.coalesced hxs hys
  · exact hlive
  · exact cell_release hs h.free_cell
  · exact fun t ht => h.live_cell t (List.mem_cons_of_mem s ht)
  · intro n hn
    have hcompl := h.compl n hn
    rw [mem_cover_append, mem_cover_cons] at hcompl
    rw [mem_cover_release]
    by_cases hin : s.start ≤ n ∧ n < s.stop
    · have hnot : n ∉ cover live := by
        rintro ⟨t, ht, hnt⟩
        rcases hsl t ht with hst | hst <;> omega
      simp [hin, hnot]
    · simp only [hin, false_or] at hcompl ⊢
      exact hcompl
  · have htotal := h.total_eq
    simp only [total_append, total_cons] at htotal
    rw [total_release]
    omega

/-- The order of the live spans does not matter. -/
theorem Tiling.perm {P T : ℕ} {free live live' : List Span} (h : Tiling P T free live)
    (hp : live.Perm live') : Tiling P T free live' where
  coalesced := h.coalesced
  apart := hp.pairwise h.apart fun hst => hst.symm
  free_cell := h.free_cell
  live_cell := fun s hs => h.live_cell s (hp.mem_iff.mpr hs)
  compl := by
    intro n hn
    rw [h.compl n hn]
    simp [cover, hp.mem_iff]
  total_eq := by
    rw [← h.total_eq, total, total, total, (hp.map size).sum_eq]

theorem Tiling.whole {P T : ℕ} (hpos : 0 < T) (hdvd : P ∣ T) : Tiling P T [⟨0, T⟩] [] where
  coalesced := by simp [Coalesced]
  apart := .nil
  free_cell := by
    intro s hs
    rw [List.mem_singleton.mp hs]
    exact ⟨hpos, Nat.dvd_zero P, hdvd, by simp [stop]⟩
  live_cell := by simp
  compl := by
    intro n hn
    simpa [stop] using hn
  total_eq := by simp

/-- Without live spans the free list is the whole range. -/
theorem Tiling.free_whole {P T : ℕ} {free : List Span} (h : Tiling P T free []) (hT : 0 < T) :
    free = [⟨0, T⟩] := by
  have hmem : ∀ n < T, n ∈ cover free := fun n hn => (h.compl n hn).mpr (by simp)
  have htotal := h.total_eq
  cases free with
  | nil => simp at htotal; omega
  | cons s rest =>
      obtain ⟨hs, -⟩ := List.pairwise_cons.mp h.coalesced
      have hstart : s.start = 0 := by
        obtain ⟨t, ht, hle, -⟩ := hmem 0 hT
        rcases List.mem_cons.mp ht with rfl | ht
        · omega
        · have := hs t ht
          omega
      cases rest with
      | nil =>
          simp only [total_cons, total_nil] at htotal
          cases s
          simp_all
      | cons u rest =>
          have hu := hs u (by simp)
          have hcell := h.free_cell u (by simp)
          have huT := hcell.stop_le
          have hupos := hcell.pos
          simp only [stop] at hu huT
          obtain ⟨t, ht, hle, hlt⟩ := hmem (s.start + s.size) (by omega)
          simp only [stop] at hlt
          rcases List.mem_cons.mp ht with rfl | ht
          · omega
          · have := hs t ht
            simp only [stop] at this
            omega

theorem length_le_total {xs : List Span} (h : ∀ s ∈ xs, 0 < s.size) :
    xs.length ≤ total xs := by
  induction xs with
  | nil => simp
  | cons s xs ih =>
      have hs := h s (by simp)
      have := ih fun t ht => h t (List.mem_cons_of_mem s ht)
      simp only [List.length_cons, total_cons]
      omega

/-- Spans that do not overlap take no more than the range they are in. -/
theorem total_le_of_apart {xs : List Span} {N : ℕ} (hapart : xs.Pairwise Apart)
    (hstop : ∀ s ∈ xs, s.stop ≤ N) : total xs ≤ N := by
  have hcover : ∃ F : Finset ℕ, (∀ n, n ∈ F ↔ n ∈ cover xs) ∧ F.card = total xs := by
    induction xs with
    | nil => exact ⟨∅, by simp, rfl⟩
    | cons s xs ih =>
        obtain ⟨hs, hxs⟩ := List.pairwise_cons.mp hapart
        obtain ⟨F, hF, hcard⟩ := ih hxs fun t ht => hstop t (List.mem_cons_of_mem s ht)
        have hdisj : Disjoint (Finset.Ico s.start s.stop) F := by
          rw [Finset.disjoint_left]
          intro n hn hnF
          obtain ⟨t, ht, hnt⟩ := (hF n).mp hnF
          rw [Finset.mem_Ico] at hn
          rcases hs t ht with hst | hst <;> omega
        refine ⟨Finset.Ico s.start s.stop ∪ F, fun n => ?_, ?_⟩
        · rw [Finset.mem_union, Finset.mem_Ico, hF, mem_cover_cons]
        · rw [Finset.card_union_of_disjoint hdisj, hcard, Nat.card_Ico, total_cons, stop]
          omega
  obtain ⟨F, hF, hcard⟩ := hcover
  have hsub : F ⊆ Finset.range N := by
    intro n hn
    obtain ⟨s, hs, hns⟩ := (hF n).mp hn
    have := hstop s hs
    exact Finset.mem_range.mpr (by omega)
  have := Finset.card_le_card hsub
  rwa [hcard, Finset.card_range] at this

theorem Tiling.length_le {P T : ℕ} {free live : List Span} (h : Tiling P T free live) :
    live.length ≤ T := by
  have := length_le_total fun s hs => (h.live_cell s hs).pos
  have := h.total_eq
  omega

end Span
